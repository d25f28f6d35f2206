import NginxInterface.Cycle.StreamApps

/-! # The applications of the http block

The `http` block that is rendered for a table, with the status server in front of the
applications. Unlike in the `stream` block, servers may share a port here.
-/

namespace NginxInterface.Cycle

open Js ConfFile Upstream Foundation

variable {N : Type} [Number N] {build : Build}

/-- The directives of the template that are always the same and have commands of their own are
taken as they are. -/
structure Build.Usual (build : Build) : Prop where
  main : ∀ d ∈ [directive ["worker_processes", "5"],
    directive ["error_log", "/dev/stdout", "info"]], build.others .main d = .ok ()
  events : build.others .events (directive ["worker_connections", "4096"]) = .ok ()
  location : ∀ d ∈ (locationDirectives []).dropLast, build.others .location d = .ok ()
  status : ∀ d ∈ [directive ["stub_status"], directive ["access_log", "off"],
    directive ["deny", "all"], directive ["allow", "127.0.0.1"]], build.others .location d = .ok ()

/-! ## What the block comes to -/

def rootLocation (target : Target) : Location where
  kind := .inclusive
  name := "/".toList
  target := some target

/-- A server that passes everything on. -/
def rootServer (port : Nat) (target : Target) : HttpServer where
  names := ["_".toList]
  listen := [⟨0, port⟩]
  locations := [rootLocation target]

def httpServerOf (index : Nat) (app : String × Entry N) : HttpServer :=
  rootServer (appPort app) (.upstream index)

def statusServerOf (port : Nat) : HttpServer where
  names := [[]]
  listen := [⟨0, port⟩]
  locations := [{ kind := .inclusive, name := "/status".toList }]

def httpState (status : List HttpServer) (apps : List (String × Entry N)) : HttpConf where
  upstreams := apps.map (appUpstream .http)
  servers := status ++ apps.mapIdx httpServerOf

/-! ## Servers -/

theorem accepts_httpListen (conf : HttpConf) {server : HttpServer} (hfirst : server.listen = [])
    {value : Value N} (hvalue : value.Natural) :
    Accepts (httpListen build (conf, server) ["listen".toList, valueWord value])
      (PortRange (numberOf value)) (conf, { server with listen := [⟨0, numberOf value⟩] }) := by
  have hurl : Accepts (parseInetUrl build.resolve { listen := true, defaultPort := 80 }
      (["listen".toList, valueWord value].getD 1 [])) _ _ :=
    accepts_listenUrl build.resolve rfl hvalue
  unfold httpListen
  dsimp only
  by_cases hrange : PortRange (numberOf value)
  · rw [hurl.eq_ok hrange, hfirst]
    exact (Accepts.of_eq_ok rfl).congr (iff_of_true trivial hrange)
  · obtain ⟨err, herr⟩ := hurl.eq_error hrange
    rw [herr]
    exact .error _ hrange

/-- The words that follow the port with `ssl` are no parameters. -/
theorem listenParameters_ssl (build : Build) :
    ∃ e, ["ssl".toList, "ssl".toList, "on".toList].mapM (listenParameter build) = .error e := by
  obtain ⟨resolve, compiles, ssl, root, others⟩ := build
  cases ssl with
  | true => exact ⟨_, rfl⟩
  | false => exact ⟨_, rfl⟩

theorem refused_listenSsl (state result : HttpConf × HttpServer) (port : Word) :
    httpListen build state ["listen".toList, port, "ssl".toList, "ssl".toList, "on".toList] ≠
      .ok result := by
  obtain ⟨e, hparameters⟩ := listenParameters_ssl build
  have hdrop : ["listen".toList, port, "ssl".toList, "ssl".toList, "on".toList].drop 2 =
      ["ssl".toList, "ssl".toList, "on".toList] := rfl
  unfold httpListen
  dsimp only
  split
  · exact fun hok => by cases hok
  · rw [hdrop, hparameters]
    exact fun hok => by cases hok

/-- What is passed on to, after the scheme. -/
theorem httpProxyPass_appKey {upstreams : List UpstreamConf} {location : Location}
    {appKey : String} (hkey : Name appKey) {added : List UpstreamConf} {target : Target}
    (hfirst : location.target = none)
    (htarget : upstreamTarget build .http { defaultPort := 80, uriPart := true, noResolve := true }
      appKey.toList upstreams = .ok (added, target)) :
    httpProxyPass build (upstreams, location)
        ["proxy_pass".toList, "http://".toList ++ appKey.toList] =
      .ok (added, { location with target := some target }) := by
  have hurl : ["proxy_pass".toList, "http://".toList ++ appKey.toList].getD 1 [] =
      "http://".toList ++ appKey.toList := rfl
  have hplain : hasVariables ("http://".toList ++ appKey.toList) = false := by
    have hname := hasVariables_name hkey
    simp only [hasVariables, List.contains_eq_mem, List.mem_append] at hname ⊢
    simpa using hname
  have htake : ("http://".toList ++ appKey.toList).take "http://".toList.length =
      "http://".toList := List.take_left
  have hdrop : ("http://".toList ++ appKey.toList).drop "http://".toList.length =
      appKey.toList := List.drop_left
  have hscheme : (urlSchemes build).find? (fun scheme => sameHost scheme.1
      (("http://".toList ++ appKey.toList).take scheme.1.length)) =
        some ("http://".toList, 80) := by
    refine List.find?_cons_of_pos ?_
    rw [htake]
    exact decide_eq_true rfl
  unfold httpProxyPass
  rw [hurl, hfirst]
  dsimp only
  rw [hplain, hscheme]
  dsimp only
  rw [hdrop, htarget]
  rfl

/-- The location of an application: the headers, then the `proxy_pass`. -/
theorem httpLocation_appKey (hbuild : build.Usual) {conf : HttpConf} {server : HttpServer}
    (hfirst : server.locations = []) {appKey : String} (hkey : Name appKey)
    {added : List UpstreamConf} {target : Target}
    (htarget : upstreamTarget build .http { defaultPort := 80, uriPart := true, noResolve := true }
      appKey.toList conf.upstreams = .ok (added, target)) :
    httpLocation build (conf, server) ["location".toList, "/".toList]
        (locationDirectives appKey.toList) =
      .ok ({ conf with upstreams := added },
        { server with locations := [rootLocation target] }) := by
  have hnames : (locationCommands build).map Command.name = ["proxy_pass".toList] := rfl
  have hheaders : contextParse build .location (locationCommands build)
      (conf.upstreams, { kind := .inclusive, name := "/".toList })
        (locationDirectives []).dropLast = .ok _ :=
    contextParse_others (by rw [hnames]; decide) hbuild.location
  have hsplit : locationDirectives appKey.toList = (locationDirectives []).dropLast ++
      [.simple ["proxy_pass".toList, "http://".toList ++ appKey.toList]] := rfl
  have hbody : contextParse build .location (locationCommands build)
      (conf.upstreams, { kind := .inclusive, name := "/".toList })
        (locationDirectives appKey.toList) = .ok (added, rootLocation target) := by
    rw [hsplit, contextParse_append hheaders, contextParse_singleton]
    exact @httpProxyPass_appKey build conf.upstreams { kind := .inclusive, name := "/".toList } _
      hkey _ _ rfl htarget
  have hname : locationName build ["location".toList, "/".toList] =
      .ok { kind := .inclusive, name := "/".toList } := rfl
  unfold httpLocation
  rw [hname, hfirst]
  dsimp only [bind, Except.bind]
  rw [hbody]
  rfl

theorem httpServerName_default (conf : HttpConf) :
    httpServerName build (conf, {}) ["server_name".toList, "_".toList] =
      .ok (conf, { names := ["_".toList] }) := rfl

/-- The server of an application without `ssl`. -/
theorem accepts_httpServer (hbuild : build.Usual) (conf : HttpConf) {value : Value N}
    (hvalue : value.Natural) {appKey : String} (hkey : Name appKey)
    {added : List UpstreamConf} {target : Target}
    (htarget : upstreamTarget build .http { defaultPort := 80, uriPart := true, noResolve := true }
      appKey.toList conf.upstreams = .ok (added, target)) :
    Accepts (contextHandler build .http (httpCommands build) conf
        (httpServerBlock "_".toList (listenDirectives appKey.toList (valueWord value))))
      (PortRange (numberOf value))
      { upstreams := added, servers := conf.servers ++ [rootServer (numberOf value) target] } := by
  have hname : contextHandler build .server (serverCommands build) (conf, {})
      (.simple ["server_name".toList, "_".toList]) = .ok (conf, { names := ["_".toList] }) :=
    httpServerName_default conf
  have hlisten : Accepts (contextHandler build .server (serverCommands build)
      (conf, { names := ["_".toList] }) (.simple ["listen".toList, valueWord value])) _ _ :=
    accepts_httpListen conf rfl hvalue
  have hlocation : contextHandler build .server (serverCommands build)
      (conf, { names := ["_".toList], listen := [⟨0, numberOf value⟩] })
      (.block ["location".toList, "/".toList] (locationDirectives appKey.toList)) = .ok _ :=
    httpLocation_appKey hbuild rfl hkey htarget
  have hbody : Accepts (contextParse build .server (serverCommands build) (conf, {})
      (.simple ["server_name".toList, "_".toList] ::
        listenDirectives appKey.toList (valueWord value))) _ _ :=
    (Accepts.of_eq_ok hname).foldlM_cons fun _ => hlisten.foldlM_cons fun _ =>
      .foldlM_singleton (.of_eq_ok hlocation)
  have hserver : Accepts (contextHandler build .http (httpCommands build) conf
      (httpServerBlock "_".toList (listenDirectives appKey.toList (valueWord value)))) _ _ :=
    hbody.map
  exact hserver.congr (by simp only [true_and, and_true])

/-- The server of an application with `ssl`. -/
theorem refused_httpServer (conf result : HttpConf) (port cert key : Word) :
    contextHandler build .http (httpCommands build) conf
      (httpServerBlock "_".toList (sslDirectives port cert key)) ≠ .ok result := by
  have hname : contextHandler build .server (serverCommands build) (conf, {})
      (.simple ["server_name".toList, "_".toList]) = .ok (conf, { names := ["_".toList] }) :=
    httpServerName_default conf
  have hlisten : Accepts (contextHandler build .server (serverCommands build)
      (conf, { names := ["_".toList] })
      (.simple ["listen".toList, port, "ssl".toList, "ssl".toList, "on".toList])) False
      (conf, { names := ["_".toList] }) :=
    .of_refused (fun result => refused_listenSsl _ result port) id
  have hbody : Accepts (contextParse build .server (serverCommands build) (conf, {})
      (.simple ["server_name".toList, "_".toList] :: sslDirectives port cert key)) _
      (conf, { names := ["_".toList] }) :=
    (Accepts.of_eq_ok hname).foldlM_cons fun _ =>
      hlisten.foldlM_cons (False.elim : False → Accepts _ True _)
  have hserver : Accepts (contextHandler build .http (httpCommands build) conf
      (httpServerBlock "_".toList (sslDirectives port cert key))) _ _ := hbody.map
  exact hserver.ne_ok (fun h => h.2.1) result

/-! ## The applications -/

theorem accepts_httpUpstream (conf : HttpConf) {front : List UpstreamConf} {u : Url}
    {app : String × Entry N} (hplain : app.2.Plain) (hfresh : Fresh front app.1.toList)
    (hhost : u.host = app.1.toList) (hno : u.noPort = true)
    (hupstreams : conf.upstreams = front ++ [newUpstream u false]) :
    Accepts (contextHandler build .http (httpCommands build) conf
        (.block ["upstream".toList, app.1.toList]
          (upstreamDirectives .http (app.2.method .http) app.2.instances.items)))
      ((app.2.method .http ∈ methodNames .http ∧
        ∀ item ∈ app.2.instances.items, item.Usable) ∧ app.2.instances.items ≠ [])
      { conf with upstreams := front ++ [appUpstream .http app] } := by
  have hblock := @accepts_upstreamBlock N _ build .http _ _ u hfresh hhost hno
    (fun hmode => by cases hmode) (app.2.method .http) _ hplain.ports
  rw [← hupstreams] at hblock
  exact hblock.map

theorem refused_httpUpstream {conf : HttpConf} {appKey : String}
    (hall : ∀ uscf ∈ conf.upstreams, Complete uscf)
    (hknown : ¬Fresh conf.upstreams appKey.toList) (body : List Directive) (result : HttpConf) :
    contextHandler build .http (httpCommands build) conf
      (.block ["upstream".toList, appKey.toList] body) ≠ .ok result := by
  have hblock : Accepts (upstreamBlock build .http conf.upstreams
      ["upstream".toList, appKey.toList] body) False [] :=
    .of_refused (refused_upstreamBlock hall hknown body) id
  have hhandler : Accepts (contextHandler build .http (httpCommands build) conf
      (.block ["upstream".toList, appKey.toList] body)) False _ := hblock.map
  exact hhandler.ne_ok id result

theorem httpState_append (status : List HttpServer) (front : List (String × Entry N))
    (app : String × Entry N) :
    httpState status (front ++ [app]) =
      { upstreams := front.map (appUpstream .http) ++ [appUpstream .http app]
        servers := (status ++ front.mapIdx httpServerOf) ++ [httpServerOf front.length app] } := by
  simp [httpState, List.mapIdx_append]

theorem appDirectives_http {app : String × Entry N} (hplain : app.2.Plain) :
    appDirectives .http app =
      [httpServerBlock "_".toList (httpListenDirectives app.1 app.2),
        .block ["upstream".toList, app.1.toList]
          (upstreamDirectives .http (app.2.method .http) app.2.instances.items)] := by
  have hname : serverNameValue app.2 = .str "_" := by
    rw [serverNameValue, hplain.serverName]
    rfl
  unfold appDirectives
  rw [hname]
  rfl

theorem accepts_httpApp (hbuild : build.Usual) (status : List HttpServer)
    (front : List (String × Entry N)) {app : String × Entry N} (hkey : Name app.1)
    (hplain : app.2.Plain) :
    Accepts ((appDirectives .http app).foldlM
        (contextHandler build .http (httpCommands build)) (httpState status front))
      ((app.2.ssl = none ∧ PortRange (appPort app) ∧ (app.2.method .http ∈ methodNames .http ∧
          ∀ item ∈ app.2.instances.items, item.Usable) ∧ app.2.instances.items ≠ []) ∧
        ∀ earlier ∈ front, ¬SameName earlier app)
      (httpState status (front ++ [app])) := by
  have hnames := @fresh_apps_iff N _ .http front app
  rw [httpState_append, appDirectives_http hplain]
  cases hssl : app.2.ssl with
  | some ssl =>
      have hserver : Accepts (contextHandler build .http (httpCommands build)
          (httpState status front) (httpServerBlock "_".toList (httpListenDirectives app.1 app.2)))
          False {} := by
        refine .of_refused (fun result => ?_) id
        rw [httpListenDirectives, hssl]
        exact refused_httpServer _ result _ _ _
      refine (hserver.foldlM_cons (False.elim : False → Accepts _ True _)).congr ?_
      simp
  | none =>
      rw [httpListenDirectives, hssl]
      by_cases hfresh : Fresh (front.map (appUpstream .http)) app.1.toList
      · obtain ⟨u, hhost, hno, hport, htarget⟩ := @upstreamTarget_fresh build .http
          { defaultPort := 80, uriPart := true, noResolve := true } _ _ hkey rfl rfl hfresh
        have hserver := accepts_httpServer hbuild (httpState status front) hplain.port hkey htarget
        refine (hserver.foldlM_cons fun _ => .foldlM_singleton
          (accepts_httpUpstream _ hplain hfresh hhost hno rfl)).cast ?_ ?_
        · have := hnames.mp hfresh
          simp only [appPort]
          tauto
        · simp [httpState, httpServerOf, appPort]
      · obtain ⟨target, htarget⟩ := @upstreamTarget_known build .http
          { defaultPort := 80, uriPart := true, noResolve := true } _ _
          hkey rfl rfl (fun hmode => by cases hmode) (complete_apps .http front) hfresh
        have hserver := accepts_httpServer hbuild (httpState status front) hplain.port hkey htarget
        refine (hserver.foldlM_cons fun _ => .foldlM_singleton
          (.of_refused (refused_httpUpstream (complete_apps .http front) hfresh _) id)).congr ?_
        have := mt hnames.mpr hfresh
        tauto

/-! ## The status server -/

def statusServers (statusPort : Value N) : List HttpServer :=
  match statusPort with
  | .undefined => []
  | statusPort => [statusServerOf (numberOf statusPort)]

/-- The location of the status page, which passes nothing on. -/
theorem httpLocation_status (hbuild : build.Usual) {conf : HttpConf} {server : HttpServer}
    (hfirst : server.locations = []) :
    httpLocation build (conf, server) ["location".toList, "/status".toList]
        [directive ["stub_status"], directive ["access_log", "off"], directive ["deny", "all"],
          directive ["allow", "127.0.0.1"]] =
      .ok (conf, { server with
        locations := [{ kind := .inclusive, name := "/status".toList }] }) := by
  have hnames : (locationCommands build).map Command.name = ["proxy_pass".toList] := rfl
  have hbody : contextParse build .location (locationCommands build)
      (conf.upstreams, { kind := .inclusive, name := "/status".toList })
        [directive ["stub_status"], directive ["access_log", "off"], directive ["deny", "all"],
          directive ["allow", "127.0.0.1"]] = .ok _ :=
    contextParse_others (by rw [hnames]; decide) hbuild.status
  have hname : locationName build ["location".toList, "/status".toList] =
      .ok { kind := .inclusive, name := "/status".toList } := rfl
  unfold httpLocation
  rw [hname, hfirst]
  dsimp only [bind, Except.bind]
  rw [hbody]
  rfl

theorem accepts_statusServer (hbuild : build.Usual) {statusPort : Value N}
    (hstatus : statusPort.Natural) :
    Accepts (contextHandler build .http (httpCommands build) {}
        (statusDirective (valueWord statusPort)))
      (PortRange (numberOf statusPort)) { servers := [statusServerOf (numberOf statusPort)] } := by
  have hlisten : Accepts (contextHandler build .server (serverCommands build)
      ({}, {}) (.simple ["listen".toList, valueWord statusPort])) _ _ :=
    accepts_httpListen {} rfl hstatus
  have hlocation : contextHandler build .server (serverCommands build)
      ({}, { listen := [⟨0, numberOf statusPort⟩] })
      (.block ["location".toList, "/status".toList] _) = .ok _ := httpLocation_status hbuild rfl
  have hbody : Accepts (contextParse build .server (serverCommands build) ({}, {})
      [.simple ["listen".toList, valueWord statusPort],
        .block ["location".toList, "/status".toList] _]) _ _ :=
    hlisten.foldlM_cons fun _ => .foldlM_singleton (.of_eq_ok hlocation)
  have hserver : Accepts (contextHandler build .http (httpCommands build) {}
      (statusDirective (valueWord statusPort))) _ _ := hbody.map
  exact hserver.congr (iff_of_eq (and_true _))

theorem accepts_statusDirectives (hbuild : build.Usual) {statusPort : Value N}
    (hstatus : statusPort = .undefined ∨ statusPort.Natural) :
    Accepts (contextParse build .http (httpCommands build) {} (statusDirectives statusPort))
      (statusPort = .undefined ∨ PortRange (numberOf statusPort))
      { servers := statusServers statusPort } := by
  rcases hstatus with rfl | hnatural
  · exact (Accepts.of_eq_ok rfl).congr (by simp)
  · obtain ⟨n, rfl, -⟩ := id hnatural
    refine Accepts.foldlM_singleton ((accepts_statusServer hbuild hnatural).congr ?_)
    simp

/-! ## The block -/

/-- The applications of a block together. -/
def HttpUsable (apps : List (String × Entry N)) : Prop :=
  (∀ app ∈ apps, AppUsable .http app) ∧
    apps.Pairwise fun first second => ¬SameName first second

instance (apps : List (String × Entry N)) : Decidable (HttpUsable apps) :=
  inferInstanceAs (Decidable (_ ∧ _))

theorem accepts_loadHttp (hbuild : build.Usual) {statusPort : Value N}
    (hstatus : statusPort = .undefined ∨ statusPort.Natural) {apps : List (String × Entry N)}
    (happs : ∀ app ∈ apps, Name app.1 ∧ app.2.Plain) :
    Accepts (loadHttp build (statusDirectives statusPort ++ apps.flatMap (appDirectives .http)))
      ((statusPort = .undefined ∨ PortRange (numberOf statusPort)) ∧ HttpUsable apps)
      (httpState (statusServers statusPort) apps, apps.map (appReady .http)) := by
  have happsParse : Accepts ((apps.flatMap (appDirectives .http)).foldlM
      (contextHandler build .http (httpCommands build))
        (httpState (statusServers statusPort) [])) _ _ :=
    Accepts.foldlM_flatMap apps fun front app happ =>
      accepts_httpApp hbuild (statusServers statusPort) front (happs app happ).1 (happs app happ).2
  have hstate : httpState (statusServers statusPort) ([] : List (String × Entry N)) =
      { servers := statusServers statusPort } := by
    simp [httpState]
  rw [hstate] at happsParse
  have hparse : Accepts (contextParse build .http (httpCommands build) {}
      (statusDirectives statusPort ++ apps.flatMap (appDirectives .http))) _ _ :=
    (accepts_statusDirectives hbuild hstatus).foldlM_append fun _ => happsParse
  refine (hparse.bind fun _ => (accepts_initUpstreams .http apps).map).congr ?_
  simp only [HttpUsable, appUsable_iff, true_implies, forall_and]
  tauto

end NginxInterface.Cycle
