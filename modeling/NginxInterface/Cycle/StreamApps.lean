import NginxInterface.Cycle.Apps

/-! # The applications of the stream block

The `stream` block that is rendered for a table is taken exactly if its applications can be used
and do not get in each other's way, and its servers and upstreams are then known.
-/

namespace NginxInterface.Cycle

open Js ConfFile Upstream Foundation

variable {N : Type} [Number N] {build : Build}

/-! ## What the block comes to -/

def appUpstream (mode : Mode) (app : String × Entry N) : UpstreamConf :=
  upstreamOf mode app.1.toList (app.2.method mode) app.2.instances.items

def appReady (mode : Mode) (app : String × Entry N) : ReadyUpstream :=
  readyUpstream mode app.1.toList (app.2.method mode) app.2.instances.items

/-- The port of an application at all addresses. -/
def appSockaddr (app : String × Entry N) : Sockaddr := ⟨0, appPort app⟩

/-- The server of an application, with the index of its upstream. -/
def streamServerOf (index : Nat) (app : String × Entry N) : StreamServer where
  listen := [appSockaddr app]
  target := some (.upstream index)

def streamState (apps : List (String × Entry N)) : StreamConf where
  upstreams := apps.map (appUpstream .stream)
  listen := apps.map appSockaddr
  servers := apps.mapIdx streamServerOf

theorem fresh_apps_iff {mode : Mode} {front : List (String × Entry N)} {app : String × Entry N} :
    Fresh (front.map (appUpstream mode)) app.1.toList ↔
      ∀ earlier ∈ front, ¬SameName earlier app := by
  simp only [Fresh, List.forall_mem_map, SameName, Bool.not_eq_true]
  rfl

theorem complete_apps (mode : Mode) (apps : List (String × Entry N)) :
    ∀ uscf ∈ apps.map (appUpstream mode), Complete uscf := by
  intro uscf huscf
  obtain ⟨app, -, rfl⟩ := List.mem_map.mp huscf
  exact ⟨rfl, rfl⟩

/-! ## The server -/

theorem accepts_streamListen (state : StreamConf × StreamServer) {value : Value N}
    (hvalue : value.Natural) :
    Accepts (streamListen build state ["listen".toList, valueWord value])
      (PortRange (numberOf value) ∧ ⟨0, numberOf value⟩ ∉ state.1.listen)
      ({ state.1 with listen := state.1.listen ++ [⟨0, numberOf value⟩] },
        { state.2 with listen := state.2.listen ++ [⟨0, numberOf value⟩] }) := by
  have hurl : Accepts (parseInetUrl build.resolve { listen := true }
      (["listen".toList, valueWord value].getD 1 [])) _ _ :=
    accepts_listenUrl build.resolve rfl hvalue
  unfold streamListen
  by_cases hrange : PortRange (numberOf value)
  · rw [hurl.eq_ok hrange]
    refine (Accepts.ite_not (fun _ => .of_eq_ok rfl) _).congr ?_
    rw [and_true, and_iff_right hrange]
  · obtain ⟨err, herr⟩ := hurl.eq_error hrange
    rw [herr]
    exact .error _ fun hand => hrange hand.1

theorem streamProxyPass_appKey {state : StreamConf × StreamServer} {appKey : String}
    (hkey : Name appKey) {upstreams : List UpstreamConf} {target : Target}
    (hfirst : state.2.target = none)
    (htarget : upstreamTarget build .stream { noResolve := true } appKey.toList state.1.upstreams =
      .ok (upstreams, target)) :
    streamProxyPass build state ["proxy_pass".toList, appKey.toList] =
      .ok ({ state.1 with upstreams }, { state.2 with target := some target }) := by
  have hurl : ["proxy_pass".toList, appKey.toList].getD 1 [] = appKey.toList := rfl
  unfold streamProxyPass
  rw [hurl, hfirst]
  dsimp only
  rw [hasVariables_name hkey, htarget]
  rfl

theorem accepts_streamServer (conf : StreamConf) {value : Value N} (hvalue : value.Natural)
    {appKey : String} (hkey : Name appKey) {upstreams : List UpstreamConf} {target : Target}
    (htarget : upstreamTarget build .stream { noResolve := true } appKey.toList conf.upstreams =
      .ok (upstreams, target)) :
    Accepts (contextHandler build .stream (streamCommands build) conf (.block ["server".toList]
        [.simple ["listen".toList, valueWord value],
          .simple ["proxy_pass".toList, appKey.toList]]))
      (PortRange (numberOf value) ∧ ⟨0, numberOf value⟩ ∉ conf.listen)
      { upstreams
        listen := conf.listen ++ [⟨0, numberOf value⟩]
        servers := conf.servers ++
          [{ listen := [⟨0, numberOf value⟩], target := some target }] } := by
  have hlisten : Accepts (contextHandler build .streamServer (streamServerCommands build) (conf, {})
      (.simple ["listen".toList, valueWord value])) _ _ := accepts_streamListen (conf, {}) hvalue
  have hpass := @streamProxyPass_appKey build
    ({ conf with listen := conf.listen ++ [⟨0, numberOf value⟩] },
      { listen := [⟨0, numberOf value⟩] }) _ hkey _ _ rfl htarget
  have hbody : Accepts (contextParse build .streamServer (streamServerCommands build) (conf, {})
      [.simple ["listen".toList, valueWord value], .simple ["proxy_pass".toList, appKey.toList]])
      _ _ := hlisten.foldlM_cons fun _ => .foldlM_singleton (.of_eq_ok hpass)
  refine (Accepts.bind hbody fun _ => .of_eq_ok ?_).congr ?_
  · exact if_neg (List.cons_ne_nil _ _)
  · simp only [and_true]

/-! ## The applications -/

/-- The upstream block of an application that the server before it passes on to. -/
theorem accepts_streamUpstream (conf : StreamConf) {front : List UpstreamConf} {u : Url}
    {app : String × Entry N} (hplain : app.2.Plain) (hfresh : Fresh front app.1.toList)
    (hhost : u.host = app.1.toList) (hno : u.noPort = true) (hport : u.port = 0)
    (hupstreams : conf.upstreams = front ++ [newUpstream u false]) :
    Accepts (contextHandler build .stream (streamCommands build) conf
        (.block ["upstream".toList, app.1.toList]
          (upstreamDirectives .stream (app.2.method .stream) app.2.instances.items)))
      ((app.2.method .stream ∈ methodNames .stream ∧
        ∀ item ∈ app.2.instances.items, item.Usable) ∧ app.2.instances.items ≠ [])
      { conf with upstreams := front ++ [appUpstream .stream app] } := by
  have hblock := @accepts_upstreamBlock N _ build .stream _ _ u hfresh hhost hno
    (fun _ => hport) (app.2.method .stream) _ hplain.ports
  rw [← hupstreams] at hblock
  exact hblock.map

theorem refused_streamUpstream {conf : StreamConf} {appKey : String}
    (hall : ∀ uscf ∈ conf.upstreams, Complete uscf)
    (hknown : ¬Fresh conf.upstreams appKey.toList) (body : List Directive) (result : StreamConf) :
    contextHandler build .stream (streamCommands build) conf
      (.block ["upstream".toList, appKey.toList] body) ≠ .ok result := by
  have hblock : Accepts (upstreamBlock build .stream conf.upstreams
      ["upstream".toList, appKey.toList] body) False [] :=
    .of_refused (refused_upstreamBlock hall hknown body) id
  have hhandler : Accepts (contextHandler build .stream (streamCommands build) conf
      (.block ["upstream".toList, appKey.toList] body)) False _ := hblock.map
  exact hhandler.ne_ok id result

/-- The state after the applications before and one more. -/
theorem streamState_append (front : List (String × Entry N)) (app : String × Entry N) :
    streamState (front ++ [app]) =
      { upstreams := front.map (appUpstream .stream) ++ [appUpstream .stream app]
        listen := front.map appSockaddr ++ [appSockaddr app]
        servers := front.mapIdx streamServerOf ++ [streamServerOf front.length app] } := by
  simp [streamState, List.mapIdx_append]

theorem accepts_streamApp (front : List (String × Entry N)) {app : String × Entry N}
    (hkey : Name app.1) (hplain : app.2.Plain) :
    Accepts ((appDirectives .stream app).foldlM
        (contextHandler build .stream (streamCommands build)) (streamState front))
      ((PortRange (appPort app) ∧ (app.2.method .stream ∈ methodNames .stream ∧
          ∀ item ∈ app.2.instances.items, item.Usable) ∧ app.2.instances.items ≠ []) ∧
        ∀ earlier ∈ front, appPort earlier ≠ appPort app ∧ ¬SameName earlier app)
      (streamState (front ++ [app])) := by
  have hlisten : ⟨0, numberOf app.2.port⟩ ∉ (streamState front).listen ↔
      ∀ earlier ∈ front, appPort earlier ≠ appPort app := by
    simp [streamState, appSockaddr, appPort]
  have hnames := @fresh_apps_iff N _ .stream front app
  have happ : appDirectives .stream app =
      [.block ["server".toList] [.simple ["listen".toList, valueWord app.2.port],
          .simple ["proxy_pass".toList, app.1.toList]],
        .block ["upstream".toList, app.1.toList]
          (upstreamDirectives .stream (app.2.method .stream) app.2.instances.items)] := rfl
  rw [streamState_append, happ]
  by_cases hfresh : Fresh (front.map (appUpstream .stream)) app.1.toList
  · obtain ⟨u, hhost, hno, hport, htarget⟩ :=
      @upstreamTarget_fresh build .stream { noResolve := true } _ _ hkey rfl rfl hfresh
    have hserver := accepts_streamServer (streamState front) hplain.port hkey htarget
    refine (hserver.foldlM_cons fun _ => .foldlM_singleton
      (accepts_streamUpstream _ hplain hfresh hhost hno hport rfl)).cast ?_ ?_
    · have := hnames.mp hfresh
      simp only [hlisten, forall_and]
      tauto
    · simp [streamState, streamServerOf, appSockaddr, appPort]
  · obtain ⟨target, htarget⟩ := @upstreamTarget_known build .stream { noResolve := true } _ _
      hkey rfl rfl (fun _ => rfl) (complete_apps .stream front) hfresh
    have hserver := accepts_streamServer (streamState front) hplain.port hkey htarget
    refine (hserver.foldlM_cons fun _ => .foldlM_singleton
      (.of_refused (refused_streamUpstream (complete_apps .stream front) hfresh _) id)).congr ?_
    have := mt hnames.mpr hfresh
    simp only [and_false, false_iff, forall_and]
    tauto

/-- The applications of a block together. -/
def StreamUsable (apps : List (String × Entry N)) : Prop :=
  (∀ app ∈ apps, AppUsable .stream app) ∧
    apps.Pairwise fun first second => appPort first ≠ appPort second ∧ ¬SameName first second

instance (apps : List (String × Entry N)) : Decidable (StreamUsable apps) :=
  inferInstanceAs (Decidable (_ ∧ _))

theorem accepts_initUpstreams (mode : Mode) (apps : List (String × Entry N)) :
    Accepts ((apps.map (appUpstream mode)).mapM (initUpstream build))
      (∀ app ∈ apps, ∃ item ∈ app.2.instances.items, item.isBackup mode = false)
      (apps.map (appReady mode)) := by
  rw [List.mapM_map]
  exact .mapM fun app _ => accepts_initUpstream build mode _ _ _

theorem accepts_loadStream {apps : List (String × Entry N)}
    (happs : ∀ app ∈ apps, Name app.1 ∧ app.2.Plain) :
    Accepts (loadStream build (apps.flatMap (appDirectives .stream))) (StreamUsable apps)
      (streamState apps, apps.map (appReady .stream)) := by
  have hparse : Accepts (contextParse build .stream (streamCommands build) {}
      (apps.flatMap (appDirectives .stream))) _ (streamState apps) :=
    Accepts.foldlM_flatMap apps fun front app happ =>
      accepts_streamApp front (happs app happ).1 (happs app happ).2
  -- every server has a target
  have hhandler : ((streamState apps).servers.any fun server =>
      server.target.isNone && server.answer.isNone) = false := by
    rw [List.any_eq_false]
    intro server hserver
    obtain ⟨index, hindex, rfl⟩ := List.mem_mapIdx.mp hserver
    exact Bool.false_ne_true
  refine (hparse.bind fun _ => Accepts.ite_not
    (fun _ => (accepts_initUpstreams .stream apps).map) _).congr ?_
  simp only [hhandler, StreamUsable, appUsable_iff, reduceCtorEq, false_implies, true_and,
    Bool.false_eq_true, not_false_eq_true, forall_and]
  tauto

end NginxInterface.Cycle
