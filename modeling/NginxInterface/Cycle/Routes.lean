import NginxInterface.Cycle.Rendered

/-! # Routes

Where nginx sends a connection or a request once it has loaded a rendered file. Servers of the
`http` block can share a port and all have the same name, so that the first of them gets every
request.
-/

namespace NginxInterface

open Js Ejs ConfFile Upstream NginxInterface.Cycle Foundation

variable {N : Type} [Number N]

/-- The first match in a list whose items were given their index. -/
theorem find?_mapIdx {α β : Type} {f : Nat → α → β} {p : α → Bool} {q : β → Bool}
    (h : ∀ i a, q (f i a) = p a) (items : List α) :
    ((items.mapIdx f).find? q = none ∧ items.find? p = none) ∨
      ∃ i a, items[i]? = some a ∧ items.find? p = some a ∧
        (items.mapIdx f).find? q = some (f i a) := by
  induction items generalizing f with
  | nil => exact Or.inl ⟨rfl, rfl⟩
  | cons item rest ih =>
      rw [List.mapIdx_cons]
      cases hp : p item with
      | true =>
          refine Or.inr ⟨0, item, rfl, List.find?_cons_of_pos hp, List.find?_cons_of_pos ?_⟩
          rw [h, hp]
      | false =>
          have hq : q (f 0 item) = false := by rw [h, hp]
          rw [List.find?_cons_of_neg (ne_true_of_eq_false hq),
            List.find?_cons_of_neg (ne_true_of_eq_false hp)]
          rcases ih (fun i a => h (i + 1) a) with hnone | ⟨i, a, hi, hfind, hmap⟩
          · exact Or.inl hnone
          · exact Or.inr ⟨i + 1, a, hi, hfind, hmap⟩

/-- A connection is taken at all addresses of its port. -/
theorem addressOf_anyAddr (ports : List Nat) (sockaddr : Sockaddr) :
    addressOf (ports.map anyAddr) sockaddr = anyAddr sockaddr.port := by
  unfold addressOf
  split
  next hmem =>
    obtain ⟨port, -, rfl⟩ := List.mem_map.mp hmem
    rfl
  next => rfl

/-- The application that gets what comes to a port. -/
def Conf.appAt (conf : Conf N) (mode : Mode) (port : Nat) : Option (String × Entry N) :=
  (tableApps (conf.table mode)).find? fun app => appPort app = port

/-! ## Connections -/

theorem find_streamServer (apps : List (String × Entry N)) (port : Nat) :
    ((apps.mapIdx streamServerOf).find? (fun server => decide (anyAddr port ∈ server.listen)) =
        none ∧ apps.find? (fun app => decide (appPort app = port)) = none) ∨
      ∃ i app, apps[i]? = some app ∧
        apps.find? (fun app => decide (appPort app = port)) = some app ∧
        (apps.mapIdx streamServerOf).find?
          (fun server => decide (anyAddr port ∈ server.listen)) = some (streamServerOf i app) := by
  refine find?_mapIdx (fun index app => ?_) apps
  simp [streamServerOf, appSockaddr, anyAddr, eq_comm]

theorem Conf.loaded_streamRoute (conf : Conf N) (sockaddr : Sockaddr) :
    conf.loaded.streamRoute sockaddr =
      (conf.appAt .stream sockaddr.port).map (appReady .stream) := by
  unfold Loaded.streamRoute Conf.loaded Conf.appAt
  by_cases hempty : tableApps conf.stream = []
  · have htable : tableApps (conf.table .stream) = [] := hempty
    rw [htable, if_pos hempty]
    rfl
  · rw [if_neg hempty]
    have hlisten : (streamState (tableApps conf.stream)).listen =
        ((tableApps conf.stream).map appPort).map anyAddr := by
      rw [List.map_map]
      rfl
    have hserver : (streamState (tableApps conf.stream)).serverAt sockaddr =
        ((tableApps conf.stream).mapIdx streamServerOf).find? fun server =>
          decide (anyAddr sockaddr.port ∈ server.listen) := by
      rw [StreamConf.serverAt, hlisten, addressOf_anyAddr]
      rfl
    dsimp only [bind, Option.bind]
    rw [hserver]
    rcases find_streamServer (tableApps conf.stream) sockaddr.port with
      ⟨hnone, hfind⟩ | ⟨index, app, happ, hfind, hsome⟩
    · rw [hnone, Conf.table, hfind]
      rfl
    · rw [hsome, Conf.table, hfind]
      simp [streamServerOf, Target.upstream?, happ]

/-! ## Requests -/

theorem find_httpServer (apps : List (String × Entry N)) (port : Nat) :
    ((apps.mapIdx httpServerOf).find? (fun server => decide (anyAddr port ∈ server.listen)) =
        none ∧ apps.find? (fun app => decide (appPort app = port)) = none) ∨
      ∃ i app, apps[i]? = some app ∧
        apps.find? (fun app => decide (appPort app = port)) = some app ∧
        (apps.mapIdx httpServerOf).find?
          (fun server => decide (anyAddr port ∈ server.listen)) = some (httpServerOf i app) := by
  refine find?_mapIdx (fun index app => ?_) apps
  simp [httpServerOf, rootServer, anyAddr, eq_comm]

/-- The servers of a rendered file, the status server first. -/
def Conf.httpServers (conf : Conf N) : List HttpServer :=
  statusServers conf.statusPort ++ (tableApps conf.http).mapIdx httpServerOf

theorem Conf.httpServers_preferred {conf : Conf N} {server : HttpServer}
    (h : server ∈ conf.httpServers) : server.preferred = [] := by
  rcases List.mem_append.mp h with hstatus | happ
  · unfold statusServers at hstatus
    split at hstatus
    · cases hstatus
    · rw [List.mem_singleton.mp hstatus]
      rfl
  · obtain ⟨index, hindex, rfl⟩ := List.mem_mapIdx.mp happ
    rfl

theorem Conf.statusPorts_cases (conf : Conf N) :
    conf.statusPorts = [] ∨ ∃ port, conf.statusPorts = [port] := by
  unfold Conf.statusPorts
  split
  · exact Or.inl rfl
  · exact Or.inr ⟨_, rfl⟩

theorem filter_statusServers (conf : Conf N) (port : Nat) :
    (statusServers conf.statusPort).filter
        (fun server => decide (anyAddr port ∈ server.listen)) =
      if port ∈ conf.statusPorts then [statusServerOf port] else [] := by
  have hports : statusServers conf.statusPort = conf.statusPorts.map statusServerOf := by
    unfold statusServers Conf.statusPorts
    cases conf.statusPort <;> rfl
  rw [hports]
  rcases conf.statusPorts_cases with hnone | ⟨first, hfirst⟩
  · rw [hnone]
    rfl
  · have hlisten : (statusServerOf first).listen = [anyAddr first] := rfl
    rw [hfirst, List.map_singleton, List.filter_singleton, hlisten]
    by_cases hport : port = first
    · simp [hport]
    · simp [anyAddr, hport]

/-- The servers of a port. -/
def Conf.serversOn (conf : Conf N) (port : Nat) : List HttpServer :=
  conf.httpServers.filter fun server => decide (anyAddr port ∈ server.listen)

/-- The first server of a port is its default server. -/
theorem Conf.findServer_eq (conf : Conf N) (sockaddr : Sockaddr) (host : Word) :
    (httpState (statusServers conf.statusPort) (tableApps conf.http)).findServer sockaddr host =
      (((conf.serversOn sockaddr.port).find? fun server =>
        server.names.contains (host.map Char.toLower)) <|>
          (conf.serversOn sockaddr.port).head?) := by
  have hlisten : (httpState (statusServers conf.statusPort) (tableApps conf.http)).listen =
      conf.httpPorts.map anyAddr := conf.httpState_listen
  have hservers : (httpState (statusServers conf.statusPort) (tableApps conf.http)).serversAt
      sockaddr = conf.serversOn sockaddr.port := by
    rw [HttpConf.serversAt, hlisten, addressOf_anyAddr]
    rfl
  unfold HttpConf.findServer HttpConf.defaultServer
  rw [hservers]
  have hpreferred : ((conf.serversOn sockaddr.port).find? fun server =>
      decide (addressOf (httpState (statusServers conf.statusPort)
        (tableApps conf.http)).listen sockaddr ∈ server.preferred)) = none := by
    refine List.find?_eq_none.mpr fun server hserver => ?_
    rw [Conf.httpServers_preferred (List.mem_of_mem_filter hserver)]
    simp
  rw [hpreferred]
  rfl

/-- The servers of the applications on a port. -/
def Conf.appServersOn (conf : Conf N) (port : Nat) : List HttpServer :=
  ((tableApps conf.http).mapIdx httpServerOf).filter fun server =>
    decide (anyAddr port ∈ server.listen)

theorem Conf.serversOn_eq (conf : Conf N) (port : Nat) :
    conf.serversOn port =
      (if port ∈ conf.statusPorts then [statusServerOf port] else []) ++
        conf.appServersOn port := by
  rw [Conf.serversOn, Conf.httpServers, List.filter_append, filter_statusServers]
  rfl

/-- The servers of applications all have the name `_`. -/
theorem find?_named {servers : List HttpServer}
    (h : ∀ server ∈ servers, server.names = ["_".toList]) (name : Word) :
    (servers.find? fun server => server.names.contains name) =
      if name = "_".toList then servers.head? else none := by
  by_cases hname : name = "_".toList
  · rw [if_pos hname]
    cases servers with
    | nil => rfl
    | cons server rest =>
        refine List.find?_cons_of_pos ?_
        rw [h server List.mem_cons_self, hname]
        rfl
  · rw [if_neg hname]
    refine List.find?_eq_none.mpr fun server hserver => ?_
    rw [h server hserver, List.contains_iff_mem, List.mem_singleton]
    exact hname

theorem rootServer_findLocation (port : Nat) (target : Cycle.Target) (path : Word) :
    (rootServer port target).findLocation ('/' :: path) = some (rootLocation target) := rfl

/-- The status server has no location that passes anything on. -/
theorem statusServerOf_target (port : Nat) (uri : Word) :
    ((statusServerOf port).findLocation uri).bind Location.target = none := by
  unfold statusServerOf HttpServer.findLocation
  generalize "/status".toList = name
  cases hstart : name.isPrefixOf uri with
  | true => simp [hstart, longerOf]
  | false => simp [hstart]

/-- What a server does with a request. -/
def serverRoute (upstreams : List ReadyUpstream) (uri : Word) (server : HttpServer) :
    Option ReadyUpstream :=
  ((server.findLocation uri).bind Location.target).bind (Target.upstream? upstreams)

theorem Conf.appServersOn_names (conf : Conf N) (port : Nat) :
    ∀ server ∈ conf.appServersOn port, server.names = ["_".toList] := by
  intro server hserver
  obtain ⟨index, hindex, rfl⟩ := List.mem_mapIdx.mp (List.mem_of_mem_filter hserver)
  rfl

/-- The server that a request to a port is for. -/
theorem Conf.findServer_cases (conf : Conf N) (sockaddr : Sockaddr) (host : Word) :
    (httpState (statusServers conf.statusPort) (tableApps conf.http)).findServer sockaddr host =
      if sockaddr.port ∈ conf.statusPorts then
        if host.map Char.toLower = "_".toList then
          (conf.appServersOn sockaddr.port).head? <|> some (statusServerOf sockaddr.port)
        else some (statusServerOf sockaddr.port)
      else (conf.appServersOn sockaddr.port).head? := by
  rw [conf.findServer_eq, conf.serversOn_eq]
  have hnamed := find?_named (conf.appServersOn_names sockaddr.port) (host.map Char.toLower)
  by_cases hstatus : sockaddr.port ∈ conf.statusPorts
  · have hempty : (statusServerOf sockaddr.port).names = [[]] := rfl
    rw [if_pos hstatus, if_pos hstatus, List.find?_append, List.find?_singleton, hempty, hnamed]
    by_cases hname : host.map Char.toLower = "_".toList
    · rw [if_pos hname, if_pos hname, hname]
      rfl
    · rw [if_neg hname, if_neg hname]
      split <;> rfl
  · rw [if_neg hstatus, if_neg hstatus, List.nil_append, hnamed]
    cases (conf.appServersOn sockaddr.port).head? <;> split <;> rfl

/-- The first application of a port gets its requests. On the port of the status server, which
comes before the applications, it only gets those that ask for the name of the applications. -/
theorem Conf.loaded_httpRoute (conf : Conf N) (sockaddr : Sockaddr) (host path : Word) :
    conf.loaded.httpRoute sockaddr host ('/' :: path) =
      if sockaddr.port ∈ conf.statusPorts ∧ host.map Char.toLower ≠ "_".toList then none
      else (conf.appAt .http sockaddr.port).map (appReady .http) := by
  have hroute : conf.loaded.httpRoute sockaddr host ('/' :: path) =
      ((httpState (statusServers conf.statusPort) (tableApps conf.http)).findServer sockaddr
        host).bind (serverRoute ((tableApps conf.http).map (appReady .http)) ('/' :: path)) := by
    unfold Loaded.httpRoute Conf.loaded serverRoute
    simp only [Option.bind_eq_bind, Option.bind_some, Option.bind_assoc]
  have hstatusRoute : serverRoute ((tableApps conf.http).map (appReady .http)) ('/' :: path)
      (statusServerOf sockaddr.port) = none :=
    congrArg (fun target => Option.bind target _) (statusServerOf_target _ _)
  have happs : (conf.appServersOn sockaddr.port).head?.bind
      (serverRoute ((tableApps conf.http).map (appReady .http)) ('/' :: path)) =
        (conf.appAt .http sockaddr.port).map (appReady .http) := by
    rw [Conf.appServersOn, List.head?_filter, Conf.appAt, Conf.table]
    rcases find_httpServer (tableApps conf.http) sockaddr.port with
      ⟨hmissing, hfind⟩ | ⟨index, app, happ, hfind, hsome⟩
    · rw [hmissing, hfind]
      rfl
    · rw [hsome, hfind]
      have hlocation : (httpServerOf index app).findLocation ('/' :: path) =
          some (rootLocation (.upstream index)) := rootServer_findLocation _ _ path
      simp [serverRoute, hlocation, rootLocation, Target.upstream?, happ]
  rw [hroute, conf.findServer_cases, ← happs]
  by_cases hstatus : sockaddr.port ∈ conf.statusPorts
  · by_cases hname : host.map Char.toLower = "_".toList
    · rw [if_pos hstatus, if_pos hname, if_neg fun h => h.2 hname]
      cases (conf.appServersOn sockaddr.port).head? with
      | none => exact hstatusRoute
      | some server => rfl
    · rw [if_pos hstatus, if_neg hname, if_pos ⟨hstatus, hname⟩]
      exact hstatusRoute
  · rw [if_neg hstatus, if_neg fun h => hstatus h.1]

/-! ## Applications on their ports -/

theorem Conf.appAt_port {conf : Conf N} {mode : Mode} {appName : String} {entry : Entry N}
    (hentry : conf.appEntry mode appName = some entry)
    (halone : ∀ other r, conf.appEntry mode other = some r →
      numberOf r.port = numberOf entry.port → other = appName) :
    conf.appAt mode (numberOf entry.port) = some (appName, entry) := by
  cases hfind : conf.appAt mode (numberOf entry.port) with
  | none =>
      have hnone := List.find?_eq_none.mp hfind (appName, entry) (mem_tableApps.mpr hentry)
      exact absurd (decide_eq_true rfl) hnone
  | some found =>
      obtain ⟨other, r⟩ := found
      have hother : conf.appEntry mode other = some r :=
        mem_tableApps.mp (List.mem_of_find?_eq_some hfind)
      have hport := List.find?_some hfind
      rw [decide_eq_true_eq] at hport
      obtain rfl := halone other r hother hport
      rw [Option.some.inj (hother.symm.trans hentry)]

theorem Conf.Valid.streamRoute {conf : Conf N} (h : conf.Valid) {appName : String}
    {entry : Entry N} (hentry : conf.appEntry .stream appName = some entry) (addr : InAddr) :
    conf.loaded.streamRoute ⟨addr, numberOf entry.port⟩ =
      some (appReady .stream (appName, entry)) := by
  rw [conf.loaded_streamRoute, Conf.appAt_port hentry fun other r hother =>
    h.streamPorts other appName r entry hother hentry]
  rfl

theorem appReady_name {mode : Mode} {first second : String × Entry N}
    (h : appReady mode first = appReady mode second) : first.1 = second.1 :=
  String.toList_inj.mp (congrArg ReadyUpstream.host h)

/-- No two http applications have one port, and none has that of the status server. -/
structure Conf.HttpApart (conf : Conf N) : Prop where
  ports : ∀ first second r s, conf.appEntry .http first = some r →
    conf.appEntry .http second = some s → numberOf r.port = numberOf s.port → first = second
  status : ∀ appName entry, conf.appEntry .http appName = some entry →
    numberOf entry.port ∉ conf.statusPorts

/-- An http application gets a request to its port exactly if it is the first one there and the
status server does not take the request. -/
theorem Conf.httpRoute_eq_app_iff {conf : Conf N} {appName : String} {entry : Entry N}
    (hentry : conf.appEntry .http appName = some entry) (addr : InAddr) (host path : Word) :
    conf.loaded.httpRoute ⟨addr, numberOf entry.port⟩ host ('/' :: path) =
        some (appReady .http (appName, entry)) ↔
      conf.appAt .http (numberOf entry.port) = some (appName, entry) ∧
        (numberOf entry.port ∈ conf.statusPorts → host.map Char.toLower = "_".toList) := by
  rw [conf.loaded_httpRoute]
  constructor
  · intro hroute
    split at hroute
    · cases hroute
    next hother =>
      obtain ⟨⟨name, r⟩, happ, hready⟩ := Option.map_eq_some_iff.mp hroute
      obtain rfl : name = appName := appReady_name hready
      have hr : conf.appEntry .http name = some r :=
        mem_tableApps.mp (List.mem_of_find?_eq_some happ)
      obtain rfl : r = entry := Option.some.inj (hr.symm.trans hentry)
      exact ⟨happ, fun hstatus => by_contra fun hname => hother ⟨hstatus, hname⟩⟩
  · rintro ⟨happ, hname⟩
    rw [if_neg fun h => h.2 (hname h.1), happ]
    rfl

/-- nginx refuses stream applications that share a port, but not http applications: there it
takes the file, and only the first of them gets requests. -/
theorem apps_reached [Number.Decimal N] {build : Build} (hbuild : build.Usual) (conf : Conf N)
    (hconf : conf.Plain) (hvalid : conf.Valid) :
    ∃ text loaded, render conf = .ok text ∧ loadFile build text = .ok loaded ∧
      (∀ appName entry, conf.appEntry .stream appName = some entry →
        ∀ addr, loaded.streamRoute ⟨addr, numberOf entry.port⟩ =
          some (appReady .stream (appName, entry))) ∧
      (∀ appName entry, conf.appEntry .http appName = some entry → ∀ addr host path,
        loaded.httpRoute ⟨addr, numberOf entry.port⟩ host ('/' :: path) =
            some (appReady .http (appName, entry)) ↔
          conf.appAt .http (numberOf entry.port) = some (appName, entry) ∧
            (numberOf entry.port ∈ conf.statusPorts → host.map Char.toLower = "_".toList)) := by
  obtain ⟨text, hrender, hload⟩ := accepts_loadFile hbuild hconf
  refine ⟨text, conf.loaded, hrender, hload.eq_ok hvalid, ?_, ?_⟩
  · intro appName entry hentry addr
    exact hvalid.streamRoute hentry addr
  · intro appName entry hentry addr host path
    exact Conf.httpRoute_eq_app_iff hentry addr host path

/-- A second application on the port of `app2`. -/
def sharedPort : Conf Int := twoApps.put .http "app3" webEntry

theorem tableApps_sharedPort_http :
    tableApps sharedPort.http = [("app2", webEntry), ("app3", webEntry)] := rfl

theorem tableApps_sharedPort_stream : tableApps sharedPort.stream = [("app1", weightedEntry)] := rfl

theorem sharedPort_plain : sharedPort.Plain := by
  refine Conf.plain_of_apps ⟨true, rfl⟩ (Or.inr ⟨8080, rfl, by decide⟩) ?_ ?_
  · rw [tableApps_sharedPort_stream]
    exact List.forall_mem_singleton.mpr ⟨by decide, weightedEntry_plain⟩
  · rw [tableApps_sharedPort_http]
    exact List.forall_mem_cons.mpr ⟨⟨by decide, webEntry_plain⟩,
      List.forall_mem_singleton.mpr ⟨by decide, webEntry_plain⟩⟩

theorem sharedPort_valid : sharedPort.Valid := by
  have hports : sharedPort.httpPorts = [8080, 80, 80] := by decide
  rw [Conf.valid_iff, tableApps_sharedPort_stream, tableApps_sharedPort_http, hports]
  exact ⟨⟨⟨by decide, Or.inr (by decide), by decide⟩, by decide⟩, by decide, by decide⟩

theorem apps_reached_sharedPort :
    ∃ text loaded, render sharedPort = .ok text ∧ loadFile openBuild text = .ok loaded ∧
      loaded.streamRoute ⟨0x7f000001, 7000⟩ = some (appReady .stream ("app1", weightedEntry)) ∧
      ∀ host path,
        loaded.httpRoute ⟨0x7f000001, 80⟩ host ('/' :: path) =
          some (appReady .http ("app2", webEntry)) ∧
        loaded.httpRoute ⟨0x7f000001, 80⟩ host ('/' :: path) ≠
          some (appReady .http ("app3", webEntry)) := by
  obtain ⟨text, loaded, hrender, hload, hstream, hhttp⟩ :=
    apps_reached openBuild_usual sharedPort sharedPort_plain sharedPort_valid
  refine ⟨text, loaded, hrender, hload, hstream "app1" weightedEntry rfl _, fun host path => ?_⟩
  have hfirst : sharedPort.appAt .http 80 = some ("app2", webEntry) := rfl
  have hstatus : numberOf webEntry.port ∉ sharedPort.statusPorts := by decide
  refine ⟨(hhttp "app2" webEntry rfl _ _ _).mpr ⟨hfirst, fun hmem => absurd hmem hstatus⟩,
    fun hroute => ?_⟩
  have hsecond := ((hhttp "app3" webEntry rfl _ _ _).mp hroute).1
  exact absurd (Prod.mk.inj (Option.some.inj (hfirst.symm.trans hsecond))).1 (by decide)

end NginxInterface
