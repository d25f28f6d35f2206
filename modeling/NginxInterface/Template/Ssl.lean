import NginxInterface.Template.Faithful

/-! # Applications with and without ssl

What nginx reads of the http table when every value in it is a word. An application
without `ssl` listens on its port and passes everything on to its upstream. The branch
of the template for an application with `ssl` lacks the semicolon after `listen` and the
location: its server listens with the words of the next line and passes nothing on.
-/

namespace NginxInterface

open Foundation Js Ejs ConfFile

variable {N : Type} [Number N]

/-! ## What it means to be routed -/

/-- The arguments of the directives of this name, in order. -/
def argumentsOf (name : String) (body : List Directive) : List (List Word) :=
  body.filterMap fun
    | .simple (word :: args) => if word = name.toList then some args else none
    | _ => none

/-- The body of the server block of an application, the one right before its upstream
block. -/
def ServesApp (http : List Directive) (appKey : String) (server : List Directive) : Prop :=
  ∃ upstream, [.block ["server".toList] server,
    .block ["upstream".toList, appKey.toList] upstream] <:+: http

/-- The server listens on the port of the entry, with `ssl` if it is set, and passes
requests on to the upstream of the application. -/
structure RoutesTo (appKey : String) (entry : Entry N) (server : List Directive) : Prop where
  listen : argumentsOf "listen" server =
    [valueWord entry.port :: if entry.ssl.isSome then ["ssl".toList] else []]
  location : ∃ body, .block ["location".toList, "/".toList] body ∈ server ∧
    argumentsOf "proxy_pass" body = [["http://".toList ++ appKey.toList]]

/-- In nginx's reading of the text every application of the http table is routed. -/
def AllRouted (conf : Conf N) (text : Text) : Prop :=
  ∃ directives http, readConf text = some directives ∧
    .block ["http".toList] http ∈ directives ∧
    ∀ appKey entry, conf.http.get? appKey = some entry →
      ∃ server, ServesApp http appKey server ∧ RoutesTo appKey entry server

/-! ## One application -/

/-- The body of the server block that is read for an entry. -/
def serverBody (appKey : String) (r : Entry N) : List Directive :=
  .simple ["server_name".toList, valueWord (serverNameValue r)] :: httpListenDirectives appKey r

theorem argumentsOf_proxy_pass (key : Word) :
    argumentsOf "proxy_pass" (locationDirectives key) = [["http://".toList ++ key]] := by
  rfl

theorem serverBody_routes {appKey : String} {r : Entry N} (hssl : r.ssl = none) :
    RoutesTo appKey r (serverBody appKey r) where
  listen := by
    simp only [serverBody, httpListenDirectives, hssl, listenDirectives]
    rfl
  location := by
    refine ⟨locationDirectives appKey.toList, ?_, argumentsOf_proxy_pass _⟩
    simp [serverBody, httpListenDirectives, hssl, listenDirectives]

theorem argumentsOf_listen_ssl {appKey : String} {r : Entry N} {ssl : Ssl N}
    (hssl : r.ssl = some ssl) :
    argumentsOf "listen" (serverBody appKey r) =
      [[valueWord r.port, "ssl".toList, "ssl".toList, "on".toList]] := by
  simp only [serverBody, httpListenDirectives, hssl, sslDirectives]
  rfl

theorem serverBody_routes_iff (appKey : String) (r : Entry N) :
    RoutesTo appKey r (serverBody appKey r) ↔ r.ssl = none := by
  constructor
  · intro hroutes
    cases hssl : r.ssl with
    | none => rfl
    | some ssl =>
        have hlisten := hroutes.listen
        rw [argumentsOf_listen_ssl hssl, hssl] at hlisten
        simp at hlisten
  · exact serverBody_routes

/-! ## The http block -/

/-- The applications of a table in the order of the loop. -/
def tableApps (table : Table N) : List (String × Entry N) :=
  (objectKeys table).filterMap fun appKey => (table.get? appKey).map fun entry => (appKey, entry)

omit [Number N] in
theorem mem_tableApps {table : Table N} {appKey : String} {entry : Entry N} :
    (appKey, entry) ∈ tableApps table ↔ table.get? appKey = some entry := by
  unfold tableApps
  rw [List.mem_filterMap]
  constructor
  · rintro ⟨key, -, hkey⟩
    obtain ⟨found, hfound, hsame⟩ := Option.map_eq_some_iff.mp hkey
    cases hsame
    exact hfound
  · intro hentry
    refine ⟨appKey, mem_objectKeys.mpr ((table.mem_keys_iff appKey).mpr ⟨entry, hentry⟩), ?_⟩
    rw [hentry, Option.map_some]

omit [Number N] in
theorem tableDirectives_eq (directives : String → Entry N → List Directive) (table : Table N) :
    tableDirectives directives table =
      (tableApps table).flatMap fun app => directives app.1 app.2 := by
  unfold tableDirectives tableApps
  induction objectKeys table with
  | nil => rfl
  | cons appKey rest ih =>
      rw [List.flatMap_cons, ih]
      cases hentry : table.get? appKey with
      | none => rw [List.filterMap_cons_none (by rw [hentry]; rfl)]; rfl
      | some entry => rw [List.filterMap_cons_some (by rw [hentry]; rfl)]; rfl

/-- The directives of the applications, two blocks for each. -/
def appsDirectives (apps : List (String × Entry N)) : List Directive :=
  apps.flatMap fun app => httpEntryDirectives app.1 app.2

theorem exists_appsDirectives_cons (appKey : String) (r : Entry N)
    (rest : List (String × Entry N)) :
    ∃ upstream, appsDirectives ((appKey, r) :: rest) =
      .block ["server".toList] (serverBody appKey r) ::
        .block ["upstream".toList, appKey.toList] upstream :: appsDirectives rest :=
  ⟨_, rfl⟩

theorem servesApp_of_mem {apps : List (String × Entry N)} {appKey : String} {r : Entry N}
    (hmem : (appKey, r) ∈ apps) (before : List Directive) :
    ServesApp (before ++ appsDirectives apps) appKey (serverBody appKey r) := by
  obtain ⟨front, back, rfl⟩ := List.append_of_mem hmem
  obtain ⟨upstream, hcons⟩ := exists_appsDirectives_cons appKey r back
  refine ⟨upstream, before ++ appsDirectives front, appsDirectives back, ?_⟩
  have happend : appsDirectives (front ++ (appKey, r) :: back) =
      appsDirectives front ++ appsDirectives ((appKey, r) :: back) := List.flatMap_append
  rw [happend, hcons]
  simp

/-- No upstream block begins the directives of the applications. -/
theorem not_upstream_first (apps : List (String × Entry N)) (key : Word)
    (upstream : List Directive) :
    ¬[.block ["upstream".toList, key] upstream] <+: appsDirectives apps := by
  cases apps with
  | nil => simp [appsDirectives]
  | cons app rest =>
      obtain ⟨other, hcons⟩ := exists_appsDirectives_cons app.1 app.2 rest
      rw [hcons, List.cons_prefix_cons]
      rintro ⟨hblock, -⟩
      have hwords := (Directive.block.inj hblock).1
      exact List.cons_ne_nil _ _ (List.cons.inj hwords).2

/-- The server block before the upstream block of an application is the one of its
entry. -/
theorem servesApp_apps {apps : List (String × Entry N)} {appKey : String}
    {server : List Directive} (h : ServesApp (appsDirectives apps) appKey server) :
    ∃ r, (appKey, r) ∈ apps ∧ server = serverBody appKey r := by
  obtain ⟨upstream, hinside⟩ := h
  induction apps with
  | nil => simp [appsDirectives] at hinside
  | cons app rest ih =>
      obtain ⟨key, r⟩ := app
      obtain ⟨other, hcons⟩ := exists_appsDirectives_cons key r rest
      rw [hcons] at hinside
      rcases List.infix_cons_iff.mp hinside with hbegins | hinside
      · obtain ⟨hserver, hbegins⟩ := List.cons_prefix_cons.mp hbegins
        obtain ⟨hupstream, -⟩ := List.cons_prefix_cons.mp hbegins
        simp only [Directive.block.injEq, List.cons.injEq, true_and, and_true,
          String.toList_inj] at hserver hupstream
        obtain ⟨rfl, -⟩ := hupstream
        exact ⟨r, List.mem_cons_self, hserver⟩
      · rcases List.infix_cons_iff.mp hinside with hbegins | hinside
        · have hwords := (Directive.block.inj (List.cons_prefix_cons.mp hbegins).1).1
          exact absurd (List.cons.inj hwords).2.symm (List.cons_ne_nil _ _)
        · obtain ⟨found, hfound, hserver⟩ := ih hinside
          exact ⟨found, List.mem_cons_of_mem _ hfound, hserver⟩

/-- The status server in front of them is the server of no application. -/
theorem servesApp_status {statusPort : Value N} {apps : List (String × Entry N)}
    {appKey : String} {server : List Directive}
    (h : ServesApp (statusDirectives statusPort ++ appsDirectives apps) appKey server) :
    ServesApp (appsDirectives apps) appKey server := by
  obtain ⟨upstream, hinside⟩ := h
  refine ⟨upstream, ?_⟩
  unfold statusDirectives at hinside
  split at hinside
  · exact hinside
  · rw [List.singleton_append] at hinside
    refine (List.infix_cons_iff.mp hinside).resolve_left fun hbegins => ?_
    exact not_upstream_first apps _ _ (List.cons_prefix_cons.mp hbegins).2

theorem servesApp_iff {statusPort : Value N} {apps : List (String × Entry N)}
    {appKey : String} {server : List Directive} :
    ServesApp (statusDirectives statusPort ++ appsDirectives apps) appKey server ↔
      ∃ r, (appKey, r) ∈ apps ∧ server = serverBody appKey r := by
  constructor
  · exact fun h => servesApp_apps (servesApp_status h)
  · rintro ⟨r, hmem, rfl⟩
    exact servesApp_of_mem hmem _

/-! ## The whole file -/

/-- The values of the http table and the status port are words, and nginx reads every
application of the stream table as directives of its own. -/
structure Conf.Worded (conf : Conf N) : Prop where
  debugMode : ∃ debug, debugEnabled conf.debugMode = .ok debug
  statusPort : conf.statusPort = .undefined ∨ conf.statusPort.IsWord
  stream : ∃ directives : String → Entry N → List Directive,
    (∀ appKey entry, directives appKey entry ≠ []) ∧
    ∀ appKey entry, conf.stream.get? appKey = some entry →
      Prints (streamApp appKey entry) .start (tokensOf (directives appKey entry)) .start
  http : ∀ appKey entry, conf.http.get? appKey = some entry →
    PlainWord appKey.toList ∧ entry.Worded

theorem Conf.Worded.readConf {conf : Conf N} (h : conf.Worded) :
    ∃ text debug stream, render conf = .ok text ∧ ConfFile.readConf text = some
      (fileDirectives debug stream
        (statusDirectives conf.statusPort ++ appsDirectives (tableApps conf.http))) := by
  obtain ⟨debug, hdebug⟩ := h.debugMode
  obtain ⟨directives, hne, hstream⟩ := h.stream
  obtain ⟨text, hrender, hreads⟩ := render_prints hdebug
    (tableDirectives_eq_nil_iff hne conf.stream) (eachApp_prints hstream)
    (statusServer_worded h.statusPort)
    (eachApp_prints fun appKey entry hentry =>
      httpApp_worded (h.http appKey entry hentry).1 (h.http appKey entry hentry).2)
  rw [tableDirectives_eq httpEntryDirectives] at hreads
  exact ⟨text, debug, _, hrender, readConf_of_reads hreads⟩

theorem allRouted_iff_of_read {conf : Conf N} {text : Text} {debug : Bool}
    {stream : List Directive} (hread : ConfFile.readConf text = some (fileDirectives debug stream
      (statusDirectives conf.statusPort ++ appsDirectives (tableApps conf.http)))) :
    AllRouted conf text ↔
      ∀ appKey entry, conf.http.get? appKey = some entry → entry.ssl = none := by
  constructor
  · rintro ⟨directives, http, hdirectives, hhttp, hrouted⟩ appKey entry hentry
    rw [hread, Option.some.injEq] at hdirectives
    subst hdirectives
    rw [http_mem_fileDirectives] at hhttp
    subst hhttp
    obtain ⟨server, hserves, hroutes⟩ := hrouted appKey entry hentry
    obtain ⟨r, hr, rfl⟩ := servesApp_iff.mp hserves
    rw [mem_tableApps, hentry, Option.some.injEq] at hr
    subst hr
    exact (serverBody_routes_iff appKey entry).mp hroutes
  · intro hplain
    refine ⟨_, _, hread, http_mem_fileDirectives.mpr rfl, ?_⟩
    intro appKey entry hentry
    exact ⟨serverBody appKey entry, servesApp_iff.mpr ⟨entry, mem_tableApps.mpr hentry, rfl⟩,
      serverBody_routes (hplain appKey entry hentry)⟩

theorem Conf.Documented.worded {conf : Conf N} (h : conf.Documented) : conf.Worded where
  debugMode := by
    obtain ⟨debug, hdebug⟩ := h.debugMode
    exact ⟨debug, hdebug ▸ debugEnabled_bool debug⟩
  statusPort := h.statusPort.imp_right Value.isWord_of_number
  stream := by
    refine ⟨streamEntryDirectives, by simp [streamEntryDirectives, streamDirectives], ?_⟩
    intro appKey entry hentry
    obtain ⟨hname, hdocumented⟩ := h.entries .stream appKey entry hentry
    exact streamApp_documented hname hdocumented
  http := by
    intro appKey entry hentry
    obtain ⟨hname, hdocumented⟩ := h.entries .http appKey entry hentry
    exact ⟨hname.plainWord, hdocumented.worded⟩

theorem Conf.Worded.put {conf : Conf N} (h : conf.Worded) {appName : String}
    (hname : PlainWord appName.toList) {entry : Entry N} (hentry : entry.Worded) :
    (conf.put .http appName entry).Worded where
  debugMode := h.debugMode
  statusPort := h.statusPort
  stream := h.stream
  http := by
    intro query found hfound
    by_cases hsame : query = appName
    · subst hsame
      have hself := conf.appEntry_put_self .http query entry
      cases hfound.symm.trans hself
      exact ⟨hname, hentry⟩
    · have hother := conf.appEntry_put_of_ne entry
        (show (Mode.http, query) ≠ (.http, appName) by simp [hsame])
      exact h.http query found (hother.symm.trans hfound)

/-- Every application is routed exactly if none has `ssl`. -/
theorem all_routed_iff (conf : Conf N) (h : conf.Worded) :
    ∃ text, render conf = .ok text ∧
      (AllRouted conf text ↔
        ∀ appKey entry, conf.http.get? appKey = some entry → entry.ssl = none) := by
  obtain ⟨text, debug, stream, hrender, hread⟩ := h.readConf
  exact ⟨text, hrender, allRouted_iff_of_read hread⟩

theorem all_routed_iff_weighted :
    ∃ text, render weightedConf = .ok text ∧ AllRouted weightedConf text := by
  obtain ⟨text, hrender, hrouted⟩ := all_routed_iff weightedConf weightedConf_documented.worded
  exact ⟨text, hrender, hrouted.mpr fun appKey entry hentry =>
    (weightedConf_documented.entries .http appKey entry hentry).2.ssl⟩

/-- An application with a certificate. -/
def sslEntry : Entry Int where
  port := .num 443
  balance := .null
  instances := .list [{ port := .num 8443 }]
  ssl := some { cert := .str "/etc/ssl/shop.crt", key := .str "/etc/ssl/shop.key" }

theorem sslEntry_worded : sslEntry.Worded where
  port := Value.isWord_of_number ⟨443, rfl⟩
  balance := Or.inl rfl
  instances := by
    refine ⟨_, rfl, ?_⟩
    intro item hitem
    rw [List.mem_singleton.mp hitem]
    exact ⟨(Value.isWord_of_number ⟨8443, rfl⟩).isPart, Or.inl rfl⟩
  serverName := Or.inl rfl
  ssl := by
    intro ssl hssl
    cases hssl
    exact ⟨Value.isWord_str (by decide), Value.isWord_str (by decide)⟩

def sslConf : Conf Int := weightedConf.put .http "shop" sslEntry

theorem sslConf_not_routed : ∃ text, render sslConf = .ok text ∧ ¬AllRouted sslConf text := by
  have hworded : sslConf.Worded :=
    weightedConf_documented.worded.put (by decide) sslEntry_worded
  obtain ⟨text, debug, stream, hrender, hread⟩ := hworded.readConf
  refine ⟨text, hrender, fun hrouted => ?_⟩
  have hentry := weightedConf.appEntry_put_self .http "shop" sslEntry
  have hnone := (allRouted_iff_of_read hread).mp hrouted "shop" sslEntry hentry
  cases hnone

end NginxInterface
