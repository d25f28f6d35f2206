import Mathlib.Data.List.Dedup
import Mathlib.Data.List.Pairwise
import NginxInterface.Cycle.HttpApps
import NginxInterface.Cycle.Room

/-! # Loading a rendered file

nginx loads the rendering of a configuration exactly under the conditions of `Conf.Valid`: they
concern each application by itself with the length of its name, the names within a table and the
ports of the two blocks. What nginx has loaded is then a function of the configuration.
-/

namespace NginxInterface

open Js Ejs ConfFile Upstream NginxInterface.Cycle Foundation

variable {N : Type} [Number N]

/-- The values of the configuration have the types that they are documented with. -/
structure Conf.Plain (conf : Conf N) : Prop where
  debugMode : ∃ debug, conf.debugMode = .bool debug
  statusPort : conf.statusPort = .undefined ∨ conf.statusPort.Natural
  entries : ∀ mode appName entry, conf.appEntry mode appName = some entry →
    Name appName ∧ entry.Plain

/-! ## The directives of the file -/

def blockDirectives (mode : Mode) (table : Table N) : List Directive :=
  (tableApps table).flatMap (appDirectives mode)

theorem balanceDirectives_eq (entry : Entry N) :
    balanceDirectives entry.balance = methodDirectives (entry.method .http) := by
  unfold balanceDirectives methodDirectives Entry.method
  generalize "round_robin".toList = default
  cases entry.balance.truthy with
  | false => simp
  | true => by_cases hdefault : valueWord entry.balance = default <;> simp [hdefault]

theorem httpEntryDirectives_eq (appKey : String) (entry : Entry N) :
    httpEntryDirectives appKey entry = appDirectives .http (appKey, entry) := by
  unfold httpEntryDirectives
  rw [balanceDirectives_eq]
  rfl

/-- Unlike the http block, the stream block prints a missing method as the word `null`. -/
theorem streamBalance_plain {entry : Entry N} (h : entry.Plain) :
    Prints (streamBalance entry) .start (tokensOf (methodDirectives (entry.method .stream)))
      .start := by
  rcases h.balance with hnull | ⟨method, hmethod, hname⟩
  · have hword : PlainWord "null".toList := by decide
    have hmethod : methodDirectives (entry.method .stream) = [.simple ["null".toList]] := by
      rw [Entry.method, hnull]
      rfl
    rw [hmethod]
    refine ⟨_, ?_, hword.reads_statement⟩
    rw [streamBalance, hnull]
    rfl
  · have hsame : methodDirectives (entry.method .stream) = balanceDirectives entry.balance := by
      have htruthy : entry.balance.truthy = true := by
        simp [hmethod, Value.truthy, hname.1]
      rw [balanceDirectives_eq]
      unfold Entry.method
      rw [htruthy]
      rfl
    rw [hsame]
    exact streamBalance_prints hmethod hname.plainWord

theorem streamApp_plain {appKey : String} {entry : Entry N} (hkey : Name appKey)
    (h : entry.Plain) :
    Prints (streamApp appKey entry) .start (tokensOf (appDirectives .stream (appKey, entry)))
      .start := by
  obtain ⟨items, hinstances, hitems⟩ := h.worded.instances
  have hplain := hkey.plainWord
  have hstarts : starts (appKeyText appKey) = true := hplain.appKeyText ▸ hplain.1
  have hline : '\n' ∉ appKeyText appKey := fun hmem =>
    absurd (hkey.ordinary '\n' (hplain.appKeyText ▸ hmem)) (by decide)
  have hprints := streamApp_prints hstarts hline h.worded.port.1 h.worded.port.2
    (streamBalance_plain h)
    (eachInstance_prints hinstances fun item hitem => streamServer_worded (hitems item hitem))
  rwa [hplain.appKeyText] at hprints

theorem appDirectives_ne_nil (mode : Mode) (app : String × Entry N) :
    appDirectives mode app ≠ [] := by
  cases mode <;> exact List.cons_ne_nil _ _

/-- The directives that nginx reads. -/
def Conf.fileDirectives (conf : Conf N) : List Directive :=
  NginxInterface.fileDirectives conf.debugMode.truthy (blockDirectives .stream conf.stream)
    (statusDirectives conf.statusPort ++ blockDirectives .http conf.http)

theorem Js.Value.Natural.isWord {value : Value N} (h : value.Natural) : value.IsWord := by
  obtain ⟨n, hn, -⟩ := h
  exact Value.isWord_of_number ⟨n, hn⟩

theorem Conf.Plain.readConf {conf : Conf N} (h : conf.Plain) :
    ∃ text, render conf = .ok text ∧ ConfFile.readConf text = some conf.fileDirectives := by
  obtain ⟨debug, hdebug⟩ := h.debugMode
  have henabled : debugEnabled conf.debugMode = .ok conf.debugMode.truthy := by
    rw [hdebug]
    exact debugEnabled_bool debug
  obtain ⟨text, hrender, hreads⟩ := render_prints henabled
    (tableDirectives_eq_nil_iff (fun appKey entry => appDirectives_ne_nil .stream (appKey, entry))
      conf.stream)
    (eachApp_prints fun appKey entry hentry =>
      have hentries := h.entries .stream appKey entry hentry
      streamApp_plain hentries.1 hentries.2)
    (statusServer_worded (h.statusPort.imp_right Value.Natural.isWord))
    (eachApp_prints fun appKey entry hentry =>
      have hentries := h.entries .http appKey entry hentry
      httpApp_worded hentries.1.plainWord hentries.2.worded)
  refine ⟨text, hrender, ?_⟩
  rw [readConf_of_reads hreads, tableDirectives_eq, tableDirectives_eq, Conf.fileDirectives]
  simp only [httpEntryDirectives_eq]
  rfl

/-! ## The blocks of the file -/

/-- What nginx has loaded, if it loads the file. -/
def Conf.loaded (conf : Conf N) : Loaded where
  events := true
  stream :=
    if tableApps conf.stream = [] then none
    else some (streamState (tableApps conf.stream),
      (tableApps conf.stream).map (appReady .stream))
  http := some (httpState (statusServers conf.statusPort) (tableApps conf.http),
    (tableApps conf.http).map (appReady .http))

section File

variable {build : Build} {conf : Conf N}

theorem Conf.Plain.apps (h : conf.Plain) (mode : Mode) :
    ∀ app ∈ tableApps (conf.table mode), Name app.1 ∧ app.2.Plain :=
  fun app happ => h.entries mode app.1 app.2 (mem_tableApps.mp happ)

/-- The directives before the blocks. -/
theorem mainParse_start (hbuild : build.Usual) (debug : Bool) :
    contextParse build .main (mainCommands build) {}
      ([directive ["worker_processes", "5"]] ++
        (if debug then [directive ["error_log", "/dev/stdout", "info"]] else []) ++
        [.block ["events".toList] [directive ["worker_connections", "4096"]]]) =
      .ok { events := true } := by
  have hnames : (mainCommands build).map Command.name =
      ["events".toList, "stream".toList, "http".toList] := rfl
  have hstart : contextParse build .main (mainCommands build) {}
      ([directive ["worker_processes", "5"]] ++
        (if debug then [directive ["error_log", "/dev/stdout", "info"]] else [])) = .ok {} := by
    refine contextParse_others ?_ ?_
    · rw [hnames]
      cases debug <;> decide
    · intro d hd
      refine hbuild.main d ?_
      cases debug with
      | true => exact hd
      | false => exact List.mem_cons.mpr (Or.inl (List.mem_singleton.mp hd))
  have hevents : eventsBlock build {} ["events".toList]
      [directive ["worker_connections", "4096"]] = .ok { events := true } :=
    contextParse_others (fun _ _ => List.not_mem_nil)
      (List.forall_mem_singleton.mpr hbuild.events)
  rw [contextParse_append hstart, contextParse_singleton]
  exact hevents

theorem blockDirectives_eq_nil_iff (mode : Mode) (table : Table N) :
    blockDirectives mode table = [] ↔ tableApps table = [] := by
  rw [blockDirectives, List.flatMap_eq_nil_iff, List.eq_nil_iff_forall_not_mem]
  exact forall₂_congr fun app _ => iff_of_eq (eq_false (appDirectives_ne_nil mode app))

theorem accepts_streamPart (hconf : conf.Plain) :
    Accepts (contextParse build .main (mainCommands build) { events := true }
        (if blockDirectives .stream conf.stream = [] then []
          else [.block ["stream".toList] (blockDirectives .stream conf.stream)]))
      (StreamUsable (tableApps conf.stream))
      { events := true, stream := conf.loaded.stream } := by
  unfold Conf.loaded
  simp only [blockDirectives_eq_nil_iff]
  by_cases hempty : tableApps conf.stream = []
  · rw [if_pos hempty, if_pos hempty, hempty]
    exact (Accepts.of_eq_ok rfl).congr (by simp [StreamUsable])
  · rw [if_neg hempty, if_neg hempty]
    have hblock : Accepts (contextHandler build .main (mainCommands build) { events := true }
        (.block ["stream".toList] (blockDirectives .stream conf.stream))) _ _ :=
      (accepts_loadStream (hconf.apps .stream)).map
    exact .foldlM_singleton hblock

theorem accepts_fileDirectives (hbuild : build.Usual) (hconf : conf.Plain) :
    Accepts (contextParse build .main (mainCommands build) {} conf.fileDirectives)
      (StreamUsable (tableApps conf.stream) ∧
        (conf.statusPort = .undefined ∨ PortRange (numberOf conf.statusPort)) ∧
          HttpUsable (tableApps conf.http)) conf.loaded := by
  have hhttp : Accepts (contextHandler build .main (mainCommands build)
      { events := true, stream := conf.loaded.stream } (.block ["http".toList]
        (statusDirectives conf.statusPort ++ blockDirectives .http conf.http))) _ conf.loaded :=
    (accepts_loadHttp hbuild hconf.statusPort (hconf.apps .http)).map
  unfold Conf.fileDirectives fileDirectives
  rw [List.append_assoc, contextParse_append (mainParse_start hbuild _)]
  exact (accepts_streamPart hconf).foldlM_append fun _ => .foldlM_singleton hhttp

end File

/-! ## Sockets -/

def anyAddr (port : Nat) : Sockaddr := ⟨0, port⟩

theorem listening_anyAddr (ports : List Nat) :
    listening (ports.map anyAddr) = (ports.map anyAddr).dedup := by
  unfold listening
  congr 1
  refine List.filter_eq_self.mpr fun sockaddr hmem => ?_
  obtain ⟨port, -, rfl⟩ := List.mem_map.mp hmem
  simp [anyAddr]

theorem overlap_anyAddr {first second : Nat} :
    Overlap (anyAddr first) (anyAddr second) ↔ first = second := by
  simp [Overlap, anyAddr]

/-- The system binds the sockets of the two blocks if they have no port in common. -/
theorem pairwise_sockets_iff (front back : List Nat) :
    (listening (front.map anyAddr) ++ listening (back.map anyAddr)).Pairwise
        (fun first second => ¬Overlap first second) ↔
      ∀ port ∈ back, port ∉ front := by
  have halone : ∀ ports : List Nat, (listening (ports.map anyAddr)).Pairwise
      fun first second => ¬Overlap first second := by
    intro ports
    rw [listening_anyAddr]
    refine (List.nodup_dedup (ports.map anyAddr)).imp_of_mem fun hfirst hsecond hne => ?_
    obtain ⟨port, -, rfl⟩ := List.mem_map.mp (List.mem_dedup.mp hfirst)
    obtain ⟨other, -, rfl⟩ := List.mem_map.mp (List.mem_dedup.mp hsecond)
    exact fun hoverlap => hne (congrArg anyAddr (overlap_anyAddr.mp hoverlap))
  rw [List.pairwise_append, and_iff_right (halone front), and_iff_right (halone back)]
  simp only [listening_anyAddr, List.mem_dedup, List.forall_mem_map, overlap_anyAddr]
  constructor
  · exact fun h port hback hfront => h port hfront port hback rfl
  · rintro h port hfront other hback rfl
    exact h port hback hfront

def Conf.statusPorts (conf : Conf N) : List Nat :=
  match conf.statusPort with
  | .undefined => []
  | statusPort => [numberOf statusPort]

/-- The ports of the http block. -/
def Conf.httpPorts (conf : Conf N) : List Nat :=
  conf.statusPorts ++ (tableApps conf.http).map appPort

theorem flatMap_listen (apps : List (String × Entry N)) :
    (apps.mapIdx httpServerOf).flatMap HttpServer.listen = apps.map appSockaddr := by
  induction apps using List.reverseRecOn with
  | nil => rfl
  | append_singleton front app ih =>
      rw [List.mapIdx_append, List.flatMap_append, ih, List.map_append]
      rfl

theorem Conf.httpState_listen (conf : Conf N) :
    (httpState (statusServers conf.statusPort) (tableApps conf.http)).listen =
      conf.httpPorts.map anyAddr := by
  have hstatus : (statusServers conf.statusPort).flatMap HttpServer.listen =
      conf.statusPorts.map anyAddr := by
    unfold statusServers Conf.statusPorts
    cases conf.statusPort <;> rfl
  rw [HttpConf.listen, httpState, List.flatMap_append, hstatus, Conf.httpPorts, List.map_append,
    flatMap_listen, List.map_map]
  rfl

theorem Conf.loaded_sockets (conf : Conf N) :
    conf.loaded.sockets = listening (conf.httpPorts.map anyAddr) ++
      listening (((tableApps conf.stream).map appPort).map anyAddr) := by
  have hstream : (conf.loaded.stream.map fun stream => stream.1.listen).getD [] =
      ((tableApps conf.stream).map appPort).map anyAddr := by
    unfold Conf.loaded
    by_cases hempty : tableApps conf.stream = []
    · simp [hempty]
    · rw [List.map_map]
      simp only [hempty, if_false]
      rfl
  rw [Loaded.sockets, hstream]
  exact congrArg (listening · ++ _) conf.httpState_listen

/-! ## The conditions -/

/-- What nginx asks of a configuration. -/
structure Conf.Valid (conf : Conf N) : Prop where
  statusPort : conf.statusPort = .undefined ∨ PortRange (numberOf conf.statusPort)
  usable : ∀ mode appName entry, conf.appEntry mode appName = some entry →
    AppUsable mode (appName, entry)
  names : ∀ mode first second, (conf.appEntry mode first).isSome →
    (conf.appEntry mode second).isSome → sameHost first.toList second.toList = true →
      first = second
  streamPorts : ∀ first second r s, conf.appEntry .stream first = some r →
    conf.appEntry .stream second = some s → numberOf r.port = numberOf s.port → first = second
  separate : ∀ appName entry, conf.appEntry .stream appName = some entry →
    numberOf entry.port ∉ conf.httpPorts
  lengths : ∀ mode appName entry, conf.appEntry mode appName = some entry →
    appName.length ≤ nameLimit mode

omit [Number N] in
/-- The keys of a table are distinct, so that a symmetric relation between its applications can
be stated by their names. -/
theorem pairwise_tableApps_iff {table : Table N} {R : String × Entry N → String × Entry N → Prop}
    [Std.Symm R] :
    (tableApps table).Pairwise R ↔ ∀ first second r s, table.get? first = some r →
      table.get? second = some s → first ≠ second → R (first, r) (second, s) := by
  constructor
  · intro h first second r s hfirst hsecond hne
    refine h.forall (mem_tableApps.mpr hfirst) (mem_tableApps.mpr hsecond) fun hsame => hne ?_
    exact congrArg Prod.fst hsame
  · intro h
    unfold tableApps
    rw [List.pairwise_filterMap]
    refine (objectKeys_nodup table).imp fun {first second} hne app happ other hother => ?_
    obtain ⟨r, hfirst, rfl⟩ := Option.map_eq_some_iff.mp happ
    obtain ⟨s, hsecond, rfl⟩ := Option.map_eq_some_iff.mp hother
    exact h first second r s hfirst hsecond hne

omit [Number N] in
theorem SameName.symm {first second : String × Entry N} (h : SameName first second) :
    SameName second first := by
  simpa [SameName, sameHost, eq_comm] using h

instance : Std.Symm fun first second : String × Entry N => ¬SameName first second :=
  ⟨fun _ _ h hsame => h hsame.symm⟩

instance : Std.Symm fun first second : String × Entry N =>
    appPort first ≠ appPort second ∧ ¬SameName first second :=
  ⟨fun _ _ h => ⟨h.1.symm, fun hsame => h.2 hsame.symm⟩⟩

theorem Conf.valid_iff (conf : Conf N) :
    conf.Valid ↔ ((StreamUsable (tableApps conf.stream) ∧
        (conf.statusPort = .undefined ∨ PortRange (numberOf conf.statusPort)) ∧
          HttpUsable (tableApps conf.http)) ∧
      ∀ port ∈ (tableApps conf.stream).map appPort, port ∉ conf.httpPorts) ∧
      (∀ app ∈ tableApps conf.stream, app.1.length ≤ nameLimit .stream) ∧
        ∀ app ∈ tableApps conf.http, app.1.length ≤ nameLimit .http := by
  unfold StreamUsable HttpUsable
  rw [pairwise_tableApps_iff, pairwise_tableApps_iff, List.forall_mem_map]
  constructor
  · intro h
    have hnames : ∀ mode first second r s, conf.appEntry mode first = some r →
        conf.appEntry mode second = some s → first ≠ second →
          ¬SameName (first, r) (second, s) :=
      fun mode first second r s hfirst hsecond hne hsame =>
        hne (h.names mode first second (by rw [hfirst]; rfl) (by rw [hsecond]; rfl) hsame)
    refine ⟨⟨⟨⟨fun app happ => h.usable .stream _ _ (mem_tableApps.mp happ), ?_⟩, h.statusPort,
      fun app happ => h.usable .http _ _ (mem_tableApps.mp happ), hnames .http⟩, ?_⟩,
      fun app happ => h.lengths .stream _ _ (mem_tableApps.mp happ),
      fun app happ => h.lengths .http _ _ (mem_tableApps.mp happ)⟩
    · intro first second r s hfirst hsecond hne
      exact ⟨fun hport => hne (h.streamPorts first second r s hfirst hsecond hport),
        hnames .stream first second r s hfirst hsecond hne⟩
    · exact fun app happ => h.separate _ _ (mem_tableApps.mp happ)
  · rintro ⟨⟨⟨⟨hstream, hstreamPairs⟩, hstatus, hhttp, hhttpPairs⟩, hseparate⟩, hlengths⟩
    refine ⟨hstatus, ?_, ?_, ?_, ?_, ?_⟩
    · intro mode appName entry hentry
      cases mode with
      | http => exact hhttp (appName, entry) (mem_tableApps.mpr hentry)
      | stream => exact hstream (appName, entry) (mem_tableApps.mpr hentry)
    · intro mode first second hfirst hsecond hsame
      obtain ⟨r, hr⟩ := Option.isSome_iff_exists.mp hfirst
      obtain ⟨s, hs⟩ := Option.isSome_iff_exists.mp hsecond
      by_contra hne
      cases mode with
      | http => exact hhttpPairs first second r s hr hs hne hsame
      | stream => exact (hstreamPairs first second r s hr hs hne).2 hsame
    · intro first second r s hr hs hport
      by_contra hne
      exact (hstreamPairs first second r s hr hs hne).1 hport
    · exact fun appName entry hentry => hseparate (appName, entry) (mem_tableApps.mpr hentry)
    · intro mode appName entry hentry
      cases mode with
      | http => exact hlengths.2 (appName, entry) (mem_tableApps.mpr hentry)
      | stream => exact hlengths.1 (appName, entry) (mem_tableApps.mpr hentry)

/-! ## Loading -/

section Loading

variable [Number.Decimal N] {build : Build} {conf : Conf N}

/-- The tokenizer gets through the file of usable applications if their names fit. -/
theorem Conf.Plain.fits_iff (h : conf.Plain)
    (hstatus : conf.statusPort = .undefined ∨ PortRange (numberOf conf.statusPort))
    (hstreamApps : ∀ app ∈ tableApps conf.stream, AppUsable .stream app)
    (hhttpApps : ∀ app ∈ tableApps conf.http, AppUsable .http app) {text : Text}
    (hrender : render conf = .ok text) :
    Fits text ↔ (∀ app ∈ tableApps conf.stream, app.1.length ≤ nameLimit .stream) ∧
      ∀ app ∈ tableApps conf.http, app.1.length ≤ nameLimit .http := by
  obtain ⟨debug, hdebug⟩ := h.debugMode
  have henabled : debugEnabled conf.debugMode = .ok debug := by
    rw [hdebug]
    exact debugEnabled_bool debug
  have hserver : Fills (statusServer conf.statusPort) .start 20 True .start 20 := by
    rcases h.statusPort with hnone | hnatural
    · rw [hnone]
      exact ⟨[], rfl, .nil⟩
    · have hrange : PortRange (numberOf conf.statusPort) := by
        refine hstatus.resolve_left fun hnone => ?_
        obtain ⟨n, hn, -⟩ := hnatural
        cases hn.symm.trans hnone
      exact statusServer_fills hnatural.isWord.1 hnatural.isWord.2
        (Nat.lt_of_le_of_lt (hnatural.size hrange) (by decide))
  have hstream : Fills (eachApp streamApp conf.stream) .start 30
      (∀ appKey entry, conf.stream.get? appKey = some entry → appKey.length ≤ nameLimit .stream)
      .start 30 := eachApp_fills fun appKey entry hentry =>
    have happ := h.entries .stream appKey entry hentry
    streamApp_room happ.1 happ.2 (hstreamApps (appKey, entry) (mem_tableApps.mpr hentry))
  have hhttp : Fills (eachApp httpApp conf.http) .start 30
      (∀ appKey entry, conf.http.get? appKey = some entry → appKey.length ≤ nameLimit .http)
      .start 30 := eachApp_fills fun appKey entry hentry =>
    have happ := h.entries .http appKey entry hentry
    httpApp_room happ.1 happ.2 (hhttpApps (appKey, entry) (mem_tableApps.mpr hentry))
  obtain ⟨other, hother, htakes⟩ := render_fills henabled hstream hserver hhttp
  cases hrender.symm.trans hother
  simp only [htakes.fits_iff, Prod.forall, mem_tableApps]

/-- `loadFile` of the rendered text, in one statement. -/
theorem accepts_loadFile (hbuild : build.Usual) (hconf : conf.Plain) :
    ∃ text, render conf = .ok text ∧ Accepts (loadFile build text) conf.Valid conf.loaded := by
  obtain ⟨text, hrender, hread⟩ := hconf.readConf
  refine ⟨text, hrender, ?_⟩
  have hinit : Accepts (initCycle build conf.fileDirectives) _ conf.loaded :=
    (accepts_fileDirectives hbuild hconf).bind fun _ => Accepts.ite (fun _ => .of_eq_ok rfl) _
  rw [conf.loaded_sockets, pairwise_sockets_iff, and_true] at hinit
  unfold loadFile
  rw [readFile_eq, hread, conf.valid_iff]
  by_cases hfits : Fits text
  · rw [if_pos hfits]
    refine hinit.congr ⟨fun h => ⟨h, ?_⟩, And.left⟩
    exact (hconf.fits_iff h.1.2.1 h.1.1.1 h.1.2.2.1 hrender).mp hfits
  · rw [if_neg hfits]
    refine Accepts.error _ fun ⟨h, hlengths⟩ => hfits ?_
    exact (hconf.fits_iff h.1.2.1 h.1.1.1 h.1.2.2.1 hrender).mpr hlengths

end Loading

/-- nginx loads the rendering of a configuration exactly if the configuration is valid, and then
it has loaded the servers and upstreams of the configuration. -/
theorem loads_iff_valid [Number.Decimal N] {build : Build} (hbuild : build.Usual) (conf : Conf N)
    (hconf : conf.Plain) :
    ∃ text, render conf = .ok text ∧ ∀ loaded, loadFile build text = .ok loaded ↔
      conf.Valid ∧ loaded = conf.loaded :=
  accepts_loadFile hbuild hconf

theorem openBuild_usual : openBuild.Usual :=
  ⟨fun _ _ => rfl, rfl, fun _ _ => rfl, fun _ _ => rfl⟩

theorem Entry.Documented.plain {entry : Entry N} (h : entry.Documented)
    (hport : entry.port.Natural) : entry.Plain where
  port := hport
  balance := Or.inr h.balance
  instances := h.instances
  serverName := h.serverName
  ssl ssl hssl := by rw [h.ssl] at hssl; cases hssl

def webEntry : Entry Int := { weightedEntry with port := .num 80 }

theorem webEntry_documented : webEntry.Documented :=
  { weightedEntry_documented with port := ⟨80, rfl⟩ }

/-- An application in each table, on different ports. -/
def twoApps : Conf Int :=
  ((Conf.initial (.bool true) (.num 8080)).put .stream "app1" weightedEntry).put .http "app2"
    webEntry

theorem tableApps_twoApps_stream : tableApps twoApps.stream = [("app1", weightedEntry)] := rfl

theorem tableApps_twoApps_http : tableApps twoApps.http = [("app2", webEntry)] := rfl

theorem Conf.plain_of_apps {conf : Conf N} (hdebug : ∃ debug, conf.debugMode = .bool debug)
    (hstatus : conf.statusPort = .undefined ∨ conf.statusPort.Natural)
    (hstream : ∀ app ∈ tableApps conf.stream, Name app.1 ∧ app.2.Plain)
    (hhttp : ∀ app ∈ tableApps conf.http, Name app.1 ∧ app.2.Plain) : conf.Plain where
  debugMode := hdebug
  statusPort := hstatus
  entries := by
    intro mode appName entry hentry
    cases mode with
    | http => exact hhttp (appName, entry) (mem_tableApps.mpr hentry)
    | stream => exact hstream (appName, entry) (mem_tableApps.mpr hentry)

theorem weightedEntry_plain : weightedEntry.Plain :=
  weightedEntry_documented.plain ⟨7000, rfl, by decide⟩

theorem webEntry_plain : webEntry.Plain := webEntry_documented.plain ⟨80, rfl, by decide⟩

theorem twoApps_plain : twoApps.Plain := by
  refine Conf.plain_of_apps ⟨true, rfl⟩ (Or.inr ⟨8080, rfl, by decide⟩) ?_ ?_
  · rw [tableApps_twoApps_stream]
    exact List.forall_mem_singleton.mpr ⟨by decide, weightedEntry_plain⟩
  · rw [tableApps_twoApps_http]
    exact List.forall_mem_singleton.mpr ⟨by decide, webEntry_plain⟩

theorem twoApps_valid : twoApps.Valid := by
  have hports : twoApps.httpPorts = [8080, 80] := by decide
  rw [Conf.valid_iff, tableApps_twoApps_stream, tableApps_twoApps_http, hports]
  exact ⟨⟨⟨by decide, Or.inr (by decide), by decide⟩, by decide⟩, by decide, by decide⟩

theorem loads_iff_valid_twoApps :
    ∃ text, render twoApps = .ok text ∧ loadFile openBuild text = .ok twoApps.loaded := by
  obtain ⟨text, hrender, hload⟩ := loads_iff_valid openBuild_usual twoApps twoApps_plain
  exact ⟨text, hrender, (hload _).mpr ⟨twoApps_valid, rfl⟩⟩

end NginxInterface
