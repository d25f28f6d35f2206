import NginxInterface.Routing.Generations
import NginxInterface.Template.Faithful
import NginxInterface.Template.Locality

/-! # Replacing the ports of a running application

Each accepted update brings in a new generation of ports and keeps the previous one
as backups, until the update after it drops them. In the stream table the backups
are marked as such. The http branch of the template does not look at the flag, so
that there both generations stay in rotation.
-/

namespace NginxInterface

open Foundation Js Ejs ConfFile

variable {N : Type} [Number N]

/-! ## The server lines of the upstream block -/

def serverLine : Mode → Instance N → Except Fault Text
  | .http => httpServer
  | .stream => streamServer

def balanceText : Mode → Entry N → Except Fault Text
  | .http => httpBalance
  | .stream => streamBalance

/-- The `backup` parameter as the two branches of the template print it. -/
def backupParameters : Mode → List Word
  | .http => []
  | .stream => ["backup".toList]

/-- The server line of an instance with a numeric port and no weight. -/
def lineDirective (mode : Mode) (item : Instance N) : Directive :=
  serverDirective (instanceAddress (valueWord item.port))
    (if item.backup.truthy then backupParameters mode else [])

/-- The lines of a generation and of the one before it. -/
def serverLines (mode : Mode) (current previous : List N) : List Directive :=
  current.map (fun port => serverDirective (instanceAddress (Number.toText port)) []) ++
    previous.map fun port =>
      serverDirective (instanceAddress (Number.toText port)) (backupParameters mode)

theorem serverLine_prints (mode : Mode) {item : Instance N} (hport : ∃ n, item.port = .num n)
    (hweight : item.weight = .undefined) :
    Prints (serverLine mode item) .start (lineDirective mode item).tokens .start := by
  obtain ⟨hprinted, hword⟩ := Value.isWord_of_number hport
  have htext : weightText item = .ok (([] : List Word).flatMap fun word => ' ' :: word) := by
    simp [weightText, hweight, Value.truthy]
  cases mode with
  | http =>
      have hnone : (if item.backup.truthy then backupParameters .http else []) = [] :=
        ite_self _
      rw [lineDirective, hnone]
      exact httpServer_prints hprinted (stays_of_starts hword) htext (by simp)
  | stream =>
      exact streamServer_prints hprinted (stays_of_starts hword) htext (by simp)

theorem lineDirective_rotation (mode : Mode) (current previous : List N) :
    (portInstances current ++ backupInstances previous).map (lineDirective mode) =
      serverLines mode current previous := by
  rw [List.map_append, portInstances, backupInstances, List.map_map, List.map_map]
  rfl

omit [Number N] in
theorem rotation_plain (current previous : List N) :
    ∀ item ∈ portInstances current ++ backupInstances previous,
      (∃ port, item.port = .num port) ∧ item.weight = .undefined := by
  intro item hitem
  rcases List.mem_append.mp hitem with hcurrent | hprevious
  · obtain ⟨port, _, rfl⟩ := List.mem_map.mp hcurrent
    exact ⟨⟨port, rfl⟩, rfl⟩
  · obtain ⟨port, _, rfl⟩ := List.mem_map.mp hprevious
    exact ⟨⟨port, rfl⟩, rfl⟩

/-- What nginx reads in the loop over the instances. -/
theorem eachInstance_rotation (mode : Mode) (current previous : List N) :
    ∃ servers, eachInstance (serverLine mode)
        (.list (portInstances current ++ backupInstances previous)) = .ok servers ∧
      readConf servers = some (serverLines mode current previous) := by
  have hprints : Prints (eachInstance (serverLine mode)
      (.list (portInstances current ++ backupInstances previous))) .start
      (tokensOf (serverLines mode current previous)) .start := by
    rw [← lineDirective_rotation]
    refine eachInstance_prints rfl fun item hitem => ?_
    obtain ⟨hport, hweight⟩ := rotation_plain current previous item hitem
    exact serverLine_prints mode hport hweight
  obtain ⟨servers, hservers, hreads⟩ := hprints
  exact ⟨servers, hservers, readConf_of_reads hreads⟩

/-- The addresses of the server lines without the `backup` parameter. -/
def primaryServers (lines : List Directive) : List Word :=
  lines.filterMap fun
    | .simple (_ :: address :: parameters) =>
        if "backup".toList ∈ parameters then none else some address
    | _ => none

theorem primaryServers_serverLines (mode : Mode) (current previous : List N) :
    primaryServers (serverLines mode current previous) =
      current.map (fun port => instanceAddress (Number.toText port)) ++
        if mode = .http then previous.map fun port => instanceAddress (Number.toText port)
        else [] := by
  rw [primaryServers, serverLines, List.filterMap_append, List.filterMap_map, List.filterMap_map]
  congr 1
  · exact congrFun List.filterMap_eq_map current
  · cases mode with
    | http => exact congrFun List.filterMap_eq_map previous
    | stream => exact List.filterMap_eq_nil_iff.mpr fun _ _ => rfl

/-- The upstream block stands in the text of its application. -/
theorem upstreamBlock_of_appText {mode : Mode} {appName : String} {entry : Entry N}
    {servers piece : Text}
    (hservers : eachInstance (serverLine mode) entry.instances = .ok servers)
    (h : appText mode appName entry = .ok piece) :
    ∃ block, upstreamBlock appName (balanceText mode entry) (.ok servers) = .ok block ∧
      block <:+: piece := by
  rw [← hservers]
  cases mode with
  | http =>
      obtain ⟨block, hblock⟩ := cat_part_ok h
        (upstreamBlock appName (httpBalance entry) (eachInstance httpServer entry.instances))
        (by simp)
      exact ⟨block, hblock, part_isInfix_cat h (by simp [← hblock])⟩
  | stream =>
      obtain ⟨block, hblock⟩ := cat_part_ok h
        (upstreamBlock appName (streamBalance entry) (eachInstance streamServer entry.instances))
        (by simp)
      exact ⟨block, hblock, part_isInfix_cat h (by simp [← hblock])⟩

/-! ## The upstream block of the file -/

/-- The block of the file that a table is rendered in. -/
def modeBlock : Mode → Word
  | .http => "http".toList
  | .stream => "stream".toList

omit [Number N] in
theorem mem_tableDirectives {directives : String → Entry N → List Directive} {table : Table N}
    {appName : String} {entry : Entry N} (hentry : table.get? appName = some entry)
    {directive : Directive} (h : directive ∈ directives appName entry) :
    directive ∈ tableDirectives directives table := by
  have hkey : appName ∈ objectKeys table :=
    mem_objectKeys.mpr ((table.mem_keys_iff appName).mpr ⟨entry, hentry⟩)
  refine List.mem_flatMap.mpr ⟨appName, hkey, ?_⟩
  rw [hentry]
  exact h

/-- The directives of the file have the upstream block of an application of numeric ports in the
block of its table. -/
theorem upstream_mem_directives {conf : Conf N} {mode : Mode} {appName : String}
    {entry : Entry N} (hentry : conf.appEntry mode appName = some entry)
    {items : List (Instance N)} (hinstances : entry.instances = .list items)
    (hweights : ∀ item ∈ items, item.weight = .undefined) :
    ∃ context, .block [modeBlock mode] context ∈ conf.directives ∧
      .block ["upstream".toList, appName.toList]
        (balanceDirectives entry.balance ++ items.map (lineDirective mode)) ∈ context := by
  have hweight : ∀ item ∈ items, weightWords item = [] := by
    intro item hitem
    simp [weightWords, hweights item hitem, Value.truthy]
  cases mode with
  | http =>
      refine ⟨statusDirectives conf.statusPort ++ tableDirectives httpEntryDirectives conf.http,
        http_mem_fileDirectives.mpr rfl, List.mem_append_right _ ?_⟩
      refine mem_tableDirectives hentry ?_
      have hlines : (items.map fun item => serverDirective (instanceAddress (valueWord item.port))
          (weightWords item)) = items.map (lineDirective .http) := by
        refine List.map_congr_left fun item hitem => ?_
        rw [hweight item hitem, lineDirective, backupParameters, ite_self]
      rw [← hlines, httpEntryDirectives, hinstances]
      exact List.mem_cons_of_mem _ List.mem_cons_self
  | stream =>
      have hblock : .block ["upstream".toList, appName.toList]
          (balanceDirectives entry.balance ++ items.map (lineDirective .stream)) ∈
            tableDirectives streamEntryDirectives conf.stream := by
        refine mem_tableDirectives hentry ?_
        have hlines : (items.map fun item => serverDirective
            (instanceAddress (valueWord item.port)) (streamParameters (weightWords item) item)) =
              items.map (lineDirective .stream) := by
          refine List.map_congr_left fun item hitem => ?_
          rw [hweight item hitem, lineDirective, streamParameters, List.nil_append]
          rfl
        rw [← hlines, streamEntryDirectives, hinstances]
        exact List.mem_cons_of_mem _ List.mem_cons_self
      exact ⟨_, stream_mem_fileDirectives _ (List.ne_nil_of_mem hblock) _, hblock⟩

theorem primaryServers_balance (balance : Value N) (lines : List Directive) :
    primaryServers (balanceDirectives balance ++ lines) = primaryServers lines := by
  unfold balanceDirectives
  split
  · rfl
  · rfl

/-- After accepted updates of an application, the primary servers of its upstream
block are exactly the ports of the last update if and only if the application is in
the stream table or the update before it had no ports. For a documented configuration, this is
what nginx reads in the file. -/
theorem hot_swap_iff (conf : Conf N) (mode : Mode) (appName : String)
    (earlier : List (Generation N)) (last : Generation N)
    (habsent : conf.appEntry mode appName = none)
    (haccepted : RunMeets (fun conf call => (call.exec conf).2 = .updating) conf
      ((earlier ++ [last]).map (Generation.call mode appName))) :
    let final := execAll conf ((earlier ++ [last]).map (Generation.call mode appName))
    ∃ entry servers lines, final.appEntry mode appName = some entry ∧
      eachInstance (serverLine mode) entry.instances = .ok servers ∧
      readConf servers = some lines ∧
      (∀ text, render final = .ok text → ∃ block,
        upstreamBlock appName (balanceText mode entry) (.ok servers) = .ok block ∧
          block <:+: text) ∧
      (final.Documented → ∃ text directives context upstream, render final = .ok text ∧
        readConf text = some directives ∧ .block [modeBlock mode] context ∈ directives ∧
        .block ["upstream".toList, appName.toList] upstream ∈ context ∧
        primaryServers upstream = primaryServers lines) ∧
      (primaryServers lines = last.ports.map (fun port => instanceAddress (Number.toText port)) ↔
        mode = .stream ∨ (rotation earlier).1 = []) := by
  intro final
  rw [List.map_append] at haccepted
  obtain ⟨hearlier, hlast⟩ := haccepted.append
  have hstart : InRotation (conf.appEntry mode appName) ([], []) := by
    rw [habsent]
    rfl
  obtain ⟨entry, hentry, hinstances⟩ :=
    accepted_rotates last (accepted_run earlier hstart hearlier) hlast.1
  have hitems : entry.instances =
      .list (portInstances last.ports ++ backupInstances (rotation earlier).1) := hinstances
  obtain ⟨servers, hservers, hread⟩ :=
    eachInstance_rotation mode last.ports (rotation earlier).1
  have hloop : eachInstance (serverLine mode) entry.instances = .ok servers := by
    rw [hitems]
    exact hservers
  have hfinal : final.appEntry mode appName = some entry := by
    simp only [final, List.map_append, execAll_append]
    exact hentry
  refine ⟨entry, servers, _, hfinal, hloop, hread, ?_, ?_, ?_⟩
  · intro text htext
    obtain ⟨piece, hpiece, hinfix⟩ := appText_of_render htext hfinal
    obtain ⟨block, hblock, hin⟩ := upstreamBlock_of_appText hloop hpiece
    exact ⟨block, hblock, hin.trans hinfix⟩
  · intro hdocumented
    obtain ⟨text, hrender, hdirectives⟩ := hdocumented.readConf
    obtain ⟨context, hcontext, hupstream⟩ :=
      upstream_mem_directives hfinal hitems fun item hitem =>
        (rotation_plain last.ports (rotation earlier).1 item hitem).2
    refine ⟨text, _, context, _, hrender, hdirectives, hcontext, hupstream, ?_⟩
    rw [primaryServers_balance, lineDirective_rotation]
  -- a backup line of the http template lacks the word `backup`, so it reads as a primary
  · rw [primaryServers_serverLines]
    cases mode with
    | http => simp
    | stream => simp

/-- Two updates of one application. -/
def twoGenerations : List (Generation Int) :=
  [{ ports := [8001], inPort := .num 80 }, { ports := [8002, 8003], inPort := .num 80 }]

theorem twoGenerations_documented :
    (execAll emptyConf (twoGenerations.map (Generation.call .stream "web"))).Documented := by
  have hconf : execAll emptyConf (twoGenerations.map (Generation.call .stream "web")) =
      emptyConf.put .stream "web"
        { port := .num 80, balance := .str "round_robin",
          instances := .list (portInstances [8002, 8003] ++ backupInstances [8001]) } := rfl
  have hempty : emptyConf.Documented :=
    Conf.initial_documented (Or.inl rfl) (Or.inl rfl)
  rw [hconf]
  refine hempty.put .stream (by decide) ⟨⟨80, rfl⟩, ⟨_, rfl, by decide⟩, ⟨_, rfl, ?_⟩, rfl, rfl⟩
  intro item hitem
  obtain ⟨hport, hweight⟩ := rotation_plain _ _ item hitem
  exact ⟨hport, Or.inl hweight⟩

theorem hot_swap_stream :
    ∃ text directives context upstream,
      render (execAll emptyConf (twoGenerations.map (Generation.call .stream "web"))) = .ok text ∧
      readConf text = some directives ∧ .block ["stream".toList] context ∈ directives ∧
      .block ["upstream".toList, "web".toList] upstream ∈ context ∧
      primaryServers upstream =
        [instanceAddress "8002".toList, instanceAddress "8003".toList] := by
  obtain ⟨entry, servers, lines, hentry, hservers, hread, -, hfile, hiff⟩ :=
    hot_swap_iff emptyConf .stream "web" [{ ports := [8001], inPort := .num 80 }]
      { ports := [8002, 8003], inPort := .num 80 } rfl ⟨rfl, rfl, trivial⟩
  obtain ⟨text, directives, context, upstream, hrender, hdirectives, hcontext, hupstream, hsame⟩ :=
    hfile twoGenerations_documented
  exact ⟨text, directives, context, upstream, hrender, hdirectives, hcontext, hupstream,
    hsame.trans (hiff.mpr (Or.inl rfl))⟩

/-- In the http table the port of the first update is still a primary server. -/
theorem http_swap_keeps_rotation :
    RunMeets (fun conf call => (call.exec conf).2 = .updating) emptyConf
      (twoGenerations.map (Generation.call .http "web")) ∧
    ∃ entry servers lines,
      (execAll emptyConf (twoGenerations.map (Generation.call .http "web"))).appEntry
        .http "web" = some entry ∧
      eachInstance httpServer entry.instances = .ok servers ∧
      readConf servers = some lines ∧
      primaryServers lines = [instanceAddress "8002".toList, instanceAddress "8003".toList,
        instanceAddress "8001".toList] := by
  refine ⟨⟨rfl, rfl, trivial⟩, ?_⟩
  obtain ⟨servers, hservers, hread⟩ := eachInstance_rotation .http [(8002 : Int), 8003] [8001]
  exact ⟨_, servers, _, rfl, hservers, hread,
    primaryServers_serverLines .http [(8002 : Int), 8003] [8001]⟩

end NginxInterface
