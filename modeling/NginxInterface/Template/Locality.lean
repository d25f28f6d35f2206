import NginxInterface.Template.Render

/-! # What one application contributes to the file

The template renders each application by itself. Two configurations that differ in
one entry render alike if the entry renders alike, and otherwise the lengths of the
two files differ by the difference in that entry.
-/

namespace NginxInterface

open Foundation Js Ejs

variable {N : Type}

/-! ## The loop over the applications -/

theorem objectKeys_set (table : Table N) (appKey : String) (first second : Entry N) :
    objectKeys (table.set appKey first) = objectKeys (table.set appKey second) := by
  unfold objectKeys
  by_cases hmem : appKey ∈ table.keys
  · rw [PropertyTable.keys_set_of_mem _ _ hmem, PropertyTable.keys_set_of_mem _ _ hmem]
  · rw [PropertyTable.keys_set_of_not_mem _ _ hmem, PropertyTable.keys_set_of_not_mem _ _ hmem]

theorem atKey_set_self (body : String → Entry N → Except Fault Text) (table : Table N)
    (appKey : String) (entry : Entry N) :
    atKey body (table.set appKey entry) appKey = body appKey entry := by
  rw [atKey, PropertyTable.get?_set_self]

theorem atKey_set_of_ne (body : String → Entry N → Except Fault Text) (table : Table N)
    {appKey key : String} (entry : Entry N) (hne : key ≠ appKey) :
    atKey body (table.set appKey entry) key = atKey body table key := by
  rw [atKey, PropertyTable.get?_set_of_ne _ _ hne, atKey]

/-- Entries with the same rendering are interchangeable in a table. -/
theorem eachApp_set_congr {body : String → Entry N → Except Fault Text} {appKey : String}
    {first second : Entry N} (table : Table N) (h : body appKey first = body appKey second) :
    eachApp body (table.set appKey first) = eachApp body (table.set appKey second) := by
  unfold eachApp
  rw [objectKeys_set table appKey first second]
  congr 2
  funext key
  by_cases hkey : key = appKey
  · subst hkey
    rw [atKey_set_self, atKey_set_self, h]
  · rw [atKey_set_of_ne _ _ _ hkey, atKey_set_of_ne _ _ _ hkey]

/-- Another entry for one application shifts the output of the loop as it shifts
the rendering of the application. -/
theorem eachApp_shifts {body : String → Entry N → Except Fault Text} {appKey : String}
    {first second : Entry N} {old new : Nat} (table : Table N)
    (h : Shifts old new (body appKey first) (body appKey second)) :
    Shifts old new (eachApp body (table.set appKey first))
      (eachApp body (table.set appKey second)) := by
  have hmem : appKey ∈ objectKeys (table.set appKey first) := by
    rw [mem_objectKeys, PropertyTable.mem_keys_iff]
    exact ⟨first, PropertyTable.get?_set_self _ _ _⟩
  obtain ⟨before, after, hkeys⟩ := List.append_of_mem hmem
  have hnodup := objectKeys_nodup (table.set appKey first)
  rw [hkeys, List.nodup_middle, List.nodup_cons, List.mem_append, not_or] at hnodup
  obtain ⟨⟨hbefore, hafter⟩, _⟩ := hnodup
  have hsame : ∀ keys : List String, appKey ∉ keys → ∀ entry : Entry N,
      keys.map (atKey body (table.set appKey entry)) = keys.map (atKey body table) := by
    intro keys hkeys entry
    refine List.map_congr_left fun key hkey => ?_
    exact atKey_set_of_ne body table entry fun heq => hkeys (heq ▸ hkey)
  unfold eachApp
  rw [objectKeys_set table appKey second first, hkeys, List.map_append, List.map_append,
    List.map_cons, List.map_cons, hsame before hbefore, hsame before hbefore,
    hsame after hafter, hsame after hafter, atKey_set_self, atKey_set_self]
  exact h.cat _ _

theorem upstreamBlock_shifts (appKey : String) (servers : Except Fault Text)
    {first second : Except Fault Text} {old new : Nat} (h : Shifts old new first second) :
    Shifts old new (upstreamBlock appKey first servers) (upstreamBlock appKey second servers) :=
  h.cat [_, _, _] [_, _, _]

/-! ## The whole file -/

variable [Number N]

/-- The part of the template that renders one application of a table. -/
def appText : Mode → String → Entry N → Except Fault Text
  | .http => httpApp
  | .stream => streamApp

omit [Number N] in
theorem objectKeys_set_pos (table : Table N) (appKey : String) (entry : Entry N) :
    (objectKeys (table.set appKey entry)).length > 0 := by
  refine List.length_pos_of_mem (a := appKey) ?_
  rw [mem_objectKeys, PropertyTable.mem_keys_iff]
  exact ⟨entry, PropertyTable.get?_set_self _ _ _⟩

theorem streamBlock_set (table : Table N) (appKey : String) (entry : Entry N) :
    streamBlock (table.set appKey entry) = cat [
      .ok (segment .slurp "\nstream \x7b\n   " .slurp),
      eachApp streamApp (table.set appKey entry),
      .ok (segment .plain "\n\x7d\n" .slurp)] := by
  rw [streamBlock, if_pos (objectKeys_set_pos table appKey entry)]

theorem httpApps_set (table : Table N) (appKey : String) (entry : Entry N) :
    httpApps (table.set appKey entry) = cat [
      .ok (segment .slurp "\n   " .slurp),
      eachApp httpApp (table.set appKey entry),
      .ok (segment .plain "\n  " .slurp)] := by
  rw [httpApps, if_pos (objectKeys_set_pos table appKey entry)]

/-- Entries that render alike are interchangeable in a configuration. -/
theorem render_put_congr (conf : Conf N) {mode : Mode} {appName : String}
    {first second : Entry N} (h : appText mode appName first = appText mode appName second) :
    render (conf.put mode appName first) = render (conf.put mode appName second) := by
  cases mode with
  | http =>
      have happs : httpApps (conf.http.set appName first) =
          httpApps (conf.http.set appName second) := by
        have hloop : eachApp httpApp _ = eachApp httpApp _ := eachApp_set_congr conf.http h
        rw [httpApps_set, httpApps_set, hloop]
      simp only [render, Conf.put, Conf.setTable, Conf.table, happs]
  | stream =>
      have hblock : streamBlock (conf.stream.set appName first) =
          streamBlock (conf.stream.set appName second) := by
        have hloop : eachApp streamApp _ = eachApp streamApp _ := eachApp_set_congr conf.stream h
        rw [streamBlock_set, streamBlock_set, hloop]
      simp only [render, Conf.put, Conf.setTable, Conf.table, hblock]

/-- Another entry shifts the file as it shifts the rendering of the entry. -/
theorem render_put_shifts (conf : Conf N) {mode : Mode} {appName : String}
    {first second : Entry N} {old new : Nat}
    (h : Shifts old new (appText mode appName first) (appText mode appName second)) :
    Shifts old new (render (conf.put mode appName first))
      (render (conf.put mode appName second)) := by
  cases mode with
  | http =>
      have happs : Shifts old new (httpApps (conf.http.set appName first))
          (httpApps (conf.http.set appName second)) := by
        rw [httpApps_set, httpApps_set]
        exact (eachApp_shifts conf.http h).cat [_] [_]
      exact happs.cat [_, _, _, _, _, _, _, _] [_]
  | stream =>
      have hblock : Shifts old new (streamBlock (conf.stream.set appName first))
          (streamBlock (conf.stream.set appName second)) := by
        rw [streamBlock_set, streamBlock_set]
        exact (eachApp_shifts conf.stream h).cat [_] [_]
      exact hblock.cat [_, _, _, _] [_, _, _, _, _]

/-- No rendering is empty. -/
theorem render_ne_nil {conf : Conf N} {text : Text} (h : render conf = .ok text) : text ≠ [] := by
  obtain ⟨head, tail, hhead, _, rfl⟩ := cat_cons_eq_ok h
  cases hhead
  exact List.append_ne_nil_of_left_ne_nil (by decide) tail

/-- Configurations that differ in the http table alone shift as its rendering does. -/
theorem render_http_shifts {conf : Conf N} {http : Table N} {old new : Nat}
    (h : Shifts old new (httpApps conf.http) (httpApps http)) :
    Shifts old new (render conf) (render { conf with http := http }) :=
  h.cat [_, _, _, _, _, _, _, _] [_]

/-- Each application of a configuration that renders does so by itself, and its text
stands in the file. -/
theorem appText_of_render {conf : Conf N} {text : Text} (h : render conf = .ok text)
    {mode : Mode} {appName : String} {entry : Entry N}
    (hentry : conf.appEntry mode appName = some entry) :
    ∃ piece, appText mode appName entry = .ok piece ∧ piece <:+: text := by
  have hkey : ∀ table : Table N, table.get? appName = some entry →
      appName ∈ objectKeys table := fun table htable =>
    mem_objectKeys.mpr ((table.mem_keys_iff appName).mpr ⟨entry, htable⟩)
  -- both loops of the template print one piece for each key, whatever their body is
  have hloop : ∀ (body : String → Entry N → Except Fault Text) (table : Table N) (apps : Text),
      table.get? appName = some entry → eachApp body table = .ok apps →
      ∃ piece, body appName entry = .ok piece ∧ piece <:+: apps := by
    intro body table apps htable happs
    have hmem : atKey body table appName ∈ (objectKeys table).map (atKey body table) :=
      List.mem_map_of_mem (hkey table htable)
    obtain ⟨piece, hpiece⟩ := cat_part_ok happs _ hmem
    rw [hpiece] at hmem
    rw [atKey, htable] at hpiece
    exact ⟨piece, hpiece, part_isInfix_cat happs hmem⟩
  cases mode with
  | http =>
      obtain ⟨block, hblock⟩ := cat_part_ok h (httpApps conf.http) (by simp)
      have hinfix : block <:+: text := part_isInfix_cat h (by simp [← hblock])
      rw [httpApps, if_pos (List.length_pos_of_mem (hkey conf.http hentry))] at hblock
      obtain ⟨apps, happs⟩ := cat_part_ok hblock (eachApp httpApp conf.http) (by simp)
      obtain ⟨piece, hpiece, hin⟩ := hloop httpApp conf.http apps hentry happs
      exact ⟨piece, hpiece, (hin.trans (part_isInfix_cat hblock (by simp [← happs]))).trans hinfix⟩
  | stream =>
      obtain ⟨block, hblock⟩ := cat_part_ok h (streamBlock conf.stream) (by simp)
      have hinfix : block <:+: text := part_isInfix_cat h (by simp [← hblock])
      rw [streamBlock, if_pos (List.length_pos_of_mem (hkey conf.stream hentry))] at hblock
      obtain ⟨apps, happs⟩ := cat_part_ok hblock (eachApp streamApp conf.stream) (by simp)
      obtain ⟨piece, hpiece, hin⟩ := hloop streamApp conf.stream apps hentry happs
      exact ⟨piece, hpiece, (hin.trans (part_isInfix_cat hblock (by simp [← happs]))).trans hinfix⟩

end NginxInterface
