import NginxInterface.Routing.Stores

/-! # Ports that are numbers or strings

Ports are compared with `==`, which converts a string to a number when the other
side is one. Two strings that spell the same number are not equal to each other, so
an application can have both of them, and a deletion that names the number matches
both. If they are neighbours, the deletion loop passes over the second one.
-/

namespace NginxInterface

open Foundation Js

variable {N : Type} [Number N]

/-! ## Comparing plain ports -/

/-- A number or a string. -/
def Js.Value.Plain (value : Value N) : Prop := (∃ n, value = .num n) ∨ ∃ s, value = .str s

/-- `item.port == port`. -/
def portMatches (port : Value N) (item : Instance N) : Bool :=
  match item.port.looseEq port with
  | .ok same => same
  | .error _ => false

theorem Js.Value.Plain.printable {value : Value N} (h : value.Plain) :
    value.printable = true := by
  rcases h with ⟨n, rfl⟩ | ⟨s, rfl⟩ <;> rfl

theorem looseEq_of_plain {port : Value N} {item : Instance N} (hport : port.Plain)
    (hitem : item.port.Plain) : item.port.looseEq port = .ok (portMatches port item) := by
  obtain ⟨same, hsame⟩ := Value.looseEq_of_printable hitem.printable hport.printable
  rw [portMatches, hsame]

@[simp] theorem looseEq_num_str (n : N) (s : String) :
    (Value.num n).looseEq (.str s) = .ok (decide (Number.ofText s.toList = some n)) := rfl

@[simp] theorem looseEq_str_num (s : String) (n : N) :
    (Value.str s).looseEq (.num n) = .ok (decide (Number.ofText s.toList = some n)) := rfl

/-- Two ports that equal a third one and not each other are strings, and the third one is
the number that both of them spell. -/
theorem spellings_of_matches {left right port : Value N} (hleft : left.Plain)
    (hright : right.Plain) (hport : port.Plain) (hdiffer : left.looseEq right = .ok false)
    (hleftMatch : left.looseEq port = .ok true) (hrightMatch : right.looseEq port = .ok true) :
    ∃ n s t, port = .num n ∧ left = .str s ∧ right = .str t ∧
      Number.ofText s.toList = some n ∧ Number.ofText t.toList = some n := by
  -- in every other case the two that match the port match each other
  rcases hport with ⟨n, rfl⟩ | ⟨u, rfl⟩ <;> rcases hleft with ⟨m, rfl⟩ | ⟨s, rfl⟩ <;>
    rcases hright with ⟨k, rfl⟩ | ⟨t, rfl⟩ <;>
    simp only [Value.looseEq_num, Value.looseEq_str, looseEq_num_str, looseEq_str_num,
      Except.ok.injEq, decide_eq_true_eq, decide_eq_false_iff_not] at hdiffer hleftMatch hrightMatch
  case inl.inr.inr => exact ⟨n, s, t, rfl, rfl, rfl, hleftMatch, hrightMatch⟩
  all_goals simp_all

/-! ## States reached by additions and deletions -/

/-- An addition to the http table or a deletion, with a plain port. -/
def Call.PlainHttp : Call N → Prop
  | .addPortRouting _ opts => opts.mode.getD .http = .http ∧ opts.outPort.Plain
  | .deletePortRouting _ port => port.Plain
  | .addOrUpdateAppRouting _ _ => False

/-- The instances of an entry have plain ports, no two of which are equal. -/
def Entry.Unequal (entry : Entry N) : Prop :=
  ∃ items, entry.instances = .list items ∧ (∀ item ∈ items, item.port.Plain) ∧
    items.Pairwise fun left right => left.port.looseEq right.port = .ok false

theorem Entry.Unequal.append {own : Entry N} {items : List (Instance N)} {port : Value N}
    (h : own.Unequal) (hitems : own.instances = .list items) (hport : port.Plain)
    (hfresh : portUsed port false items = .ok false) :
    ({ own with instances := .list (items ++ [{ port := port }]) } : Entry N).Unequal := by
  obtain ⟨found, hfound, hplain, hdiffer⟩ := h
  rw [hitems, Instances.list.injEq] at hfound
  subst hfound
  obtain ⟨hcompared, -, hmatch⟩ := portUsed_eq_ok_iff.mp hfresh
  refine ⟨_, rfl, ?_, List.pairwise_append.mpr ⟨hdiffer, List.pairwise_singleton _ _, ?_⟩⟩
  · intro item hitem
    rcases List.mem_append.mp hitem with hold | hnew
    · exact hplain item hold
    · rw [List.mem_singleton.mp hnew]
      exact hport
  · intro item hitem new hnew
    rw [List.mem_singleton.mp hnew]
    obtain ⟨same, hsame⟩ := hcompared item hitem
    cases same with
    | false => exact hsame
    | true => exact absurd (hmatch.mpr (Or.inr ⟨item, hitem, hsame⟩)) (by simp)

theorem Call.PlainHttp.change_unequal {call : Call N} (hcall : call.PlainHttp) {found : Found N}
    (hown : ∀ own, found = .own own → own.Unequal) {entry : Entry N}
    (h : (call.change found).1 = .store entry) : entry.Unequal := by
  cases call with
  | addOrUpdateAppRouting appName arg => exact hcall.elim
  | deletePortRouting appName port =>
      obtain ⟨own, items, kept, hfound, hitems, hkept, rfl⟩ := deletePortChange_store h
      obtain ⟨olds, holds, hplain, hdiffer⟩ := hown own hfound
      rw [hitems, Instances.list.injEq] at holds
      subst holds
      exact ⟨kept, rfl, fun item hitem => hplain item (hkept.subset hitem), hdiffer.sublist hkept⟩
  | addPortRouting appName opts =>
      rcases addPortChange_store h with
        ⟨-, rfl | ⟨-, rfl⟩⟩ | ⟨own, items, hfound, hitems, hunused, -, rfl⟩
      · exact ⟨[], rfl, by simp, List.Pairwise.nil⟩
      · exact ⟨_, rfl, by simpa using hcall.2, List.pairwise_singleton _ _⟩
      · exact (hown own hfound).append hitems hcall.2 hunused

theorem execAll_unequal {conf : Conf N} {calls : List (Call N)}
    (hcalls : ∀ call ∈ calls, call.PlainHttp) (hconf : conf.Every Entry.Unequal) :
    (execAll conf calls).Every Entry.Unequal := by
  induction calls generalizing conf with
  | nil => exact hconf
  | cons call rest ih =>
      rw [execAll_cons, Call.exec_eq]
      have hcall := hcalls call List.mem_cons_self
      exact ih (fun other hother => hcalls other (List.mem_cons_of_mem _ hother))
        (hconf.change _ _ fun entry hstore =>
          hcall.change_unequal (fun own hown => hconf.of_lookup hown) hstore)

theorem Conf.Every.items_unequal {conf : Conf N} (h : conf.Every Entry.Unequal) (mode : Mode)
    (appName : String) :
    (∀ item ∈ conf.items mode appName, item.port.Plain) ∧
      (conf.items mode appName).Pairwise fun left right =>
        left.port.looseEq right.port = .ok false := by
  cases hentry : conf.appEntry mode appName with
  | none => simp [Conf.items_of_none hentry]
  | some entry =>
      obtain ⟨items, hitems, hparts⟩ := h mode appName entry hentry
      rw [Conf.items_of_list hentry hitems]
      exact hparts

/-! ## What a deletion leaves -/

/-- The deletion of a port from the http table removes the instances that equal it and
nothing else, and it removes the application with its last instance. -/
def Deletes (conf : Conf N) (appName : String) (port : Value N) : Prop :=
  let after := (deletePortRouting conf appName port).1
  let kept := (conf.items .http appName).filter fun item => !portMatches port item
  after.items .http appName = kept ∧ (after.appEntry .http appName = none ↔ kept = [])

/-- The loop in terms of the instances before and after. -/
theorem deletePortRouting_items {conf : Conf N} (hconf : conf.Every Entry.Unequal)
    (appName : String) {port : Value N} (hport : port.Plain) :
    let after := (deletePortRouting conf appName port).1
    let left := eraseSkipping (portMatches port) (conf.items .http appName)
    after.items .http appName = left ∧ (after.appEntry .http appName = none ↔ left = []) := by
  intro after left
  have hafter : after.appEntry .http appName =
      (deletePortChange port (conf.lookup .http appName)).1.apply
        (conf.appEntry .http appName) := by
    simp only [after, deletePortRouting_eq]
    exact Conf.appEntry_change_self conf .http appName _
  cases hentry : conf.appEntry .http appName with
  | none =>
      have hkeep : (deletePortChange port (conf.lookup .http appName)).1 = .keep := by
        cases hlookup : conf.lookup .http appName with
        | own entry => simp [(conf.lookup_eq_own_iff .http appName entry).mp hlookup] at hentry
        | inherited => rfl
        | absent => rfl
      have hleft : left = [] := by
        simp only [left, Conf.items_of_none hentry]
        rfl
      rw [hkeep, hentry] at hafter
      rw [hleft]
      exact ⟨Conf.items_of_none hafter, iff_of_true hafter rfl⟩
  | some entry =>
      obtain ⟨items, hitems, hplain, -⟩ := hconf .http appName entry hentry
      have hleft : left = eraseSkipping (portMatches port) items := by
        simp only [left, Conf.items_of_list hentry hitems]
      have hloop : removeSkipping (fun item => item.port.looseEq port) items = (left, .ok ()) := by
        rw [hleft]
        exact removeSkipping_eq_eraseSkipping _ _ _ fun item hitem =>
          looseEq_of_plain hport (hplain item hitem)
      rw [Conf.lookup_of_appEntry hentry] at hafter
      simp only [deletePortChange, hitems, hloop] at hafter
      by_cases hempty : left = []
      · rw [if_pos hempty] at hafter
        rw [hempty]
        exact ⟨Conf.items_of_none hafter, iff_of_true hafter rfl⟩
      · rw [if_neg hempty] at hafter
        refine ⟨Conf.items_of_list hafter rfl, iff_of_false ?_ hempty⟩
        rw [hafter]
        rintro ⟨⟩

/-- Two neighbouring instances have strings for ports that both spell the number. -/
def AdjacentSpellings (items : List (Instance N)) (port : Value N) : Prop :=
  ∃ n before left right after s t, port = .num n ∧ items = before ++ left :: right :: after ∧
    left.port = .str s ∧ right.port = .str t ∧
    Number.ofText s.toList = some n ∧ Number.ofText t.toList = some n

theorem adjacentSpellings_iff {items : List (Instance N)} {port : Value N}
    (hplain : ∀ item ∈ items, item.port.Plain)
    (hdiffer : items.Pairwise fun left right => left.port.looseEq right.port = .ok false)
    (hport : port.Plain) :
    AdjacentSpellings items port ↔ ¬items.IsChain fun left right =>
      ¬(portMatches port left = true ∧ portMatches port right = true) := by
  rw [List.isChain_iff_forall_rel_of_append_cons_cons]
  constructor
  · rintro ⟨n, before, left, right, after, s, t, rfl, rfl, hleft, hright, hs, ht⟩ hchain
    refine hchain rfl ⟨?_, ?_⟩
    · simp [portMatches, hleft, hs]
    · simp [portMatches, hright, ht]
  · intro hchain
    simp only [not_forall, not_not] at hchain
    obtain ⟨left, right, before, after, rfl, hleft, hright⟩ := hchain
    have hleftPlain : left.port.Plain := hplain left (by simp)
    have hrightPlain : right.port.Plain := hplain right (by simp)
    have hpair : left.port.looseEq right.port = .ok false := by
      have hsuffix := hdiffer.sublist (List.sublist_append_right before (left :: right :: after))
      exact (List.pairwise_cons.mp hsuffix).1 right (by simp)
    obtain ⟨n, s, t, rfl, hs, ht, hsText, htText⟩ := spellings_of_matches hleftPlain hrightPlain
      hport hpair (by rw [looseEq_of_plain hport hleftPlain, hleft])
      (by rw [looseEq_of_plain hport hrightPlain, hright])
    exact ⟨n, before, left, right, after, s, t, rfl, rfl, hs, ht, hsText, htText⟩

/-- In every state reached by additions to the http table and deletions with numbers or
strings for ports, the deletion of a port does what it should exactly if the port is not
a number that two neighbouring instances spell as strings. -/
theorem deletes_iff (debugMode statusPort : Value N) (calls : List (Call N))
    (hcalls : ∀ call ∈ calls, call.PlainHttp) (appName : String) (port : Value N)
    (hport : port.Plain) :
    let conf := execAll (.initial debugMode statusPort) calls
    Deletes conf appName port ↔ ¬AdjacentSpellings (conf.items .http appName) port := by
  intro conf
  have hconf : conf.Every Entry.Unequal :=
    execAll_unequal hcalls (Conf.Every.initial debugMode statusPort)
  obtain ⟨hitems, habsent⟩ := deletePortRouting_items hconf appName hport
  obtain ⟨hplain, hdiffer⟩ := hconf.items_unequal .http appName
  rw [adjacentSpellings_iff hplain hdiffer hport, not_not, ← eraseSkipping_eq_filter_iff]
  constructor
  · intro hdeletes
    exact hitems.symm.trans hdeletes.1
  · intro hfilter
    refine ⟨hitems.trans hfilter, ?_⟩
    rw [← hfilter]
    exact habsent

/-- The addition of one port to an application, in the default mode. -/
def addPort (port : Value Int) : Call Int :=
  .addPortRouting "web" { inPort := .num 80, outPort := port }

/-- Two spellings of one number with another port between them. -/
theorem deletes_apart :
    Deletes (execAll emptyConf [addPort (.str "80"), addPort (.num 81), addPort (.str "080")])
      "web" (.num 80) := by
  refine (deletes_iff .undefined .undefined
    [addPort (.str "80"), addPort (.num 81), addPort (.str "080")] ?_ "web" (.num 80)
    (Or.inl ⟨80, rfl⟩)).mpr ?_
  · intro call hcall
    simp only [List.mem_cons, List.not_mem_nil, or_false] at hcall
    rcases hcall with rfl | rfl | rfl
    · exact ⟨rfl, Or.inr ⟨_, rfl⟩⟩
    · exact ⟨rfl, Or.inl ⟨_, rfl⟩⟩
    · exact ⟨rfl, Or.inr ⟨_, rfl⟩⟩
  · rintro ⟨n, before, left, right, after, s, t, -, hitems, hleft, hright, -⟩
    have hlist : [{ port := .str "80" }, { port := .num 81 }, { port := .str "080" }] =
        before ++ left :: right :: after := hitems
    rcases before with _ | ⟨first, _ | ⟨second, rest⟩⟩
    · cases hlist
      cases hright
    · cases hlist
      cases hleft
    · have hlength := congrArg List.length hlist
      simp only [List.length_append, List.length_cons, List.length_nil] at hlength
      omega

/-- After the deletion of 80 the application still has the second of its two spellings. -/
theorem second_spelling_left :
    ¬Deletes (execAll emptyConf [addPort (.str "80"), addPort (.str "080")]) "web" (.num 80) := by
  rintro ⟨hitems, -⟩
  cases hitems

end NginxInterface
