import NginxInterface.Routing.Stores

/-! # Which calls throw

An exception leaves the caller without an answer. The conditions under which an addition
or a deletion throws are stated on the entry that it finds. Converting a value to text is
the only thing in them that can go wrong besides an entry without a list of instances.
-/

namespace NginxInterface

open Foundation Js

variable {N : Type} [Number N]

/-- What a look-up finds under a name that is not inherited. -/
def Found.of : Option (Entry N) → Found N
  | none => .absent
  | some entry => .own entry

/-- Nothing in the addition of a port to an entry, or to a new one, throws: the port can be
printed and compared with the ports that are there, and the line about the new port can be
printed unless the port is there already. -/
def CanAddTo (entry : Option (Entry N)) (inPort outPort : Value N) : Prop :=
  outPort.printable = true ∧
    match entry with
    | none => inPort.printable = true
    | some entry => ∃ items, entry.instances = .list items ∧
        (∀ item ∈ items, ∃ same, item.port.looseEq outPort = .ok same) ∧
        (inPort.printable = true ∨ ∃ item ∈ items, item.port.looseEq outPort = .ok true)

/-- Nothing in the deletion of a port throws. -/
def Conf.CanDelete (conf : Conf N) (appName : String) (port : Value N) : Prop :=
  match conf.appEntry .http appName with
  | none => True
  | some entry => ∃ items, entry.instances = .list items ∧
      (removeSkipping (fun item => item.port.looseEq port) items).2 = .ok ()

def Outcome.isThrow : Outcome → Bool
  | .threw _ => true
  | _ => false

theorem portUsed_ok {outPort : Value N} {items : List (Instance N)}
    (hcompared : ∀ item ∈ items, ∃ same, item.port.looseEq outPort = .ok same)
    (hprintable : outPort.printable = true) : ∃ used, portUsed outPort false items = .ok used := by
  by_cases hmatch : ∃ item ∈ items, item.port.looseEq outPort = .ok true
  · exact ⟨true, portUsed_eq_ok_iff.mpr ⟨hcompared, fun _ => hprintable, by simpa using hmatch⟩⟩
  · exact ⟨false, portUsed_eq_ok_iff.mpr ⟨hcompared, fun _ => hprintable, by simpa using hmatch⟩⟩

theorem addPortChange_isThrow_iff (appName : String) (opts : Opts N) (entry : Option (Entry N)) :
    (addPortChange appName opts (.of entry)).2.isThrow = false ↔
      CanAddTo entry opts.inPort opts.outPort := by
  unfold CanAddTo
  cases entry with
  | none =>
      simp only [Found.of, addPortChange]
      cases hforward : forwardMessage opts.inPort opts.outPort appName with
      | error fault =>
          refine iff_of_false (by simp [Outcome.isThrow]) ?_
          rintro ⟨hout, hin⟩
          exact forwardMessage_error hforward hin hout
      | ok message =>
          obtain ⟨hin, hout⟩ := forwardMessage_printable hforward
          exact iff_of_true rfl ⟨hout, hin⟩
  | some entry =>
      cases hinstances : entry.instances with
      | other value => simp [Found.of, addPortChange, hinstances, Outcome.isThrow]
      | list items =>
          simp only [Found.of, addPortChange, hinstances, Instances.list.injEq, exists_eq_left']
          cases hused : portUsed opts.outPort false items with
          | error fault =>
              refine iff_of_false (by simp [Outcome.isThrow]) ?_
              rintro ⟨hprintable, hcompared, -⟩
              obtain ⟨used, hok⟩ := portUsed_ok hcompared hprintable
              rw [hok] at hused
              cases hused
          | ok used =>
              obtain ⟨hcompared, hprintable, hmatch⟩ := portUsed_eq_ok_iff.mp hused
              cases used with
              | true =>
                  have hfound := (hmatch.mp rfl).resolve_left (by simp)
                  exact iff_of_true rfl ⟨hprintable hfound, hcompared, Or.inr hfound⟩
              | false =>
                  have hfresh := fun hfound => Bool.false_ne_true (hmatch.mpr (Or.inr hfound))
                  cases hforward : forwardMessage opts.inPort opts.outPort appName with
                  | error fault =>
                      refine iff_of_false (by simp [Outcome.isThrow]) ?_
                      rintro ⟨hout, -, hin | hfound⟩
                      · exact forwardMessage_error hforward hin hout
                      · exact hfresh hfound
                  | ok message =>
                      obtain ⟨hin, hout⟩ := forwardMessage_printable hforward
                      exact iff_of_true rfl ⟨hout, hcompared, Or.inl hin⟩

omit [Number N] in
theorem Conf.lookup_eq_of (conf : Conf N) (mode : Mode) {appName : String}
    (hname : appName ∉ objectPrototypeNames) :
    conf.lookup mode appName = .of (conf.appEntry mode appName) := by
  cases hentry : conf.appEntry mode appName with
  | none => exact (conf.lookup_eq_absent_iff mode appName).mpr ⟨hentry, hname⟩
  | some entry => exact Conf.lookup_of_appEntry hentry

theorem addPortRouting_isThrow_iff {conf : Conf N} {appName : String} {opts : Opts N}
    (hname : appName ∉ objectPrototypeNames) :
    (addPortRouting conf appName opts).2.isThrow = false ↔
      CanAddTo (conf.appEntry (opts.mode.getD .http) appName) opts.inPort opts.outPort := by
  rw [addPortRouting_eq, conf.lookup_eq_of _ hname]
  exact addPortChange_isThrow_iff appName opts _

theorem deletePortRouting_isThrow_iff {conf : Conf N} {appName : String} {port : Value N}
    (hname : appName ∉ objectPrototypeNames) :
    (deletePortRouting conf appName port).2.isThrow = false ↔ conf.CanDelete appName port := by
  rw [deletePortRouting_eq]
  unfold Conf.CanDelete
  cases hentry : conf.appEntry .http appName with
  | none =>
      rw [(conf.lookup_eq_absent_iff .http appName).mpr ⟨hentry, hname⟩]
      exact iff_of_true rfl trivial
  | some entry =>
      rw [Conf.lookup_of_appEntry hentry]
      cases hinstances : entry.instances with
      | other value => simp [deletePortChange, hinstances, Outcome.isThrow]
      | list items =>
          simp only [deletePortChange, hinstances, Instances.list.injEq, exists_eq_left']
          cases (removeSkipping (fun item => item.port.looseEq port) items).2 with
          | error fault => simp [Outcome.isThrow]
          | ok _ =>
              refine iff_of_true ?_ rfl
              dsimp only
              split <;> rfl

theorem addPortChange_outcome {appName : String} {opts : Opts N} {found : Found N}
    (h : (addPortChange appName opts found).2.isThrow = false) :
    (addPortChange appName opts found).2 = .updating := by
  cases found <;> simp only [addPortChange] at h ⊢ <;> repeat' split at h
  all_goals first | rfl | cases h

theorem addPortRouting_outcome {conf : Conf N} {appName : String} {opts : Opts N}
    (h : (addPortRouting conf appName opts).2.isThrow = false) :
    (addPortRouting conf appName opts).2 = .updating := by
  rw [addPortRouting_eq] at h ⊢
  exact addPortChange_outcome h

theorem deletePortRouting_outcome {conf : Conf N} {appName : String} {port : Value N}
    (h : (deletePortRouting conf appName port).2.isThrow = false) :
    (conf.lookup .http appName = .absent ∧
        (deletePortRouting conf appName port).2 = .deferred unknownApplication) ∨
      (conf.lookup .http appName ≠ .absent ∧
        (deletePortRouting conf appName port).2 = .updating) := by
  rw [deletePortRouting_eq] at h ⊢
  cases hfound : conf.lookup .http appName with
  | absent => exact Or.inl ⟨rfl, rfl⟩
  | inherited =>
      rw [hfound] at h
      cases h
  | own entry =>
      refine Or.inr ⟨by simp, ?_⟩
      rw [hfound] at h
      simp only [deletePortChange] at h ⊢
      split at h
      · cases h
      · split at h
        · cases h
        · split <;> rfl

/-! ## Names of `Object.prototype` -/

/-- No table has an own entry under a name of `Object.prototype`. -/
def Conf.Unshadowed (conf : Conf N) : Prop :=
  ∀ mode, ∀ appName ∈ objectPrototypeNames, conf.appEntry mode appName = none

theorem Conf.Unshadowed.exec {conf : Conf N} (h : conf.Unshadowed) (call : Call N) :
    (call.exec conf).1.Unshadowed := by
  intro mode appName hname
  rw [Call.exec_eq]
  by_cases hquery : (mode, appName) = (call.mode, call.appName)
  · cases hquery
    rw [appEntry_change_self, lookup_inherited (h _ _ hname) hname, Call.change_inherited]
    exact h _ _ hname
  · rw [appEntry_change_of_ne _ _ hquery]
    exact h mode appName hname

theorem Conf.Unshadowed.execAll {conf : Conf N} (h : conf.Unshadowed) (calls : List (Call N)) :
    (execAll conf calls).Unshadowed := by
  induction calls generalizing conf with
  | nil => exact h
  | cons call rest ih => exact ih (h.exec call)

end NginxInterface
