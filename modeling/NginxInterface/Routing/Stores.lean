import NginxInterface.Routing.Operations

/-! # What a call can store

For each operation, the entries it can leave in the configuration, and when a
call that is refused has left the configuration as it was. Invariants of the
configuration follow from these facts without another look at the loops.
-/

namespace NginxInterface

open Foundation Js

variable {N : Type} [Number N]

/-- The instances of the own entry of an application. -/
def Conf.items (conf : Conf N) (mode : Mode) (appName : String) : List (Instance N) :=
  match (conf.appEntry mode appName).map Entry.instances with
  | some (.list items) => items
  | _ => []

omit [Number N] in
theorem Conf.items_of_none {conf : Conf N} {mode : Mode} {appName : String}
    (h : conf.appEntry mode appName = none) : conf.items mode appName = [] := by
  rw [Conf.items, h]
  rfl

omit [Number N] in
theorem Conf.items_of_list {conf : Conf N} {mode : Mode} {appName : String} {entry : Entry N}
    {items : List (Instance N)} (h : conf.appEntry mode appName = some entry)
    (hitems : entry.instances = .list items) : conf.items mode appName = items := by
  rw [Conf.items, h, Option.map_some, hitems]

/-! ## Properties of every entry -/

def Conf.Every (holds : Entry N → Prop) (conf : Conf N) : Prop :=
  ∀ mode appName entry, conf.appEntry mode appName = some entry → holds entry

namespace Conf.Every

variable {holds : Entry N → Prop}

theorem initial (debugMode statusPort : Value N) :
    (Conf.initial debugMode statusPort).Every holds := by
  intro mode appName entry hentry
  rw [appEntry_initial] at hentry
  cases hentry

omit [Number N] in
theorem of_lookup {conf : Conf N} (h : conf.Every holds) {mode : Mode} {appName : String}
    {entry : Entry N} (hlookup : conf.lookup mode appName = .own entry) : holds entry :=
  h mode appName entry ((conf.lookup_eq_own_iff mode appName entry).mp hlookup)

omit [Number N] in
/-- A change can only break the property with the entry that it stores. -/
theorem change {conf : Conf N} (h : conf.Every holds) (mode : Mode) (appName : String)
    {change : Change N} (hstore : ∀ entry, change = .store entry → holds entry) :
    (conf.change mode appName change).Every holds := by
  intro other query entry hentry
  by_cases hsame : (other, query) = (mode, appName)
  · cases hsame
    rw [appEntry_change_self] at hentry
    cases change with
    | keep => exact h mode appName entry hentry
    | store stored => exact hstore entry (congrArg Change.store (Option.some.inj hentry))
    | drop => cases hentry
  · rw [appEntry_change_of_ne conf change hsame] at hentry
    exact h other query entry hentry

end Conf.Every

/-! ## What each operation stores -/

theorem forwardMessage_ok {inPort outPort : Value N} (appName : String)
    (hin : inPort.printable = true) (hout : outPort.printable = true) :
    ∃ message, forwardMessage inPort outPort appName = .ok message := by
  obtain ⟨source, hsource⟩ := inPort.printable_iff.mp hin
  obtain ⟨target, htarget⟩ := outPort.printable_iff.mp hout
  exact ⟨_, by simp only [forwardMessage, hsource, htarget]; rfl⟩

theorem forwardMessage_error {inPort outPort : Value N} {appName : String} {fault : Fault}
    (h : forwardMessage inPort outPort appName = .error fault) (hin : inPort.printable = true) :
    ¬outPort.printable = true := by
  intro hout
  obtain ⟨message, hmessage⟩ := forwardMessage_ok appName hin hout
  rw [hmessage] at h
  cases h

theorem forwardMessage_printable {inPort outPort : Value N} {appName : String} {message : Text}
    (h : forwardMessage inPort outPort appName = .ok message) :
    inPort.printable = true ∧ outPort.printable = true := by
  unfold forwardMessage at h
  cases hsource : inPort.toText with
  | error fault => simp [hsource, bind, Except.bind] at h
  | ok source =>
      cases htarget : outPort.toText with
      | error fault => simp [hsource, htarget, bind, Except.bind] at h
      | ok target =>
          exact ⟨inPort.printable_iff.mpr ⟨source, hsource⟩,
            outPort.printable_iff.mpr ⟨target, htarget⟩⟩

/-- The search for a port compares it with every instance, prints it at a match and
remembers the match. -/
theorem portUsed_eq_ok_iff {outPort : Value N} {used result : Bool} {items : List (Instance N)} :
    portUsed outPort used items = .ok result ↔
      (∀ item ∈ items, ∃ same, item.port.looseEq outPort = .ok same) ∧
      ((∃ item ∈ items, item.port.looseEq outPort = .ok true) → outPort.printable = true) ∧
      (result = true ↔ used = true ∨ ∃ item ∈ items, item.port.looseEq outPort = .ok true) := by
  induction items generalizing used with
  | nil =>
      rw [portUsed, Except.ok.injEq, Bool.eq_iff_iff]
      simp [iff_comm]
  | cons item rest ih =>
      rw [portUsed]
      cases hitem : item.port.looseEq outPort with
      | error fault => simp [hitem, bind, Except.bind]
      | ok same =>
          cases same with
          | false =>
              simp only [bind, Except.bind, Bool.false_eq_true, if_false]
              simpa [hitem] using ih
          | true =>
              cases htext : outPort.toText with
              | error fault => simp [hitem, htext, bind, Except.bind, Value.printable]
              | ok text =>
                  have hprintable : outPort.printable = true :=
                    outPort.printable_iff.mpr ⟨text, htext⟩
                  simp only [bind, Except.bind, if_true]
                  simpa [hitem, hprintable] using @ih true

/-- `addPortRouting` creates an entry for an unknown application, with the port
unless the port cannot be printed, or appends a port to an entry. -/
theorem addPortChange_store {appName : String} {opts : Opts N} {found : Found N}
    {entry : Entry N} (h : (addPortChange appName opts found).1 = .store entry) :
    (found = .absent ∧ (entry = opts.freshEntry [] ∨
      opts.outPort.printable = true ∧ entry = opts.freshEntry [{ port := opts.outPort }])) ∨
    ∃ own items, found = .own own ∧ own.instances = .list items ∧
      portUsed opts.outPort false items = .ok false ∧ opts.outPort.printable = true ∧
      entry = { own with instances := .list (items ++ [{ port := opts.outPort }]) } := by
  cases found with
  | inherited => cases h
  | absent =>
      refine Or.inl ⟨rfl, ?_⟩
      unfold addPortChange at h
      cases hmessage : forwardMessage opts.inPort opts.outPort appName with
      | error fault =>
          simp only [hmessage, Change.store.injEq] at h
          exact Or.inl h.symm
      | ok message =>
          simp only [hmessage, Change.store.injEq] at h
          exact Or.inr ⟨(forwardMessage_printable hmessage).2, h.symm⟩
  | own own =>
      unfold addPortChange at h
      cases hinstances : own.instances with
      | other value => simp [hinstances] at h
      | list items =>
          simp only [hinstances] at h
          split at h
          · cases h
          · cases h
          next hunused =>
            split at h
            · cases h
            next message hmessage =>
              simp only [Change.store.injEq] at h
              exact Or.inr ⟨own, items, rfl, hinstances, hunused,
                (forwardMessage_printable hmessage).2, h.symm⟩

/-- The three ways in which an addition is accepted: the application is created, it has
the port already, or it gets the port. -/
theorem addPortChange_updating {appName : String} {opts : Opts N} {found : Found N}
    (h : (addPortChange appName opts found).2 = .updating) :
    (found = .absent ∧
      (addPortChange appName opts found).1 = .store (opts.freshEntry [{ port := opts.outPort }])) ∨
    ∃ own items, found = .own own ∧ own.instances = .list items ∧
      (portUsed opts.outPort false items = .ok true ∧
          (addPortChange appName opts found).1 = .keep ∨
        portUsed opts.outPort false items = .ok false ∧
          (addPortChange appName opts found).1 = .store
            { own with instances := .list (items ++ [{ port := opts.outPort }]) }) := by
  unfold addPortChange at h ⊢
  cases found with
  | inherited => cases h
  | absent =>
      refine Or.inl ⟨rfl, ?_⟩
      cases hmessage : forwardMessage opts.inPort opts.outPort appName with
      | error fault => simp [hmessage] at h
      | ok message => rfl
  | own own =>
      cases hinstances : own.instances with
      | other value => simp [hinstances] at h
      | list items =>
          refine Or.inr ⟨own, items, rfl, hinstances, ?_⟩
          simp only [hinstances] at h ⊢
          split at h
          · cases h
          next hused => exact Or.inl ⟨hused, rfl⟩
          next hfresh =>
            split at h
            · cases h
            · exact Or.inr ⟨hfresh, rfl⟩

/-- The entry an accepted `addPortRouting` leaves: a new one, the one it found if that
has the port already, or the one it found with the port appended. -/
def Opts.Leaves (opts : Opts N) : Option (Entry N) → Entry N → Prop
  | none, entry => entry = opts.freshEntry [{ port := opts.outPort }]
  | some own, entry => ∃ items, own.instances = .list items ∧
      (portUsed opts.outPort false items = .ok true ∧ entry = own ∨
        entry = { own with instances := .list (items ++ [{ port := opts.outPort }]) })

theorem addPortRouting_leaves {conf : Conf N} {appName : String} {opts : Opts N}
    (h : (addPortRouting conf appName opts).2 = .updating) :
    ∃ entry, (addPortRouting conf appName opts).1.appEntry (opts.mode.getD .http) appName =
        some entry ∧
      opts.Leaves (conf.appEntry (opts.mode.getD .http) appName) entry := by
  rw [addPortRouting_eq] at h ⊢
  simp only [Conf.appEntry_change_self] at h ⊢
  rcases addPortChange_updating h with ⟨hfound, hchange⟩ |
    ⟨own, items, hfound, hitems, ⟨hused, hchange⟩ | ⟨-, hchange⟩⟩
  · rw [hchange, ((conf.lookup_eq_absent_iff _ _).mp hfound).1]
    exact ⟨_, rfl, rfl⟩
  · rw [hchange, (conf.lookup_eq_own_iff _ _ own).mp hfound]
    exact ⟨own, rfl, items, hitems, Or.inl ⟨hused, rfl⟩⟩
  · rw [hchange, (conf.lookup_eq_own_iff _ _ own).mp hfound]
    exact ⟨_, rfl, items, hitems, Or.inr rfl⟩

/-- `deletePortRouting` stores an entry with some of its instances removed. -/
theorem deletePortChange_store {port : Value N} {found : Found N} {entry : Entry N}
    (h : (deletePortChange port found).1 = .store entry) :
    ∃ own items kept, found = .own own ∧ own.instances = .list items ∧
      List.Sublist kept items ∧ entry = { own with instances := .list kept } := by
  cases found with
  | inherited => cases h
  | absent => cases h
  | own own =>
      unfold deletePortChange at h
      cases hinstances : own.instances with
      | other value => simp [hinstances] at h
      | list items =>
          simp only [hinstances] at h
          have hkept := removeSkipping_sublist (fun item => item.port.looseEq port) items
          split at h
          · simp only [Change.store.injEq] at h
            exact ⟨own, items, _, rfl, hinstances, hkept, h.symm⟩
          · split at h
            · cases h
            · simp only [Change.store.injEq] at h
              exact ⟨own, items, _, rfl, hinstances, hkept, h.symm⟩

/-- The backups an update makes of the previous instances. -/
def demoted (olds : List (Instance N)) : List (Instance N) :=
  (olds.filter fun old => !old.backup.truthy).map fun old =>
    { port := old.port, backup := .bool true }

theorem demotePrevious_list {appName : String} {olds news : List (Instance N)}
    {swapped : Instances N} (h : demotePrevious appName olds (.list news) = .ok swapped) :
    swapped = .list (news ++ demoted olds) := by
  induction olds generalizing news with
  | nil => simpa [demotePrevious, demoted] using h.symm
  | cons old rest ih =>
      unfold demotePrevious at h
      cases hcheck : checkBinding appName old news with
      | error fault => simp [hcheck, bind, Except.bind] at h
      | ok _ =>
          simp only [hcheck, bind, Except.bind] at h
          rw [ih h]
          cases hbackup : old.backup.truthy with
          | true => simp [demoted, hbackup]
          | false => simp [demoted, hbackup]

/-- `addOrUpdateAppRouting` stores the new ports, with the previous ones behind
them as backups. Ports that are not an array are stored as they are, if there is
no previous instance. -/
theorem updateChange_store {appName : String} {arg : RoutingArg N} {found : Found N}
    {entry : Entry N} (h : (updateChange appName arg found).1 = .store entry) :
    ∃ routing, arg = .object routing ∧
      ((found = .absent ∧ entry = routing.newEntry (newInstances routing.outPorts)) ∨
        ∃ previous items swapped, found = .own previous ∧ previous.instances = .list items ∧
          demotePrevious appName items (newInstances routing.outPorts) = .ok swapped ∧
          entry = routing.newEntry swapped) := by
  cases arg with
  | notObject => cases h
  | object routing =>
      refine ⟨routing, rfl, ?_⟩
      cases found with
      | inherited => cases h
      | absent => exact Or.inl ⟨rfl, (Change.store.inj h).symm⟩
      | own previous =>
          unfold updateChange at h
          cases hinstances : previous.instances with
          | other value => simp [hinstances] at h
          | list items =>
              simp only [hinstances] at h
              split at h
              · cases h
              next swapped hdemote =>
                exact Or.inr ⟨previous, items, swapped, rfl, hinstances, hdemote,
                  (Change.store.inj h).symm⟩

/-! ## Refused calls -/

/-- The port values of a call can be converted to text. -/
def Call.PortsPrintable : Call N → Prop
  | .addPortRouting _ opts => opts.inPort.printable = true ∧ opts.outPort.printable = true
  | .deletePortRouting _ port => port.printable = true
  | .addOrUpdateAppRouting _ .notObject => True
  | .addOrUpdateAppRouting _ (.object routing) =>
      ∀ ports, routing.outPorts = .arr ports → ∀ port ∈ ports, port.printable = true

/-- So can the ports of an entry. -/
def Entry.PortsPrintable (entry : Entry N) : Prop :=
  ∀ items, entry.instances = .list items → ∀ item ∈ items, item.port.printable = true

def Conf.PortsPrintable (conf : Conf N) : Prop :=
  ∀ mode appName entry, conf.appEntry mode appName = some entry → entry.PortsPrintable

theorem Conf.initial_portsPrintable (debugMode statusPort : Value N) :
    (Conf.initial debugMode statusPort).PortsPrintable :=
  Conf.Every.initial debugMode statusPort

theorem demoted_port {olds : List (Instance N)} {item : Instance N} (h : item ∈ demoted olds) :
    ∃ old ∈ olds, item.port = old.port := by
  obtain ⟨old, hold, rfl⟩ := List.mem_map.mp h
  exact ⟨old, List.mem_of_mem_filter hold, rfl⟩

theorem newInstances_portsPrintable {ports : Value N} {items : List (Instance N)}
    (hports : ∀ list, ports = .arr list → ∀ port ∈ list, port.printable = true)
    (h : newInstances ports = .list items) : ∀ item ∈ items, item.port.printable = true := by
  cases ports with
  | arr list =>
      intro item hitem
      rw [newInstances, Instances.list.injEq] at h
      subst h
      obtain ⟨port, hport, rfl⟩ := List.mem_map.mp hitem
      exact hports list rfl port hport
  | _ => cases h

/-- A call with printable ports stores printable ports. -/
theorem Call.change_portsPrintable {call : Call N} {found : Found N} {entry : Entry N}
    (hcall : call.PortsPrintable) (hown : ∀ own, found = .own own → own.PortsPrintable)
    (h : (call.change found).1 = .store entry) : entry.PortsPrintable := by
  intro items hitems item hitem
  cases call with
  | addPortRouting appName opts =>
      rcases addPortChange_store h with
        ⟨_, rfl | ⟨_, rfl⟩⟩ | ⟨own, olds, hfound, holds, _, _, rfl⟩
      · cases hitems
        cases hitem
      · cases hitems
        rw [List.mem_singleton.mp hitem]
        exact hcall.2
      · cases hitems
        rcases List.mem_append.mp hitem with hold | hnew
        · exact hown own hfound olds holds item hold
        · rw [List.mem_singleton.mp hnew]
          exact hcall.2
  | deletePortRouting appName port =>
      obtain ⟨own, olds, kept, hfound, holds, hkept, rfl⟩ := deletePortChange_store h
      cases hitems
      exact hown own hfound olds holds item (hkept.subset hitem)
  | addOrUpdateAppRouting appName arg =>
      obtain ⟨routing, rfl, ⟨_, rfl⟩ | ⟨previous, olds, swapped, hfound, holds, hswap, rfl⟩⟩ :=
        updateChange_store h
      · exact newInstances_portsPrintable hcall hitems item hitem
      · cases hnews : newInstances routing.outPorts with
        | list news =>
            rw [hnews] at hswap
            cases demotePrevious_list hswap
            cases hitems
            rcases List.mem_append.mp hitem with hnew | hold
            · exact newInstances_portsPrintable hcall hnews item hnew
            · obtain ⟨old, hmem, hport⟩ := demoted_port hold
              rw [hport]
              exact hown previous hfound olds holds old hmem
        | other value =>
            -- `forEach` on these new ports throws at the first old instance
            rw [hnews] at hswap
            cases olds with
            | nil => cases hswap; cases hitems
            | cons old rest => cases hswap

theorem Call.exec_portsPrintable {call : Call N} {conf : Conf N} (hcall : call.PortsPrintable)
    (hconf : conf.PortsPrintable) : (call.exec conf).1.PortsPrintable := by
  have hevery : conf.Every Entry.PortsPrintable := hconf
  rw [Call.exec_eq]
  exact hevery.change _ _ fun entry hstore =>
    Call.change_portsPrintable hcall (fun own hown => hevery.of_lookup hown) hstore

theorem execAll_portsPrintable {conf : Conf N} {calls : List (Call N)}
    (hcalls : ∀ call ∈ calls, call.PortsPrintable) (hconf : conf.PortsPrintable) :
    (execAll conf calls).PortsPrintable := by
  induction calls generalizing conf with
  | nil => exact hconf
  | cons call rest ih =>
      rw [execAll_cons]
      exact ih (fun other hother => hcalls other (List.mem_cons_of_mem _ hother))
        (Call.exec_portsPrintable (hcalls call List.mem_cons_self) hconf)

/-- A call that throws or gives its callback an error before it reaches
`updateConfiguration` changes nothing, if all ports can be printed. -/
theorem Call.change_refused {call : Call N} {found : Found N} (hcall : call.PortsPrintable)
    (hown : ∀ own, found = .own own → own.PortsPrintable)
    (h : (call.change found).2 ≠ .updating) : (call.change found).1 = .keep := by
  cases call with
  | addPortRouting appName opts =>
      cases found with
      | inherited => rfl
      | absent =>
          -- the forward message is printed after the entry is stored; with printable ports it is
          obtain ⟨message, hmessage⟩ := forwardMessage_ok appName hcall.1 hcall.2
          simp only [Call.change, addPortChange, hmessage] at h
          exact absurd rfl h
      | own own =>
          simp only [Call.change, addPortChange] at h ⊢
          repeat' split at h
          all_goals first | rfl | exact absurd rfl h
  | deletePortRouting appName port =>
      cases found with
      | inherited => rfl
      | absent => rfl
      | own own =>
          cases hinstances : own.instances with
          | other value => simp only [Call.change, deletePortChange, hinstances]
          | list items =>
              -- only a port without a printed form could stop the deletion loop halfway
              have hloop : (removeSkipping (fun item => item.port.looseEq port) items).2 =
                  .ok () := by
                apply removeSkipping_ok
                intro item hitem
                exact Value.looseEq_of_printable (hown own rfl items hinstances item hitem) hcall
              simp only [Call.change, deletePortChange, hinstances, hloop] at h
              split at h
              · exact absurd rfl h
              · exact absurd rfl h
  | addOrUpdateAppRouting appName arg =>
      cases arg with
      | notObject => rfl
      | object routing =>
          cases found with
          | inherited => rfl
          | absent => exact absurd rfl h
          | own previous =>
              simp only [Call.change, updateChange] at h ⊢
              repeat' split at h
              all_goals first | rfl | exact absurd rfl h

theorem Call.exec_refused {call : Call N} {conf : Conf N} (hcall : call.PortsPrintable)
    (hconf : conf.PortsPrintable) (h : (call.exec conf).2 ≠ .updating) :
    (call.exec conf).1 = conf := by
  have hevery : conf.Every Entry.PortsPrintable := hconf
  rw [Call.exec_eq] at h ⊢
  simp only [Call.change_refused hcall (fun own hown => hevery.of_lookup hown) h]
  rfl

end NginxInterface
