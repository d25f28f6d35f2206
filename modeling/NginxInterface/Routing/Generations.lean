import NginxInterface.Routing.Backends

/-! # Generations of ports

Each accepted update of an application brings in a new list of ports and keeps the
list before it as backups, until the update after that drops them. An update that is
refused leaves everything as it was, the array of its caller included.
-/

namespace NginxInterface

open Foundation Js

variable {N : Type}

/-! ## Generations -/

/-- The arguments of one update. -/
structure Generation (N : Type) where
  ports : List N
  inPort : Value N := .undefined
  lbMode : Value N := .undefined

def Generation.call (mode : Mode) (appName : String) (generation : Generation N) : Call N :=
  bulkCall mode appName generation.lbMode generation.inPort generation.ports

/-- The ports of the last generation and of the one before it. -/
def rotation (generations : List (Generation N)) : List N × List N :=
  generations.foldl (fun state generation => (generation.ports, state.1)) ([], [])

def backupInstances (ports : List N) : List (Instance N) :=
  ports.map fun port => { port := .num port, backup := .bool true }

variable [Number N]

theorem demoted_rotation (current previous : List N) :
    demoted (portInstances current ++ backupInstances previous) = backupInstances current := by
  have hcurrent : (portInstances current).filter (fun old => !old.backup.truthy) =
      portInstances current := by
    refine List.filter_eq_self.mpr fun item hitem => ?_
    obtain ⟨port, _, rfl⟩ := List.mem_map.mp hitem
    rfl
  have hprevious : (backupInstances previous).filter (fun old => !old.backup.truthy) = [] := by
    refine List.filter_eq_nil_iff.mpr fun item hitem => ?_
    obtain ⟨port, _, rfl⟩ := List.mem_map.mp hitem
    simp [Value.truthy]
  rw [demoted, List.filter_append, hcurrent, hprevious, List.append_nil, portInstances,
    List.map_map]
  rfl

/-- The entry of the application holds a generation and its backups; before the
first update there is none. -/
def InRotation (entry : Option (Entry N)) (state : List N × List N) : Prop :=
  match entry with
  | none => state = ([], [])
  | some entry => entry.instances = .list (portInstances state.1 ++ backupInstances state.2)

/-- An accepted update moves the current generation to the backups. -/
theorem update_rotates {conf : Conf N} {mode : Mode} {appName : String}
    {state : List N × List N} {routing : Routing N} {ports : List N}
    (hmode : routing.mode.getD .stream = mode) (hout : routing.outPorts = .arr (ports.map .num))
    (hconf : InRotation (conf.appEntry mode appName) state)
    (haccepted : (addOrUpdateAppRouting conf appName (.object routing)).2 = .updating) :
    (addOrUpdateAppRouting conf appName (.object routing)).1.appEntry mode appName =
      some (routing.newEntry (.list (portInstances ports ++ backupInstances state.1))) := by
  rw [addOrUpdateAppRouting_eq] at haccepted ⊢
  simp only [Call.mode, hmode, Conf.appEntry_change_self] at haccepted ⊢
  cases hentry : conf.appEntry mode appName with
  | none =>
      rw [hentry] at hconf
      cases hlookup : conf.lookup mode appName with
      | own entry => simp [(conf.lookup_eq_own_iff mode appName entry).mp hlookup] at hentry
      | inherited =>
          rw [hlookup] at haccepted
          cases haccepted
      | absent =>
          -- first generation: the rotation has nothing to demote
          have hstate : state = ([], []) := hconf
          rw [hstate, updateChange, hout, newInstances_ports]
          simp [Change.apply, backupInstances]
  | some entry =>
      rw [hentry] at hconf
      have hitems : entry.instances =
          .list (portInstances state.1 ++ backupInstances state.2) := hconf
      rw [Conf.lookup_of_appEntry hentry] at haccepted ⊢
      simp only [updateChange, hitems, hout, newInstances_ports] at haccepted ⊢
      split at haccepted
      · cases haccepted
      next swapped hswap =>
        -- the current ports become backups, and the backups of before are dropped
        rw [demotePrevious_list hswap, demoted_rotation]
        rfl

theorem accepted_rotates {conf : Conf N} {mode : Mode} {appName : String}
    {state : List N × List N} (generation : Generation N)
    (hconf : InRotation (conf.appEntry mode appName) state)
    (haccepted : ((generation.call mode appName).exec conf).2 = .updating) :
    ∃ entry, ((generation.call mode appName).exec conf).1.appEntry mode appName = some entry ∧
      entry.instances = .list (portInstances generation.ports ++ backupInstances state.1) :=
  ⟨_, update_rotates rfl rfl hconf haccepted, rfl⟩

/-- A run of accepted updates. -/
theorem accepted_run {conf : Conf N} {mode : Mode} {appName : String} {state : List N × List N}
    (generations : List (Generation N))
    (hconf : InRotation (conf.appEntry mode appName) state)
    (haccepted : RunMeets (fun conf call => (call.exec conf).2 = .updating) conf
      (generations.map (Generation.call mode appName))) :
    InRotation ((execAll conf (generations.map (Generation.call mode appName))).appEntry
        mode appName)
      (generations.foldl (fun state generation => (generation.ports, state.1)) state) := by
  induction generations generalizing conf state with
  | nil => exact hconf
  | cons generation rest ih =>
      obtain ⟨entry, hentry, hinstances⟩ := accepted_rotates generation hconf haccepted.1
      refine ih ?_ haccepted.2
      rw [hentry]
      exact hinstances

/-! ## When an update is refused -/

omit [Number N] in
theorem rotation_instances (current previous : List N) :
    portInstances current ++ backupInstances previous =
      (current.map Backend.primary ++ previous.map Backend.fallback).map Backend.toInstance := by
  rw [List.map_append, portInstances_eq, backupInstances, List.map_map, List.map_map]
  rfl

omit [Number N] in
/-- With a duplicate-free current generation that shares no port with its backups, only
a new port that one of the two already has is in the way. -/
theorem unbound_rotation (ports : List N) {current previous : List N} (hnodup : current.Nodup)
    (hdisjoint : ∀ port ∈ current, port ∉ previous) :
    Unbound (current.map Backend.primary ++ previous.map Backend.fallback) (ports.map .primary) ↔
      ∀ port ∈ ports, port ∉ current ∧ port ∉ previous := by
  have hpairs : (current.map Backend.primary ++ previous.map Backend.fallback).Pairwise
      fun earlier later => earlier.backup = false → earlier.port ≠ later.port := by
    rw [List.pairwise_append, List.pairwise_map, List.pairwise_map]
    refine ⟨?_, ?_, ?_⟩
    · exact hnodup.imp fun hne _ hsame => hne hsame
    · exact List.pairwise_of_forall fun _ _ => by simp
    · intro earlier hearlier later hlater _ hsame
      obtain ⟨port, hport, rfl⟩ := List.mem_map.mp hearlier
      obtain ⟨old, hold, rfl⟩ := List.mem_map.mp hlater
      have heq : port = old := hsame
      exact hdisjoint port hport (heq ▸ hold)
  rw [Unbound, Backend.map_primary_port, and_iff_left hpairs, List.forall_mem_append,
    List.forall_mem_map, List.forall_mem_map]
  constructor
  · rintro ⟨hcurrent, hprevious⟩ port hport
    exact ⟨fun hmem => hcurrent port hmem hport, fun hmem => hprevious port hmem hport⟩
  · intro hfree
    exact ⟨fun port hmem hport => (hfree port hport).1 hmem,
      fun port hmem hport => (hfree port hport).2 hmem⟩

/-! ## The arrays of a call

The loops of an update append to `new_out_ports`. The array of the caller is copied
first, so that they append to the copy. -/

/-- The array of the caller and the array `p`; `new_out_ports` refers to one of them. -/
structure Arrays (N : Type) where
  outPorts : List (Value N)
  p : List (Instance N) := []
  copied : Bool := false

namespace Arrays

/-- `new_instance.port` for each element of `new_out_ports`. -/
def newPorts (arrays : Arrays N) : List (Except Fault (Value N)) :=
  if arrays.copied then arrays.p.map fun item => .ok item.port
  else arrays.outPorts.map fun value => value.field "port"

/-- `new_out_ports.push({ port, backup : true })`. -/
def pushBackup (arrays : Arrays N) (port : Value N) : Arrays N :=
  if arrays.copied then
    { arrays with p := arrays.p ++ [{ port := port, backup := .bool true }] }
  else
    { arrays with
      outPorts := arrays.outPorts ++ [.obj [("port", port), ("backup", .bool true)]] }

/-- The copy that is made of an array. -/
def copy (arrays : Arrays N) : Arrays N :=
  { arrays with p := arrays.outPorts.map fun port => { port := port }, copied := true }

/-- The inner loop. -/
def checkPorts (appName : String) (old : Instance N) :
    List (Except Fault (Value N)) → Except Fault Unit
  | [] => .ok ()
  | port :: rest => do
      let newPort ← port
      if ← old.port.looseEq newPort then
        throw (.error (← samePortMessage old.port newPort appName))
      else checkPorts appName old rest

/-- The outer loop. A throw keeps what has been appended before it. -/
def demote (appName : String) : List (Instance N) → Arrays N → Arrays N × Except Fault Unit
  | [], arrays => (arrays, .ok ())
  | old :: rest, arrays =>
      match checkPorts appName old arrays.newPorts with
      | .error fault => (arrays, .error fault)
      | .ok () =>
          demote appName rest
            (if old.backup.truthy then arrays else arrays.pushBackup old.port)

theorem checkPorts_items (appName : String) (old : Instance N) (items : List (Instance N)) :
    checkPorts appName old (items.map fun item => .ok item.port) =
      checkBinding appName old items := by
  induction items with
  | nil => rfl
  | cons item rest ih => simp only [List.map_cons, checkPorts, checkBinding, ih]; rfl

/-- On a copied array the loops only append to the copy, and what they leave there is
what `demotePrevious` computes. -/
theorem demote_copied (appName : String) (olds : List (Instance N)) {arrays : Arrays N}
    (hcopied : arrays.copied = true) :
    (demote appName olds arrays).1.outPorts = arrays.outPorts ∧
      demotePrevious appName olds (.list arrays.p) =
        (demote appName olds arrays).2.map fun _ => .list (demote appName olds arrays).1.p := by
  induction olds generalizing arrays with
  | nil => exact ⟨rfl, rfl⟩
  | cons old rest ih =>
      have hports : arrays.newPorts = arrays.p.map fun item => .ok item.port := if_pos hcopied
      rw [demote, demotePrevious, hports, checkPorts_items]
      cases checkBinding appName old arrays.p with
      | error fault => exact ⟨rfl, rfl⟩
      | ok _ =>
          cases old.backup.truthy with
          | true => exact ih hcopied
          | false =>
              have hpush : arrays.pushBackup old.port =
                  { arrays with p := arrays.p ++ [{ port := old.port, backup := .bool true }] } :=
                if_pos hcopied
              simp only [Bool.false_eq_true, if_false, hpush]
              exact ih hcopied

end Arrays

/-- `addOrUpdateAppRouting` for an array of ports, with the arrays it works on. -/
def updateInPlace (conf : Conf N) (appName : String) (routing : Routing N)
    (outPorts : List (Value N)) : (Conf N × Outcome) × Arrays N :=
  let lbMode := routing.lbMode.or (.str "round_robin")
  let proxyMode := routing.mode.getD .stream
  let arrays := ({ outPorts := outPorts } : Arrays N).copy
  let swapped : Arrays N × Except Fault Unit :=
    match conf.lookup proxyMode appName with
    | .absent => (arrays, .ok ())
    | .inherited => (arrays, .error .typeError)
    | .own previous =>
        match previous.instances with
        | .other _ => (arrays, .error .typeError)
        | .list items => arrays.demote appName items
  match swapped.2 with
  | .error fault => ((conf, .threw fault), swapped.1)
  | .ok () =>
      ((conf.put proxyMode appName
        { port := routing.inPort, instances := .list swapped.1.p, balance := lbMode },
        .updating), swapped.1)

/-- The call does what `addOrUpdateAppRouting` does and leaves the array of its caller
as it was, whether it throws or not. -/
theorem updateInPlace_eq (conf : Conf N) (appName : String) {routing : Routing N}
    {outPorts : List (Value N)} (hout : routing.outPorts = .arr outPorts) :
    (updateInPlace conf appName routing outPorts).1 =
        addOrUpdateAppRouting conf appName (.object routing) ∧
      (updateInPlace conf appName routing outPorts).2.outPorts = outPorts := by
  have hnew : newInstances routing.outPorts =
      .list ({ outPorts := outPorts } : Arrays N).copy.p := by
    rw [hout]
    rfl
  unfold updateInPlace addOrUpdateAppRouting
  simp only [hnew]
  cases conf.lookup (routing.mode.getD .stream) appName with
  | inherited => exact ⟨rfl, rfl⟩
  | absent => exact ⟨rfl, rfl⟩
  | own previous =>
      cases hinstances : previous.instances with
      | other value => simp only [hinstances, true_and]; rfl
      | list items =>
          simp only [hinstances]
          have hcopied : ({ outPorts := outPorts } : Arrays N).copy.copied = true := rfl
          obtain ⟨houtPorts, hdemote⟩ := Arrays.demote_copied appName items hcopied
          rw [hdemote]
          generalize ({ outPorts := outPorts } : Arrays N).copy.demote appName items = swapped
            at houtPorts
          cases hswapped : swapped.2 with
          | error fault => exact ⟨rfl, houtPorts⟩
          | ok _ => exact ⟨rfl, houtPorts⟩

/-! ## Sequences of updates -/

/-- An update with a duplicate-free array of numeric ports. -/
structure Update (N : Type) where
  ports : List N
  nodup : ports.Nodup
  inPort : Value N := .undefined
  lbMode : Value N := .undefined
  mode : Option Mode := none

namespace Update

def routing (update : Update N) : Routing N where
  inPort := update.inPort
  outPorts := .arr (update.ports.map .num)
  lbMode := update.lbMode
  mode := update.mode

def call (appName : String) (update : Update N) : Call N :=
  .addOrUpdateAppRouting appName (.object update.routing)

/-- The entry that an update leaves when these are the ports of the one before it. -/
def entry (update : Update N) (previous : List N) : Entry N where
  port := update.inPort
  instances := .list (portInstances update.ports ++ backupInstances previous)
  balance := update.lbMode.or (.str "round_robin")

end Update

/-- The updates of a sequence that are accepted, the last one first. -/
def acceptedUpdates (appName : String) :
    Conf N → List (Update N) → List (Update N) → List (Update N)
  | _, history, [] => history
  | conf, history, update :: rest =>
      let result := (update.call appName).exec conf
      acceptedUpdates appName result.1
        (if result.2 = .updating then update :: history else history) rest

/-- The ports of the last accepted update and of the one before it. -/
def currentPorts (history : List (Update N)) : List N := (history[0]?.map Update.ports).getD []

def previousPorts (history : List (Update N)) : List N := (history[1]?.map Update.ports).getD []

/-- The entry of an application with a given history of accepted updates. -/
structure Rotated (mode : Mode) (appName : String) (conf : Conf N)
    (history : List (Update N)) : Prop where
  entry : conf.appEntry mode appName =
    history.head?.map fun last => last.entry (previousPorts history)
  disjoint : ∀ port ∈ currentPorts history, port ∉ previousPorts history

theorem Rotated.inRotation {mode : Mode} {appName : String} {conf : Conf N}
    {history : List (Update N)} (h : Rotated mode appName conf history) :
    InRotation (conf.appEntry mode appName) (currentPorts history, previousPorts history) := by
  rw [h.entry]
  cases history with
  | nil => rfl
  | cons last earlier => rfl

/-- The new ports of an update are in use. -/
def Update.Shares (update : Update N) (history : List (Update N)) : Prop :=
  ∃ port ∈ update.ports, port ∈ currentPorts history ∨ port ∈ previousPorts history

/-- The three ways an update can end: it is accepted, it is refused for a port in use,
or its name is one of `Object.prototype` and it never gets to the ports. -/
theorem Rotated.outcome {mode : Mode} {appName : String} {conf : Conf N}
    {history : List (Update N)} (h : Rotated mode appName conf history) {update : Update N}
    (hmode : update.mode.getD .stream = mode) :
    ((update.call appName).exec conf).2 = .updating ∧ ¬update.Shares history ∨
      (∃ port : N, (update.call appName).exec conf =
        (conf, .threw (.error (bindingMessage appName port)))) ∧ update.Shares history ∨
      (update.call appName).exec conf = (conf, .threw .typeError) ∧ ¬update.Shares history := by
  have hrouting : update.routing.mode.getD .stream = mode := hmode
  simp only [Update.call, Call.exec, addOrUpdateAppRouting_eq, Call.mode, hrouting]
  have hentry := h.entry
  cases history with
  | nil =>
      have hfree : ¬update.Shares [] := by
        rintro ⟨port, -, hport | hport⟩ <;> cases hport
      cases hlookup : conf.lookup mode appName with
      | own entry =>
          rw [(conf.lookup_eq_own_iff mode appName entry).mp hlookup] at hentry
          cases hentry
      | inherited => exact Or.inr (Or.inr ⟨rfl, hfree⟩)
      | absent => exact Or.inl ⟨rfl, hfree⟩
  | cons last earlier =>
      rw [Conf.lookup_of_appEntry hentry]
      have hnew : newInstances update.routing.outPorts =
          .list ((update.ports.map Backend.primary).map Backend.toInstance) := by
        rw [← portInstances_eq, ← newInstances_ports]
        rfl
      have hitems : (last.entry (previousPorts (last :: earlier))).instances = .list
          ((last.ports.map Backend.primary ++
            (previousPorts (last :: earlier)).map Backend.fallback).map Backend.toInstance) := by
        rw [← rotation_instances]
        rfl
      have hiff := unbound_rotation update.ports last.nodup h.disjoint
      simp only [updateChange, hitems, hnew]
      rcases demotePrevious_backends appName (last.ports.map Backend.primary ++
        (previousPorts (last :: earlier)).map Backend.fallback)
        (update.ports.map .primary) with ⟨hunbound, swapped, hswap⟩ | ⟨hbound, port, hfault⟩
      · refine Or.inl ⟨by rw [hswap], ?_⟩
        rintro ⟨port, hport, hused⟩
        obtain ⟨hcurrent, hprevious⟩ := hiff.mp hunbound port hport
        exact hused.elim hcurrent hprevious
      · refine Or.inr (Or.inl ⟨⟨port, by rw [hfault]; rfl⟩, ?_⟩)
        by_contra hfree
        refine hbound (hiff.mpr fun port hport => ⟨fun hcurrent => ?_, fun hprevious => ?_⟩)
        · exact hfree ⟨port, hport, Or.inl hcurrent⟩
        · exact hfree ⟨port, hport, Or.inr hprevious⟩

/-- One update of a sequence. -/
theorem Rotated.exec {mode : Mode} {appName : String} {conf : Conf N}
    {history : List (Update N)} (h : Rotated mode appName conf history) {update : Update N}
    (hmode : update.mode.getD .stream = mode) :
    Rotated mode appName ((update.call appName).exec conf).1
      (if ((update.call appName).exec conf).2 = .updating then update :: history
        else history) := by
  rcases h.outcome hmode with ⟨haccepted, hfree⟩ | ⟨⟨port, hrefused⟩, -⟩ | ⟨hrefused, -⟩
  · rw [if_pos haccepted]
    refine ⟨update_rotates hmode rfl h.inRotation haccepted, fun port hport hprevious => ?_⟩
    exact hfree ⟨port, hport, Or.inl hprevious⟩
  · rw [hrefused]
    exact h
  · rw [hrefused]
    exact h

theorem Rotated.run {mode : Mode} {appName : String} {conf : Conf N}
    {history : List (Update N)} (h : Rotated mode appName conf history)
    (updates : List (Update N)) (hmode : ∀ update ∈ updates, update.mode.getD .stream = mode) :
    Rotated mode appName (execAll conf (updates.map (Update.call appName)))
      (acceptedUpdates appName conf history updates) := by
  induction updates generalizing conf history with
  | nil => exact h
  | cons update rest ih =>
      rw [List.map_cons, execAll_cons]
      exact ih (h.exec (hmode update List.mem_cons_self)) fun other hother =>
        hmode other (List.mem_cons_of_mem _ hother)

theorem bindingMessage_starts (appName : String) (port : N) :
    "Binding same port".toList <+: bindingMessage appName port := by
  have hstart : "Binding same port (previous ".toList =
      "Binding same port".toList ++ " (previous ".toList := rfl
  unfold bindingMessage
  simp only [hstart, List.append_assoc]
  exact List.prefix_append _ _

/-- After any sequence of updates of an application, its entry is that of the last
accepted one, with the ports of the accepted one before it as backups. The next update
throws for a port in use exactly if it shares a port with one of the two, and an update
that throws changes neither the configuration nor the array of its caller. -/
theorem generations_of_updates (conf : Conf N) (mode : Mode) (appName : String)
    (updates : List (Update N)) (habsent : conf.appEntry mode appName = none)
    (hmode : ∀ update ∈ updates, update.mode.getD .stream = mode) :
    let final := execAll conf (updates.map (Update.call appName))
    let history := acceptedUpdates appName conf [] updates
    final.appEntry mode appName =
        (history.head?.map fun last => last.entry (previousPorts history)) ∧
      ∀ next : Update N, next.mode.getD .stream = mode →
        let result := updateInPlace final appName next.routing (next.ports.map .num)
        result.1 = (next.call appName).exec final ∧
          ((∃ message, result.1.2 = .threw (.error message) ∧
            "Binding same port".toList <+: message) ↔ next.Shares history) ∧
          ∀ fault, result.1.2 = .threw fault →
            result.1.1 = final ∧ result.2.outPorts = next.ports.map .num := by
  intro final history
  have hstart : Rotated mode appName conf [] := ⟨habsent, by simp [currentPorts]⟩
  have hrotated : Rotated mode appName final history := hstart.run updates hmode
  refine ⟨hrotated.entry, fun next hnext => ?_⟩
  intro result
  obtain ⟨hcall, harray⟩ := updateInPlace_eq final appName
    (show next.routing.outPorts = .arr (next.ports.map .num) from rfl)
  have hresult : result.1 = (next.call appName).exec final := hcall
  rw [hresult]
  refine ⟨rfl, ?_⟩
  rcases hrotated.outcome hnext with
    ⟨haccepted, hfree⟩ | ⟨⟨port, hrefused⟩, hshares⟩ | ⟨hrefused, hfree⟩
  · simp [haccepted, hfree]
  · rw [hrefused]
    exact ⟨iff_of_true ⟨_, rfl, bindingMessage_starts appName port⟩ hshares,
      fun _ _ => ⟨rfl, harray⟩⟩
  · rw [hrefused]
    refine ⟨iff_of_false ?_ hfree, fun _ _ => ⟨rfl, harray⟩⟩
    rintro ⟨message, ⟨⟩, -⟩

/-- Three updates of one application, the last of which is refused. -/
def threeUpdates : List (Update Int) :=
  [{ ports := [8001, 8002], nodup := by decide, inPort := .num 80, lbMode := .str "least_conn" },
    { ports := [8003], nodup := by decide, inPort := .num 81, mode := some .stream },
    { ports := [8004, 8001], nodup := by decide, inPort := .num 82 }]

/-- The port and the balance are those of the second update, and the ports of the first
one are its backups. -/
theorem generations_of_updates_web :
    (execAll emptyConf (threeUpdates.map (Update.call "web"))).appEntry .stream "web" =
      some
        { port := .num 81
          balance := .str "round_robin"
          instances := .list [{ port := .num 8003 }, { port := .num 8001, backup := .bool true },
            { port := .num 8002, backup := .bool true }] } := by
  have h := (generations_of_updates emptyConf .stream "web" threeUpdates rfl (by
    intro update hupdate
    simp only [threeUpdates, List.mem_cons, List.not_mem_nil, or_false] at hupdate
    rcases hupdate with rfl | rfl | rfl <;> rfl)).1
  exact h

end NginxInterface
