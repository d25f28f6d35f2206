import NginxInterface.Routing.Pool
import NginxInterface.Routing.Ports

/-! # The routing table as a family of pools

With numeric ports, each application of each table stands for a pool of backends,
and each call does to the table what its request does to the pool. Invariants of
every run, and the calls that break them, are read off the pools.
-/

namespace NginxInterface

open Foundation Js

variable {N : Type} [Number N]

/-! ## Instances that stand for backends -/

/-- The instance the operations store for a backend. -/
def Backend.toInstance (backend : Backend N) : Instance N where
  port := .num backend.port
  backup := if backend.backup then .bool true else .undefined

def Pool.instances (pool : Pool N) : Instances N := .list (pool.backends.map Backend.toInstance)

@[simp] theorem Backend.toInstance_truthy (backend : Backend N) :
    backend.toInstance.backup.truthy = backend.backup := by
  unfold toInstance
  cases backend.backup <;> rfl

omit [Number N] in
theorem map_toInstance_port (backends : List (Backend N)) :
    (backends.map Backend.toInstance).map Instance.port =
      (backends.map Backend.port).map .num := by
  rw [List.map_map, List.map_map]
  rfl

omit [Number N] in
theorem portInstances_eq (ports : List N) :
    portInstances ports =
      (ports.map Backend.primary).map Backend.toInstance := by
  rw [portInstances, List.map_map]
  rfl

/-- The instances of an update, as the pool lists them. -/
theorem demoted_backends (pool : Pool N) :
    demoted (pool.backends.map Backend.toInstance) =
      (pool.primaries.map Backend.fallback).map Backend.toInstance := by
  rw [demoted, Pool.primaries, List.filter_map, List.map_map, List.map_map, List.map_map]
  congr 1
  exact List.filter_congr fun backend _ => by simp

theorem removeSkipping_backends (port : N) (backends : List (Backend N)) :
    removeSkipping (fun item : Instance N => item.port.looseEq (.num port))
        (backends.map Backend.toInstance) =
      ((eraseSkipping (fun backend => decide (backend.port = port)) backends).map
        Backend.toInstance, .ok ()) := by
  rw [removeSkipping_eq_eraseSkipping _
    (fun item => match item.port with | .num other => decide (other = port) | _ => false),
    eraseSkipping_map]
  · rfl
  · intro item hitem
    obtain ⟨backend, _, rfl⟩ := List.mem_map.mp hitem
    rfl

/-! ## Binding a port twice -/

/-- The message of an update that is refused for a port in use. -/
def bindingMessage (appName : String) (port : N) : Text :=
  "Binding same port (previous ".toList ++ Number.toText port ++ ", new ".toList ++
    Number.toText port ++ " for app ".toList ++ appName.toList ++ ")".toList

theorem samePortMessage_num (appName : String) (port : N) :
    samePortMessage (.num port) (.num port) appName = .ok (bindingMessage appName port) := rfl

theorem checkBinding_backends (appName : String) (old : Backend N) (news : List (Backend N)) :
    checkBinding appName old.toInstance (news.map Backend.toInstance) =
      if old.port ∈ news.map Backend.port then .error (.error (bindingMessage appName old.port))
      else .ok () := by
  induction news with
  | nil => rfl
  | cons new rest ih =>
      have hport : old.toInstance.port.looseEq new.toInstance.port =
          .ok (decide (old.port = new.port)) := rfl
      simp only [List.map_cons, checkBinding, hport, bind, Except.bind]
      by_cases hsame : old.port = new.port
      · have hmessage : samePortMessage old.toInstance.port new.toInstance.port appName =
            .ok (bindingMessage appName old.port) := by
          simp only [Backend.toInstance, ← hsame, samePortMessage_num]
        simp only [hmessage, hsame, decide_true, if_true, List.mem_cons_self]
        rfl
      · simp [hsame, ih]

/-- The two loops of an update meet no port twice: no old port is among the new ones,
and none is among the backups made of the old ones before it. -/
def Unbound (olds news : List (Backend N)) : Prop :=
  (∀ old ∈ olds, old.port ∉ news.map Backend.port) ∧
    olds.Pairwise fun earlier later => earlier.backup = false → earlier.port ≠ later.port

omit [Number N] in
theorem unbound_cons {old : Backend N} {rest news : List (Backend N)}
    (h : old.port ∉ news.map Backend.port) :
    Unbound (old :: rest) news ↔ Unbound rest
      (if old.backup then news else news ++ [.fallback old.port]) := by
  unfold Unbound
  rw [List.pairwise_cons, List.forall_mem_cons]
  cases old.backup with
  | true => simp [h]
  | false =>
      simp only [h, not_false_eq_true, true_and, forall_const, Bool.false_eq_true, if_false,
        List.map_append, List.map_cons, List.map_nil, List.mem_append, List.mem_singleton, not_or]
      constructor
      · rintro ⟨hnews, hrest, hpairs⟩
        exact ⟨fun later hlater => ⟨hnews later hlater, (hrest later hlater).symm⟩, hpairs⟩
      · rintro ⟨hboth, hpairs⟩
        exact ⟨fun later hlater => (hboth later hlater).1,
          fun later hlater => Ne.symm (hboth later hlater).2, hpairs⟩

theorem demotePrevious_backends (appName : String) (olds news : List (Backend N)) :
    (Unbound olds news ∧ ∃ swapped, demotePrevious appName (olds.map Backend.toInstance)
      (.list (news.map Backend.toInstance)) = .ok swapped) ∨
    (¬Unbound olds news ∧ ∃ port : N, demotePrevious appName (olds.map Backend.toInstance)
      (.list (news.map Backend.toInstance)) = .error (.error (bindingMessage appName port))) := by
  induction olds generalizing news with
  | nil => exact Or.inl ⟨⟨by simp, List.Pairwise.nil⟩, _, rfl⟩
  | cons old rest ih =>
      rw [List.map_cons, demotePrevious, checkBinding_backends, Backend.toInstance_truthy]
      by_cases hbound : old.port ∈ news.map Backend.port
      · refine Or.inr ⟨fun hunbound => hunbound.1 old List.mem_cons_self hbound, old.port, ?_⟩
        rw [if_pos hbound]
        rfl
      · rw [if_neg hbound, unbound_cons hbound]
        -- the list the next round compares with, with the backup that was just made
        have hnext := ih (if old.backup then news
          else news ++ [.fallback old.port])
        rw [apply_ite (List.map Backend.toInstance), List.map_append] at hnext
        exact hnext

omit [Number N] in
theorem Pool.unbound_iff_accepts (pool : Pool N) (ports : List N) :
    Unbound pool.backends (ports.map .primary) ↔ pool.Accepts ports := by
  unfold Unbound Accepts
  rw [Backend.map_primary_port, Pool.ports, List.forall_mem_map, primaries, List.Nodup,
    List.pairwise_map, List.pairwise_filter]
  refine and_congr_right fun _ => ⟨fun hpairs => ?_, fun hpairs => ?_⟩
  · exact hpairs.imp fun hne hearlier _ => hne (by simpa using hearlier)
  · -- a backup behind a primary has another port in any pool
    refine hpairs.imp_of_mem ?_
    intro earlier later hearlier hlater hne hprimary hsame
    have hlaterPrimary : later.backup = false := by
      rw [← pool.separate earlier hearlier later hlater hsame, hprimary]
    exact hne (by simp [hprimary]) (by simp [hlaterPrimary]) hsame

/-! ## Calls as requests -/

/-- The calls with numeric ports, and what they ask of the pool of their application.
Of the in_port of an addition only its text matters. -/
inductive Call.Asks : Call N → Request N → Prop
  | add (appName : String) (opts : Opts N) (port : N) (hin : opts.inPort.printable = true)
      (hout : opts.outPort = .num port) : Asks (.addPortRouting appName opts) (.add port)
  | delete (appName : String) (port : N) :
      Asks (.deletePortRouting appName (.num port)) (.delete port)
  | swap (appName : String) (routing : Routing N) (ports : List N)
      (hout : routing.outPorts = .arr (ports.map .num)) :
      Asks (.addOrUpdateAppRouting appName (.object routing)) (.swap ports)
  | refused (appName : String) : Asks (.addOrUpdateAppRouting appName .notObject) .refused

/-- A call with numeric ports. -/
def Call.Numeric (call : Call N) : Prop := ∃ request, call.Asks request

/-- What a look-up finds for a pool. -/
def Found.Holds : Found N → Option (Pool N) → Prop
  | .own entry, some pool => entry.instances = pool.instances
  | .absent, none => True
  | _, _ => False

def Found.stored : Found N → Option (Entry N)
  | .own entry => some entry
  | _ => none

/-- The instances a change leaves are those of a pool. -/
def Change.Leaves (change : Change N) (found : Found N) (pool : Option (Pool N)) : Prop :=
  (change.apply found.stored).map Entry.instances = pool.map Pool.instances

omit [Number N] in
theorem Found.Holds.keep {found : Found N} {pool : Option (Pool N)} (h : found.Holds pool) :
    Change.keep.Leaves found pool := by
  cases found <;> cases pool <;> first | exact congrArg some h | rfl | exact h.elim

theorem addPortChange_pool {appName : String} {opts : Opts N} {port : N} {found : Found N}
    {pool : Option (Pool N)} (hin : opts.inPort.printable = true)
    (hout : opts.outPort = .num port) (hfound : found.Holds pool) :
    (addPortChange appName opts found).1.Leaves found ((Request.add port).apply pool) ∧
      (addPortChange appName opts found).2 = .updating := by
  cases found with
  | inherited => cases pool <;> cases hfound
  | absent =>
      cases pool with
      | some pool => cases hfound
      | none =>
          obtain ⟨message, hmessage⟩ :=
            forwardMessage_ok appName hin (show (Value.num port).printable = true from rfl)
          simp only [addPortChange, hout, hmessage, Change.Leaves, Opts.freshEntry, and_true]
          rfl
  | own own =>
      cases pool with
      | none => cases hfound
      | some pool =>
          rw [addPortChange_own hin hout hfound (map_toInstance_port pool.backends)]
          simp only [Request.apply, Option.getD_some]
          by_cases hport : port ∈ pool.backends.map Backend.port
          · have hkeep : pool.add port = pool := dif_pos hport
            rw [if_pos hport, hkeep]
            exact ⟨hfound.keep, rfl⟩
          · have hadd : pool.add port = pool.append port hport := dif_neg hport
            rw [if_neg hport, hadd, Change.Leaves]
            simp only [Change.apply, Option.map_some, Pool.instances, Pool.append, List.map_append,
              and_true]
            rfl

theorem deletePortChange_pool {port : N} {found : Found N} {pool : Option (Pool N)}
    (hfound : found.Holds pool) :
    (deletePortChange (.num port) found).1.Leaves found ((Request.delete port).apply pool) := by
  cases found with
  | inherited => cases pool <;> cases hfound
  | absent =>
      cases pool with
      | some pool => cases hfound
      | none => rfl
  | own own =>
      cases pool with
      | none => cases hfound
      | some pool =>
          have hitems : own.instances = .list (pool.backends.map Backend.toInstance) := hfound
          simp only [deletePortChange, hitems, removeSkipping_backends, List.map_eq_nil_iff,
            Request.apply, List.isEmpty_iff]
          have hkept : (pool.delete port).backends =
            eraseSkipping (fun backend => decide (backend.port = port)) pool.backends := rfl
          by_cases hempty : (pool.delete port).backends = []
          · simp only [← hkept, hempty, if_true]
            rfl
          · simp only [← hkept, hempty, if_false]
            rfl

/-- An update is accepted if the pool accepts its ports, and throws otherwise. -/
theorem updateChange_pool {appName : String} {routing : Routing N} {ports : List N}
    {found : Found N} {pool : Option (Pool N)} (hout : routing.outPorts = .arr (ports.map .num))
    (hfound : found.Holds pool) :
    (updateChange appName (.object routing) found).1.Leaves found
        ((Request.swap ports).apply pool) ∧
      ((pool.getD .empty).Accepts ports ∧
          (updateChange appName (.object routing) found).2 = .updating ∨
        ¬(pool.getD .empty).Accepts ports ∧ ∃ port : N,
          updateChange appName (.object routing) found =
            (.keep, .threw (.error (bindingMessage appName port)))) := by
  have hnew : newInstances routing.outPorts =
      .list ((ports.map Backend.primary).map Backend.toInstance) := by
    rw [hout, newInstances_ports, portInstances_eq]
  cases found with
  | inherited => cases pool <;> cases hfound
  | absent =>
      cases pool with
      | some pool => cases hfound
      | none =>
          have haccepts : (Pool.empty : Pool N).Accepts ports := ⟨by simp [Pool.ports, Pool.empty],
            List.nodup_nil⟩
          refine ⟨?_, Or.inl ⟨haccepts, rfl⟩⟩
          simp only [updateChange, Change.Leaves, Request.apply, Option.getD_none, haccepts,
            dif_pos, Routing.newEntry, hnew]
          simp [Change.apply, Pool.instances, Pool.swap, Pool.primaries, Pool.empty]
  | own own =>
      cases pool with
      | none => cases hfound
      | some pool =>
          have hitems : own.instances = .list (pool.backends.map Backend.toInstance) := hfound
          simp only [updateChange, hitems, hnew, Option.getD_some, Request.apply]
          rcases demotePrevious_backends appName pool.backends
            (ports.map .primary) with
            ⟨hunbound, swapped, hswap⟩ | ⟨hbound, port, hfault⟩
          · have haccepts := (pool.unbound_iff_accepts ports).mp hunbound
            simp only [hswap, haccepts, dif_pos, and_true, Change.Leaves,
              demotePrevious_list hswap, demoted_backends]
            simp [Change.apply, Routing.newEntry, Pool.instances, Pool.swap]
          · have hrefused : ¬pool.Accepts ports := fun haccepts =>
              hbound ((pool.unbound_iff_accepts ports).mpr haccepts)
            simp only [hfault, hrefused, dif_neg, not_false_eq_true]
            exact ⟨hfound.keep, Or.inr ⟨trivial, port, rfl⟩⟩

theorem Call.Asks.change_leaves {call : Call N} {request : Request N} {found : Found N}
    {pool : Option (Pool N)} (hcall : call.Asks request) (hfound : found.Holds pool) :
    (call.change found).1.Leaves found (request.apply pool) := by
  cases hcall with
  | add appName opts port hin hout => exact (addPortChange_pool hin hout hfound).1
  | delete appName port => exact deletePortChange_pool hfound
  | swap appName routing ports hout => exact (updateChange_pool hout hfound).1
  | refused appName => exact hfound.keep

/-! ## The table as pools -/

/-- The pools of all applications. -/
abbrev Pools (N : Type) := Mode → String → Option (Pool N)

def Pools.set (pools : Pools N) (mode : Mode) (appName : String) (pool : Option (Pool N)) :
    Pools N :=
  fun other query => if (other, query) = (mode, appName) then pool else pools other query

/-- A name of `Object.prototype` never gets a pool. -/
structure Conf.Represents (conf : Conf N) (pools : Pools N) : Prop where
  instances : ∀ mode appName, (conf.appEntry mode appName).map Entry.instances =
    (pools mode appName).map Pool.instances
  inherited : ∀ mode, ∀ appName ∈ objectPrototypeNames, pools mode appName = none

/-- The pool of the application of a call after the call. -/
def Pools.answer (pools : Pools N) (call : Call N) (request : Request N) : Option (Pool N) :=
  if call.appName ∈ objectPrototypeNames then none
  else request.apply (pools call.mode call.appName)

namespace Conf.Represents

theorem initial (debugMode statusPort : Value N) :
    (Conf.initial debugMode statusPort).Represents fun _ _ => none where
  instances mode appName := by rw [appEntry_initial]; rfl
  inherited _ _ _ := rfl

variable {conf : Conf N} {pools : Pools N}

omit [Number N] in
theorem lookup_holds (h : conf.Represents pools) (mode : Mode) {appName : String}
    (hname : appName ∉ objectPrototypeNames) :
    (conf.lookup mode appName).Holds (pools mode appName) := by
  have hinstances := h.instances mode appName
  cases hentry : conf.appEntry mode appName with
  | none =>
      rw [hentry, Option.map_none, eq_comm, Option.map_eq_none_iff] at hinstances
      rw [(conf.lookup_eq_absent_iff mode appName).mpr ⟨hentry, hname⟩, hinstances]
      trivial
  | some entry =>
      rw [hentry, Option.map_some, eq_comm, Option.map_eq_some_iff] at hinstances
      obtain ⟨pool, hpool, heq⟩ := hinstances
      rw [Conf.lookup_of_appEntry hentry, hpool]
      exact heq.symm

omit [Number N] in
theorem lookup_inherited (h : conf.Represents pools) (mode : Mode) {appName : String}
    (hname : appName ∈ objectPrototypeNames) : conf.lookup mode appName = .inherited := by
  have hinstances := h.instances mode appName
  rw [h.inherited mode appName hname, Option.map_none, Option.map_eq_none_iff] at hinstances
  exact Conf.lookup_inherited hinstances hname

/-- The step of the simulation. -/
theorem exec (h : conf.Represents pools) {call : Call N} {request : Request N}
    (hcall : call.Asks request) :
    (call.exec conf).1.Represents
      (pools.set call.mode call.appName (pools.answer call request)) where
  instances mode appName := by
    rw [Call.exec_eq]
    unfold Pools.set
    by_cases hsame : (mode, appName) = (call.mode, call.appName)
    · cases hsame
      rw [if_pos rfl, Conf.appEntry_change_self]
      unfold Pools.answer
      by_cases hname : call.appName ∈ objectPrototypeNames
      · rw [if_pos hname, h.lookup_inherited call.mode hname]
        have hnone := h.instances call.mode call.appName
        rw [h.inherited call.mode call.appName hname] at hnone
        rw [Call.change_inherited]
        exact hnone
      · rw [if_neg hname]
        have hholds := h.lookup_holds call.mode hname
        have hentry : (conf.lookup call.mode call.appName).stored =
            conf.appEntry call.mode call.appName := by
          unfold Conf.lookup
          cases conf.appEntry call.mode call.appName with
          | some entry => rfl
          | none => simp [hname, Found.stored]
        rw [← hentry]
        exact hcall.change_leaves hholds
    · rw [if_neg hsame, Conf.appEntry_change_of_ne conf _ hsame]
      exact h.instances mode appName
  inherited mode appName hname := by
    unfold Pools.set
    split
    next hsame =>
      cases hsame
      exact if_pos hname
    · exact h.inherited mode appName hname

theorem execAll (h : conf.Represents pools) {calls : List (Call N)}
    (hcalls : ∀ call ∈ calls, call.Numeric) :
    ∃ pools, (NginxInterface.execAll conf calls).Represents pools := by
  induction calls generalizing conf pools with
  | nil => exact ⟨pools, h⟩
  | cons call rest ih =>
      obtain ⟨request, hasks⟩ := hcalls call List.mem_cons_self
      exact ih (h.exec hasks) fun other hother => hcalls other (List.mem_cons_of_mem _ hother)

end Conf.Represents

end NginxInterface
