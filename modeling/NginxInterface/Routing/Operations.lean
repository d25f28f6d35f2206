import NginxInterface.Foundation.SpliceLoop
import NginxInterface.Routing.Config

/-! # The routing operations

Each operation changes `current_conf` before it returns and then, unless it
threw or called back with an error, starts `updateConfiguration`. This module
embeds the synchronous part: the new configuration and how the call left it. The
part after that never touches the configuration again.

Every operation looks up one application of one table and writes at most that
entry. `Call.exec_eq` states this once, through the change that a call makes to
what it finds; later proofs use the change and not the operation.
-/

namespace NginxInterface

open Foundation Js

variable {N : Type} [Number N]

/-- The `opts` argument of `addPortRouting`. A missing field is `undefined`. -/
structure Opts (N : Type) where
  inPort : Value N := .undefined
  outPort : Value N := .undefined
  lbMode : Value N := .undefined
  mode : Option Mode := none

/-- The fields read from the `routing` argument of `addOrUpdateAppRouting`. -/
structure Routing (N : Type) where
  inPort : Value N := .undefined
  outPorts : Value N := .undefined
  lbMode : Value N := .undefined
  mode : Option Mode := none

/-- The `routing` argument itself: anything that is not an object is refused. -/
inductive RoutingArg (N : Type) where
  | notObject
  | object (routing : Routing N)

/-- How the synchronous part of a call ended: it threw, it gave its callback an
error at once or left that to the next tick, or it went on to
`updateConfiguration`. -/
inductive Outcome where
  | threw (fault : Fault)
  | calledBack (fault : Fault)
  | deferred (fault : Fault)
  | updating
  deriving DecidableEq

/-! ## Adding a port -/

/-- The loop that looks for `out_port` among the instances. A match is reported
on the console, which converts `out_port` to text. -/
def portUsed (outPort : Value N) : Bool → List (Instance N) → Except Fault Bool
  | used, [] => .ok used
  | used, item :: rest => do
      if ← item.port.looseEq outPort then
        let _ ← outPort.toText
        portUsed outPort true rest
      else portUsed outPort used rest

/-- The line printed before a port is added. -/
def forwardMessage (inPort outPort : Value N) (appName : String) : Except Fault Text := do
  let source ← inPort.toText
  let target ← outPort.toText
  return "Fwding ".toList ++ source ++ " -> ".toList ++ target ++
    " | Application ".toList ++ appName.toList

def addPortRouting (conf : Conf N) (appName : String) (opts : Opts N) : Conf N × Outcome :=
  let lbMode := opts.lbMode.or .null
  let proxyMode := opts.mode.getD .http
  let conf :=
    match conf.lookup proxyMode appName with
    | .absent => conf.put proxyMode appName
        { port := opts.inPort, instances := .list [], balance := lbMode }
    | _ => conf
  match conf.lookup proxyMode appName with
  | .own entry =>
      match entry.instances with
      | .list items =>
          match portUsed opts.outPort false items with
          | .error fault => (conf, .threw fault)
          | .ok true => (conf, .updating)
          | .ok false =>
              match forwardMessage opts.inPort opts.outPort appName with
              | .error fault => (conf, .threw fault)
              | .ok _ =>
                  (conf.put proxyMode appName
                    { entry with instances := .list (items ++ [{ port := opts.outPort }]) },
                    .updating)
      | .other _ => (conf, .threw .typeError)
  | _ => (conf, .threw .typeError)

/-! ## Deleting a port -/

def unknownApplication : Fault := .error "Unknown application".toList

def deletePortRouting (conf : Conf N) (appName : String) (port : Value N) :
    Conf N × Outcome :=
  match conf.lookup .http appName with
  | .absent => (conf, .deferred unknownApplication)
  | .inherited => (conf, .threw .typeError)
  | .own entry =>
      match entry.instances with
      | .other _ => (conf, .threw .typeError)
      | .list items =>
          let loop := spliceLoop (fun item => item.port.looseEq port) items.length 0 items
          let conf := conf.put .http appName { entry with instances := .list loop.1 }
          match loop.2 with
          | .error fault => (conf, .threw fault)
          | .ok () =>
              if loop.1.length = 0 then (conf.remove .http appName, .updating)
              else (conf, .updating)

/-! ## Replacing the ports of an application -/

def wrongRoutingObject : Fault := .error "Wrong routing object".toList

def samePortMessage (oldPort newPort : Value N) (appName : String) : Except Fault Text := do
  let previous ← oldPort.toText
  let new ← newPort.toText
  return "Binding same port (previous ".toList ++ previous ++ ", new ".toList ++ new ++
    " for app ".toList ++ appName.toList ++ ")".toList

/-- The inner loop: refuse a new port that an old instance already has. -/
def checkBinding (appName : String) (old : Instance N) :
    List (Instance N) → Except Fault Unit
  | [] => .ok ()
  | new :: rest => do
      if ← old.port.looseEq new.port then
        throw (.error (← samePortMessage old.port new.port appName))
      else checkBinding appName old rest

/-- The outer loop: every old instance that is not a backup is appended to the
new ones as a backup. The new ports may not be a list; calling `forEach` on them
throws then. -/
def demotePrevious (appName : String) :
    List (Instance N) → Instances N → Except Fault (Instances N)
  | [], newOutPorts => .ok newOutPorts
  | _ :: _, .other _ => .error .typeError
  | old :: rest, .list items => do
      checkBinding appName old items
      demotePrevious appName rest <| .list <|
        if old.backup.truthy then items
        else items ++ [{ port := old.port, backup := .bool true }]

/-- `new_out_ports` after the conversion of arrays. -/
def newInstances : Value N → Instances N
  | .arr ports => .list (ports.map fun port => { port := port })
  | value => .other value

def addOrUpdateAppRouting (conf : Conf N) (appName : String) (routing : RoutingArg N) :
    Conf N × Outcome :=
  match routing with
  | .notObject => (conf, .calledBack wrongRoutingObject)
  | .object routing =>
      let lbMode := routing.lbMode.or (.str "round_robin")
      let proxyMode := routing.mode.getD .stream
      let swapped : Except Fault (Instances N) :=
        match conf.lookup proxyMode appName with
        | .absent => .ok (newInstances routing.outPorts)
        | .inherited => .error .typeError
        | .own previous =>
            match previous.instances with
            | .other _ => .error .typeError
            | .list items => demotePrevious appName items (newInstances routing.outPorts)
      match swapped with
      | .error fault => (conf, .threw fault)
      | .ok newOutPorts =>
          (conf.put proxyMode appName
            { port := routing.inPort, instances := newOutPorts, balance := lbMode }, .updating)

/-- The configuration the constructor builds without options. -/
def emptyConf : Conf Int := .initial .undefined .undefined

/-! ## Calls -/

inductive Call (N : Type) where
  | addPortRouting (appName : String) (opts : Opts N)
  | deletePortRouting (appName : String) (port : Value N)
  | addOrUpdateAppRouting (appName : String) (routing : RoutingArg N)

namespace Call

/-- The synchronous part of a call. -/
def exec (call : Call N) (conf : Conf N) : Conf N × Outcome :=
  match call with
  | .addPortRouting appName opts => NginxInterface.addPortRouting conf appName opts
  | .deletePortRouting appName port => NginxInterface.deletePortRouting conf appName port
  | .addOrUpdateAppRouting appName routing =>
      NginxInterface.addOrUpdateAppRouting conf appName routing

def appName : Call N → String
  | .addPortRouting appName _ => appName
  | .deletePortRouting appName _ => appName
  | .addOrUpdateAppRouting appName _ => appName

/-- The table a call works on. Deletion only knows the http table. -/
def mode : Call N → Mode
  | .addPortRouting _ opts => opts.mode.getD .http
  | .deletePortRouting _ _ => .http
  | .addOrUpdateAppRouting _ .notObject => .stream
  | .addOrUpdateAppRouting _ (.object routing) => routing.mode.getD .stream

/-- The call that forwards one integer port to another in the default mode. -/
def forward (appName : String) (inPort outPort : Int) : Call Int :=
  .addPortRouting appName { inPort := .num inPort, outPort := .num outPort }

/-- The update of an application in a given mode. -/
def swap (appName : String) (mode : Mode) (inPort : Int) (outPorts : Value Int) : Call Int :=
  .addOrUpdateAppRouting appName
    (.object { inPort := .num inPort, outPorts := outPorts, mode := some mode })

end Call

/-- Run the synchronous parts of a list of calls in order. -/
def execAll (conf : Conf N) (calls : List (Call N)) : Conf N :=
  calls.foldl (fun conf call => (call.exec conf).1) conf

@[simp] theorem execAll_nil (conf : Conf N) : execAll conf [] = conf := rfl

@[simp] theorem execAll_cons (conf : Conf N) (call : Call N) (rest : List (Call N)) :
    execAll conf (call :: rest) = execAll (call.exec conf).1 rest := rfl

theorem execAll_append (conf : Conf N) (first second : List (Call N)) :
    execAll conf (first ++ second) = execAll (execAll conf first) second := by
  unfold execAll
  exact List.foldl_append

/-- Every call of the list meets a condition in the configuration in which it
arrives. -/
def RunMeets (condition : Conf N → Call N → Prop) : Conf N → List (Call N) → Prop
  | _, [] => True
  | conf, call :: rest => condition conf call ∧ RunMeets condition (call.exec conf).1 rest

theorem RunMeets.append {condition : Conf N → Call N → Prop} {conf : Conf N}
    {first second : List (Call N)} (h : RunMeets condition conf (first ++ second)) :
    RunMeets condition conf first ∧ RunMeets condition (execAll conf first) second := by
  induction first generalizing conf with
  | nil => exact ⟨trivial, h⟩
  | cons call rest ih =>
      obtain ⟨hrest, hsecond⟩ := ih h.2
      exact ⟨⟨h.1, hrest⟩, hsecond⟩

/-- A property that one call keeps exactly under a condition holds in every state of a
run exactly if every call of the run meets the condition. -/
theorem runMeets_iff_every {allowed : Call N → Prop} {inv good : Conf N → Prop}
    {condition : Conf N → Call N → Prop}
    (hinv : ∀ conf call, allowed call → inv conf → inv (call.exec conf).1)
    (hstep : ∀ conf call, allowed call → inv conf → good conf →
      (good (call.exec conf).1 ↔ condition conf call))
    {conf : Conf N} {calls : List (Call N)} (hcalls : ∀ call ∈ calls, allowed call)
    (hconf : inv conf) (hgood : good conf) :
    (∀ earlier, earlier <+: calls → good (execAll conf earlier)) ↔
      RunMeets condition conf calls := by
  induction calls generalizing conf with
  | nil => exact iff_of_true (fun earlier h => List.prefix_nil.mp h ▸ hgood) trivial
  | cons call rest ih =>
      have hallowed := hcalls call List.mem_cons_self
      have hfirst := hstep conf call hallowed hconf hgood
      have hrest := fun hnext =>
        ih (fun other hother => hcalls other (List.mem_cons_of_mem _ hother))
          (hinv conf call hallowed hconf) hnext
      constructor
      · intro hevery
        have hnext : good (call.exec conf).1 := hevery [call] (by simp)
        exact ⟨hfirst.mp hnext, (hrest hnext).mp fun earlier h =>
          hevery (call :: earlier) (List.prefix_cons_inj call |>.mpr h)⟩
      · rintro ⟨hcondition, hmeets⟩ earlier h
        rcases List.prefix_cons_iff.mp h with rfl | ⟨others, rfl, hothers⟩
        · exact hgood
        · exact (hrest (hfirst.mpr hcondition)).mpr hmeets others hothers

/-! ## Calls as changes of one entry -/

/-- What a call does to the entry it works on. -/
inductive Change (N : Type) where
  | keep
  | store (entry : Entry N)
  | drop

/-- The entry left by a change. -/
def Change.apply : Change N → Option (Entry N) → Option (Entry N)
  | .keep, entry => entry
  | .store entry, _ => some entry
  | .drop, _ => none

namespace Conf

def change (conf : Conf N) (mode : Mode) (appName : String) : Change N → Conf N
  | .keep => conf
  | .store entry => conf.put mode appName entry
  | .drop => conf.remove mode appName

omit [Number N]

theorem appEntry_change_self (conf : Conf N) (mode : Mode) (appName : String)
    (change : Change N) :
    (conf.change mode appName change).appEntry mode appName =
      change.apply (conf.appEntry mode appName) := by
  cases change with
  | keep => rfl
  | store entry => exact appEntry_put_self conf mode appName entry
  | drop => exact appEntry_remove_self conf mode appName

theorem appEntry_change_of_ne (conf : Conf N) {mode other : Mode} {appName query : String}
    (change : Change N) (hne : (other, query) ≠ (mode, appName)) :
    (conf.change mode appName change).appEntry other query = conf.appEntry other query := by
  cases change with
  | keep => rfl
  | store entry => exact appEntry_put_of_ne conf entry hne
  | drop => exact appEntry_remove_of_ne conf hne

/-- What a change did to an entry is gone with the entry. -/
theorem remove_change (conf : Conf N) (mode : Mode) (appName : String) (change : Change N) :
    (conf.change mode appName change).remove mode appName = conf.remove mode appName := by
  cases change with
  | keep => rfl
  | store entry => exact remove_put conf mode appName entry
  | drop => exact remove_remove conf mode appName

@[simp] theorem change_debugMode (conf : Conf N) (mode : Mode) (appName : String)
    (change : Change N) : (conf.change mode appName change).debugMode = conf.debugMode := by
  cases change <;> simp [Conf.change, put, remove]

@[simp] theorem change_statusPort (conf : Conf N) (mode : Mode) (appName : String)
    (change : Change N) : (conf.change mode appName change).statusPort = conf.statusPort := by
  cases change <;> simp [Conf.change, put, remove]

end Conf

/-- The entry `addPortRouting` creates for an unknown application. -/
def Opts.freshEntry (opts : Opts N) (items : List (Instance N)) : Entry N where
  port := opts.inPort
  instances := .list items
  balance := opts.lbMode.or .null

def addPortChange (appName : String) (opts : Opts N) : Found N → Change N × Outcome
  | .inherited => (.keep, .threw .typeError)
  | .absent =>
      match forwardMessage opts.inPort opts.outPort appName with
      -- the empty entry has been created by the time the message is built
      | .error fault => (.store (opts.freshEntry []), .threw fault)
      | .ok _ => (.store (opts.freshEntry [{ port := opts.outPort }]), .updating)
  | .own entry =>
      match entry.instances with
      | .other _ => (.keep, .threw .typeError)
      | .list items =>
          match portUsed opts.outPort false items with
          | .error fault => (.keep, .threw fault)
          | .ok true => (.keep, .updating)
          | .ok false =>
              match forwardMessage opts.inPort opts.outPort appName with
              | .error fault => (.keep, .threw fault)
              | .ok _ =>
                  (.store { entry with
                    instances := .list (items ++ [{ port := opts.outPort }]) }, .updating)

def deletePortChange (port : Value N) : Found N → Change N × Outcome
  | .absent => (.keep, .deferred unknownApplication)
  | .inherited => (.keep, .threw .typeError)
  | .own entry =>
      match entry.instances with
      | .other _ => (.keep, .threw .typeError)
      | .list items =>
          let loop := removeSkipping (fun item => item.port.looseEq port) items
          match loop.2 with
          | .error fault => (.store { entry with instances := .list loop.1 }, .threw fault)
          | .ok () =>
              if loop.1 = [] then (.drop, .updating)
              else (.store { entry with instances := .list loop.1 }, .updating)

/-- The entry `addOrUpdateAppRouting` stores. -/
def Routing.newEntry (routing : Routing N) (items : Instances N) : Entry N where
  port := routing.inPort
  instances := items
  balance := routing.lbMode.or (.str "round_robin")

def updateChange (appName : String) : RoutingArg N → Found N → Change N × Outcome
  | .notObject, _ => (.keep, .calledBack wrongRoutingObject)
  | .object _, .inherited => (.keep, .threw .typeError)
  | .object routing, .absent =>
      (.store (routing.newEntry (newInstances routing.outPorts)), .updating)
  | .object routing, .own previous =>
      match previous.instances with
      | .other _ => (.keep, .threw .typeError)
      | .list items =>
          match demotePrevious appName items (newInstances routing.outPorts) with
          | .error fault => (.keep, .threw fault)
          | .ok newOutPorts => (.store (routing.newEntry newOutPorts), .updating)

def Call.change : Call N → Found N → Change N × Outcome
  | .addPortRouting appName opts => addPortChange appName opts
  | .deletePortRouting _ port => deletePortChange port
  | .addOrUpdateAppRouting appName routing => updateChange appName routing

/-- No call stores anything under a name of `Object.prototype`. -/
theorem Call.change_inherited (call : Call N) : (call.change .inherited).1 = .keep := by
  rcases call with _ | _ | ⟨_, _ | _⟩ <;> rfl

theorem addPortRouting_eq (conf : Conf N) (appName : String) (opts : Opts N) :
    addPortRouting conf appName opts =
      let result := addPortChange appName opts (conf.lookup (opts.mode.getD .http) appName)
      (conf.change (opts.mode.getD .http) appName result.1, result.2) := by
  unfold addPortRouting addPortChange
  cases hlookup : conf.lookup (opts.mode.getD .http) appName with
  | inherited => simp [hlookup, Conf.change]
  | absent =>
      -- the second look-up of the call sees the entry it has just created
      have hfresh : ∀ entry, (conf.put (opts.mode.getD .http) appName entry).lookup
          (opts.mode.getD .http) appName = .own entry := fun entry =>
        Conf.lookup_of_appEntry (Conf.appEntry_put_self _ _ _ _)
      simp only [hlookup, hfresh, portUsed]
      cases forwardMessage opts.inPort opts.outPort appName with
      | error fault => rfl
      | ok message =>
          simp only [Conf.put_put, List.nil_append]
          rfl
  | own entry =>
      simp only [hlookup]
      cases entry.instances with
      | other value => rfl
      | list items =>
          dsimp only
          cases portUsed opts.outPort false items with
          | error fault => rfl
          | ok used =>
              cases used with
              | true => rfl
              | false =>
                  dsimp only
                  cases forwardMessage opts.inPort opts.outPort appName <;> rfl

theorem deletePortRouting_eq (conf : Conf N) (appName : String) (port : Value N) :
    deletePortRouting conf appName port =
      let result := deletePortChange port (conf.lookup .http appName)
      (conf.change .http appName result.1, result.2) := by
  unfold deletePortRouting deletePortChange
  cases conf.lookup .http appName with
  | inherited => rfl
  | absent => rfl
  | own entry =>
      cases hinstances : entry.instances with
      | other value => simp only [hinstances]; rfl
      | list items =>
          have hloop := spliceLoop_eq_removeSkipping (fun item => item.port.looseEq port)
            [] items items.length le_rfl
          simp only [List.length_nil, List.nil_append] at hloop
          simp only [hinstances, hloop]
          cases (removeSkipping (fun item => item.port.looseEq port) items).2 with
          | error fault => rfl
          | ok _ =>
              simp only [List.length_eq_zero_iff]
              split
              · simp only [Conf.change, Conf.remove_put]
              · rfl

theorem addOrUpdateAppRouting_eq (conf : Conf N) (appName : String) (routing : RoutingArg N) :
    addOrUpdateAppRouting conf appName routing =
      let mode := (Call.addOrUpdateAppRouting appName routing).mode
      let result := updateChange appName routing (conf.lookup mode appName)
      (conf.change mode appName result.1, result.2) := by
  cases routing with
  | notObject => rfl
  | object routing =>
      unfold addOrUpdateAppRouting
      simp only [Call.mode]
      cases conf.lookup (routing.mode.getD .stream) appName with
      | inherited => rfl
      | absent => rfl
      | own previous =>
          cases hinstances : previous.instances with
          | other value => simp only [updateChange, hinstances]; rfl
          | list items =>
              simp only [updateChange, hinstances]
              cases demotePrevious appName items (newInstances routing.outPorts) <;> rfl

/-- Every call reads one entry and changes at most that entry. -/
theorem Call.exec_eq (call : Call N) (conf : Conf N) :
    call.exec conf =
      let result := call.change (conf.lookup call.mode call.appName)
      (conf.change call.mode call.appName result.1, result.2) := by
  cases call with
  | addPortRouting appName opts => exact addPortRouting_eq conf appName opts
  | deletePortRouting appName port => exact deletePortRouting_eq conf appName port
  | addOrUpdateAppRouting appName routing =>
      exact addOrUpdateAppRouting_eq conf appName routing

end NginxInterface
