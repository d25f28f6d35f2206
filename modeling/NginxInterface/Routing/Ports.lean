import NginxInterface.Routing.Stores

/-! # Numeric ports

On numeric ports loose equality is equality and every conversion succeeds. The
loops of the operations then do what they look like: the search finds the port, the
deletion removes it, and the update refuses a port that is already bound.
-/

namespace NginxInterface

open Foundation Js

variable {N : Type} [Number N]

/-- The instances `addPortRouting` creates for a list of ports. -/
def portInstances (ports : List N) : List (Instance N) :=
  ports.map fun port => { port := .num port }

omit [Number N] in
theorem portInstances_eq_nil_iff {ports : List N} : portInstances ports = [] ↔ ports = [] :=
  List.map_eq_nil_iff

omit [Number N] in
theorem newInstances_ports (ports : List N) :
    newInstances (.arr (ports.map .num)) = .list (portInstances ports) := by
  simp [newInstances, portInstances]

theorem portUsed_ports (port : N) (used : Bool) {items : List (Instance N)} {ports : List N}
    (h : items.map Instance.port = ports.map .num) :
    portUsed (.num port) used items = .ok (used || decide (port ∈ ports)) := by
  induction items generalizing used ports with
  | nil =>
      rw [List.map_nil, eq_comm, List.map_eq_nil_iff] at h
      simp [portUsed, h]
  | cons item rest ih =>
      obtain ⟨head, tail, rfl, hhead, htail⟩ := List.map_eq_cons_iff.mp h.symm
      by_cases hport : head = port
      · subst hport
        simp [portUsed, ih _ htail.symm, ← hhead, Value.toText, bind, Except.bind]
      · simp [portUsed, ih _ htail.symm, ← hhead, hport, Ne.symm hport, bind, Except.bind]

omit [Number N] in
theorem portInstances_port (ports : List N) :
    (portInstances ports).map Instance.port = ports.map .num := by
  rw [portInstances, List.map_map]
  rfl

/-- Deleting a port from distinct ports removes exactly that port. -/
theorem removeSkipping_ports (port : N) {ports : List N} (hnodup : ports.Nodup) :
    removeSkipping (fun item : Instance N => item.port.looseEq (.num port))
        (portInstances ports) =
      (portInstances (ports.filter fun other => !decide (other = port)), .ok ()) := by
  have hfilter := removeSkipping_eq_filter
    (fun item : Instance N => item.port.looseEq (.num port))
    (fun item => match item.port with | .num other => decide (other = port) | _ => false)
    (portInstances ports) ?_ ?_
  · rw [hfilter, portInstances, portInstances, List.filter_map]
    rfl
  · intro item hitem
    obtain ⟨other, _, rfl⟩ := List.mem_map.mp hitem
    rfl
  · refine (List.isChain_map _).mpr (hnodup.imp ?_).isChain
    rintro left right hne ⟨hleft, hright⟩
    exact hne ((of_decide_eq_true hleft).trans (of_decide_eq_true hright).symm)

/-- Adding a numeric port to an entry with numeric ports. -/
theorem addPortChange_own {appName : String} {opts : Opts N} {entry : Entry N} {port : N}
    {items : List (Instance N)} {ports : List N} (hin : opts.inPort.printable = true)
    (hout : opts.outPort = .num port) (hitems : entry.instances = .list items)
    (hports : items.map Instance.port = ports.map .num) :
    addPortChange appName opts (.own entry) =
      if port ∈ ports then (.keep, .updating)
      else (.store { entry with instances := .list (items ++ [{ port := .num port }]) },
        .updating) := by
  obtain ⟨message, hmessage⟩ :=
    forwardMessage_ok appName hin (show (Value.num port).printable = true from rfl)
  simp only [addPortChange, hitems, hout, portUsed_ports _ _ hports, Bool.false_or, hmessage]
  by_cases hport : port ∈ ports
  · simp [hport]
  · simp [hport]

theorem addPortChange_ports {appName : String} {opts : Opts N} {entry : Entry N} {port : N}
    {ports : List N} (hin : opts.inPort.printable = true) (hout : opts.outPort = .num port)
    (hports : entry.instances = .list (portInstances ports)) :
    addPortChange appName opts (.own entry) =
      if port ∈ ports then (.keep, .updating)
      else (.store { entry with instances := .list (portInstances (ports ++ [port])) },
        .updating) := by
  rw [addPortChange_own hin hout hports (portInstances_port ports), portInstances, portInstances,
    List.map_append]
  rfl

/-- Deleting a numeric port from an entry with distinct numeric ports. -/
theorem deletePortChange_ports {entry : Entry N} (port : N) {ports : List N}
    (hports : entry.instances = .list (portInstances ports)) (hnodup : ports.Nodup) :
    deletePortChange (.num port) (.own entry) =
      let kept := ports.filter fun other => !decide (other = port)
      if kept = [] then (.drop, .updating)
      else (.store { entry with instances := .list (portInstances kept) }, .updating) := by
  simp only [deletePortChange, hports, removeSkipping_ports port hnodup, portInstances_eq_nil_iff]

/-! ## Calls with numeric ports -/

/-- The calls that add the ports one by one. -/
def addCalls (mode : Mode) (appName : String) (lbMode inPort : Value N) (ports : List N) :
    List (Call N) :=
  ports.map fun port => .addPortRouting appName
    { inPort := inPort, outPort := .num port, lbMode := lbMode, mode := some mode }

/-- The call that adds them at once. -/
def bulkCall (mode : Mode) (appName : String) (lbMode inPort : Value N) (ports : List N) :
    Call N :=
  .addOrUpdateAppRouting appName <| .object
    { inPort := inPort, outPorts := .arr (ports.map .num), lbMode := lbMode, mode := some mode }

end NginxInterface
