import NginxInterface.Foundation.EditLog
import NginxInterface.Routing.Ports

/-! # The http table as a store

With numeric ports the http table is determined by the log of the ports that were
added to and deleted from each application. An application is there while one of its
ports is live; its instances are the live ports in the order in which they became
live, and its port and balancing method come from the addition that created it.
-/

namespace NginxInterface

open Foundation Js

variable {N : Type}

/-! ## Calls and logs -/

/-- A call that works on the http table with numeric ports. The mode of an addition
is given or left to the default. -/
inductive StoreCall (N : Type) where
  | add (appName : String) (inPort outPort : N) (lbMode : Value N) (explicitMode : Bool)
  | delete (appName : String) (port : N)

namespace StoreCall

def appName : StoreCall N → String
  | .add appName _ _ _ _ => appName
  | .delete appName _ => appName

/-- The call that is made. -/
def call : StoreCall N → Call N
  | .add appName inPort outPort lbMode explicitMode => .addPortRouting appName
      { inPort := .num inPort, outPort := .num outPort, lbMode := lbMode,
        mode := if explicitMode then some .http else none }
  | .delete appName port => .deletePortRouting appName (.num port)

/-- Its entry in the log of the application, with the in_port and the balancing
method of an addition as the payload. -/
def edit : StoreCall N → Edit (N × Value N) N
  | .add _ inPort outPort lbMode _ => .insert (inPort, lbMode) outPort
  | .delete _ port => .remove port

theorem call_appName (call : StoreCall N) : call.call.appName = call.appName := by
  cases call <;> rfl

theorem call_mode (call : StoreCall N) : call.call.mode = .http := by
  cases call with
  | add appName inPort outPort lbMode explicitMode => cases explicitMode <;> rfl
  | delete appName port => rfl

end StoreCall

/-- The log of one application. -/
def appLog (appName : String) (calls : List (StoreCall N)) : List (Edit (N × Value N) N) :=
  (calls.filter fun call => decide (call.appName = appName)).map StoreCall.edit

theorem appLog_concat (appName : String) (calls : List (StoreCall N)) (call : StoreCall N) :
    appLog appName (calls ++ [call]) =
      if call.appName = appName then appLog appName calls ++ [call.edit]
      else appLog appName calls := by
  unfold appLog
  by_cases hname : call.appName = appName
  · simp [List.filter_append, hname]
  · simp [List.filter_append, hname]

/-! ## The entry that belongs to a log -/

variable [Number N]

/-- The entry of an application with the given ports, created by the given addition. -/
def storedEntry (created : N × Value N) (ports : List N) : Entry N where
  port := .num created.1
  instances := .list (portInstances ports)
  balance := created.2.or .null

def entryOf (log : List (Edit (N × Value N) N)) : Option (Entry N) :=
  if Edit.liveKeys log = [] then none
  else (Edit.opening log).map fun created => storedEntry created (Edit.liveKeys log)

theorem entryOf_of_empty {log : List (Edit (N × Value N) N)} (h : Edit.liveKeys log = []) :
    entryOf log = none := if_pos h

theorem entryOf_of_live {log : List (Edit (N × Value N) N)} (h : Edit.liveKeys log ≠ []) :
    ∃ created, entryOf log = some (storedEntry created (Edit.liveKeys log)) ∧
      Edit.opening log = some created ∧ Edit.OpenedBy log created := by
  obtain ⟨created, hcreated, hopened⟩ := Edit.opening_of_live h
  exact ⟨created, by rw [entryOf, if_neg h, hcreated]; rfl, hcreated, hopened⟩

/-- Adding a port does to the entry what the insertion does to its log. -/
theorem add_entryOf (appName : String) {opts : Opts N} {inPort outPort : N}
    (hin : opts.inPort = .num inPort) (hout : opts.outPort = .num outPort) {found : Found N}
    {log : List (Edit (N × Value N) N)}
    (hempty : Edit.liveKeys log = [] → found = .absent)
    (hlive : ∀ entry, entryOf log = some entry → found = .own entry) :
    (addPortChange appName opts found).1.apply (entryOf log) =
      entryOf (log ++ [.insert (inPort, opts.lbMode) outPort]) := by
  have hprintable : opts.inPort.printable = true := by rw [hin, Value.printable_num]
  by_cases hkeys : Edit.liveKeys log = []
  · have hnew : Edit.liveKeys (log ++ [.insert (inPort, opts.lbMode) outPort]) = [outPort] := by
      rw [Edit.liveKeys_concat, hkeys]
      rfl
    -- the first port of the application: the call builds the entry and opens it
    rw [hempty hkeys, entryOf_of_empty hkeys, entryOf, hnew, if_neg (List.cons_ne_nil _ _),
      Edit.opening_insert, if_pos hkeys]
    simp only [addPortChange, Opts.freshEntry, hin, hout]
    rfl
  · obtain ⟨created, hentry, hopening, _⟩ := entryOf_of_live hkeys
    have hnew : Edit.liveKeys (log ++ [.insert (inPort, opts.lbMode) outPort]) =
        if outPort ∈ Edit.liveKeys log then Edit.liveKeys log
        else Edit.liveKeys log ++ [outPort] := Edit.liveKeys_concat _ _
    rw [hlive _ hentry, addPortChange_ports hprintable hout rfl, hentry, entryOf, hnew,
      Edit.opening_insert, if_neg hkeys, hopening]
    -- the entry keeps its in_port and balance; a port already there is not added again
    by_cases hmem : outPort ∈ Edit.liveKeys log
    · simp only [if_pos hmem, if_neg hkeys]
      rfl
    · simp only [if_neg hmem]
      rw [if_neg (by simp)]
      rfl

/-- Deleting a port does to the entry what the removal does to its log. -/
theorem delete_entryOf (port : N) {found : Found N} {log : List (Edit (N × Value N) N)}
    (hempty : Edit.liveKeys log = [] → found = .absent)
    (hlive : ∀ entry, entryOf log = some entry → found = .own entry) :
    (deletePortChange (.num port) found).1.apply (entryOf log) =
      entryOf (log ++ [.remove port]) := by
  have hnew : Edit.liveKeys (log ++ [.remove port]) =
      (Edit.liveKeys log).filter fun other => !decide (other = port) := Edit.liveKeys_concat _ _
  by_cases hkeys : Edit.liveKeys log = []
  · rw [hempty hkeys, entryOf_of_empty hkeys, entryOf_of_empty (by rw [hnew, hkeys]; rfl)]
    rfl
  · obtain ⟨created, hentry, hopening, _⟩ := entryOf_of_live hkeys
    rw [hlive _ hentry, deletePortChange_ports port rfl (Edit.liveKeys_nodup log), hentry,
      entryOf, hnew, Edit.opening_remove, hopening]
    by_cases hkept : ((Edit.liveKeys log).filter fun other => !decide (other = port)) = []
    · simp only [if_pos hkept]
      rfl
    · simp only [if_neg hkept]
      rfl

/-! ## Whole runs -/

theorem lookup_of_entryOf {conf : Conf N} {appName : String}
    {log : List (Edit (N × Value N) N)} (hname : appName ∉ objectPrototypeNames)
    (hconf : conf.appEntry .http appName = entryOf log) :
    (Edit.liveKeys log = [] → conf.lookup .http appName = .absent) ∧
      ∀ entry, entryOf log = some entry → conf.lookup .http appName = .own entry := by
  constructor
  · intro hkeys
    rw [entryOf_of_empty hkeys] at hconf
    exact (conf.lookup_eq_absent_iff .http appName).mpr ⟨hconf, hname⟩
  · intro entry hentry
    exact Conf.lookup_of_appEntry (hconf.trans hentry)

/-- A call keeps every application in step with its log. -/
theorem storeCall_entryOf {conf : Conf N} {calls : List (StoreCall N)} (call : StoreCall N)
    (hname : call.appName ∉ objectPrototypeNames)
    (hconf : ∀ appName, conf.appEntry .http appName = entryOf (appLog appName calls))
    (appName : String) :
    (call.call.exec conf).1.appEntry .http appName =
      entryOf (appLog appName (calls ++ [call])) := by
  rw [appLog_concat, Call.exec_eq]
  simp only [StoreCall.call_mode, StoreCall.call_appName]
  by_cases hsame : call.appName = appName
  · subst hsame
    obtain ⟨hempty, hlive⟩ := lookup_of_entryOf hname (hconf call.appName)
    rw [if_pos rfl, Conf.appEntry_change_self, hconf]
    cases call with
    | add appName inPort outPort lbMode explicitMode =>
        exact add_entryOf appName rfl rfl hempty hlive
    | delete appName port => exact delete_entryOf port hempty hlive
  · have hne : (Mode.http, appName) ≠ (.http, call.appName) := fun heq =>
      hsame (Prod.ext_iff.mp heq).2.symm
    rw [if_neg hsame, Conf.appEntry_change_of_ne conf _ hne, hconf]

theorem storeCall_frame (conf : Conf N) (call : StoreCall N) :
    (call.call.exec conf).1.stream = conf.stream ∧
      (call.call.exec conf).1.statusPort = conf.statusPort ∧
      (call.call.exec conf).1.debugMode = conf.debugMode := by
  rw [Call.exec_eq]
  simp only [StoreCall.call_mode, Conf.change_statusPort, Conf.change_debugMode, and_true]
  cases (call.call.change (conf.lookup .http call.call.appName)).1 <;> rfl

theorem execAll_entryOf (debugMode statusPort : Value N) (calls : List (StoreCall N))
    (hnames : ∀ call ∈ calls, call.appName ∉ objectPrototypeNames) :
    (∀ appName, (execAll (Conf.initial debugMode statusPort)
        (calls.map StoreCall.call)).appEntry .http appName = entryOf (appLog appName calls)) ∧
      (execAll (Conf.initial debugMode statusPort) (calls.map StoreCall.call)).stream = .empty ∧
      (execAll (Conf.initial debugMode statusPort) (calls.map StoreCall.call)).statusPort =
        statusPort ∧
      (execAll (Conf.initial debugMode statusPort) (calls.map StoreCall.call)).debugMode =
        debugMode.or (.bool false) := by
  induction calls using List.reverseRecOn with
  | nil => exact ⟨fun appName => Conf.appEntry_initial _ _ _ _, rfl, rfl, rfl⟩
  | append_singleton calls call ih =>
      obtain ⟨hentries, hstream, hstatus, hdebug⟩ :=
        ih fun other hother => hnames other (List.mem_append_left _ hother)
      rw [List.map_append, execAll_append, List.map_singleton, execAll_cons, execAll_nil]
      obtain ⟨hstreamStep, hstatusStep, hdebugStep⟩ := storeCall_frame
        (execAll (Conf.initial debugMode statusPort) (calls.map StoreCall.call)) call
      refine ⟨?_, hstreamStep.trans hstream, hstatusStep.trans hstatus, hdebugStep.trans hdebug⟩
      exact storeCall_entryOf call (hnames call (by simp)) hentries

/-- The http table after any calls with numeric ports, in terms of the calls alone. -/
theorem store_refines_log (debugMode statusPort : Value N) (calls : List (StoreCall N))
    (hnames : ∀ call ∈ calls, call.appName ∉ objectPrototypeNames) :
    let final := execAll (Conf.initial debugMode statusPort) (calls.map StoreCall.call)
    final.stream = .empty ∧ final.statusPort = statusPort ∧
      final.debugMode = debugMode.or (.bool false) ∧
      ∀ appName,
        ((final.appEntry .http appName).isSome = true ↔
          ∃ port, Edit.Live (appLog appName calls) port) ∧
        (∀ entry, final.appEntry .http appName = some entry →
          ∃ created ports, entry = storedEntry created ports ∧ ports.Nodup ∧
            (∀ port, port ∈ ports ↔ Edit.Live (appLog appName calls) port) ∧
            ports.Pairwise (Edit.BornBefore (appLog appName calls)) ∧
            Edit.OpenedBy (appLog appName calls) created) ∧
        ∀ port, appName ∉ objectPrototypeNames → final.appEntry .http appName = none →
          (Call.deletePortRouting appName (.num port)).exec final =
            (final, .deferred unknownApplication) := by
  intro final
  obtain ⟨hentries, hstream, hstatus, hdebug⟩ :=
    execAll_entryOf debugMode statusPort calls hnames
  refine ⟨hstream, hstatus, hdebug, fun appName => ?_⟩
  have hentry : final.appEntry .http appName = entryOf (appLog appName calls) := hentries appName
  refine ⟨?_, ?_, ?_⟩
  · rw [hentry]
    by_cases hkeys : Edit.liveKeys (appLog appName calls) = []
    · have hnone := Edit.liveKeys_eq_nil_iff.mp hkeys
      rw [entryOf_of_empty hkeys]
      exact iff_of_false (by simp) fun ⟨port, hport⟩ => hnone port hport
    · obtain ⟨created, hcreated, _⟩ := entryOf_of_live hkeys
      obtain ⟨port, hport⟩ := List.exists_mem_of_ne_nil _ hkeys
      rw [hcreated]
      exact iff_of_true rfl ⟨port, Edit.mem_liveKeys.mp hport⟩
  · intro entry hfound
    rw [hentry] at hfound
    by_cases hkeys : Edit.liveKeys (appLog appName calls) = []
    · rw [entryOf_of_empty hkeys] at hfound
      cases hfound
    · obtain ⟨created, hcreated, _, hopened⟩ := entryOf_of_live hkeys
      rw [hcreated, Option.some.injEq] at hfound
      exact ⟨created, _, hfound.symm, Edit.liveKeys_nodup _, fun _ => Edit.mem_liveKeys,
        (Edit.liveKeys_born _).2, hopened⟩
  · intro port hname hnone
    rw [Call.exec_eq]
    simp only [Call.mode, Call.appName,
      (final.lookup_eq_absent_iff .http appName).mpr ⟨hnone, hname⟩]
    rfl

/-- A port is added, a second one, and the first is deleted again. -/
def storeCalls : List (StoreCall Int) :=
  [.add "web" 80 8001 .undefined false, .add "web" 81 8002 (.str "ip_hash") true,
    .delete "web" 8001]

theorem store_refines_log_storeCalls :
    ∃ entry created ports, (execAll (Conf.initial .undefined .undefined)
        (storeCalls.map StoreCall.call)).appEntry .http "web" = some entry ∧
      entry = storedEntry created ports ∧ ports.Nodup ∧
      (∀ port, port ∈ ports ↔ Edit.Live (appLog "web" storeCalls) port) ∧
      ports.Pairwise (Edit.BornBefore (appLog "web" storeCalls)) ∧
      Edit.OpenedBy (appLog "web" storeCalls) created := by
  obtain ⟨_, _, _, happs⟩ :=
    store_refines_log .undefined .undefined storeCalls (by decide)
  obtain ⟨created, ports, hentry⟩ := (happs "web").2.1 _ rfl
  exact ⟨_, created, ports, rfl, hentry⟩

end NginxInterface
