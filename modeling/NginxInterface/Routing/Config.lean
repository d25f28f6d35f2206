import NginxInterface.Js.Value
import NginxInterface.Js.ObjectKeys

/-! # The routing configuration

`current_conf` holds two tables, one for each proxy mode, from application names
to entries. Everything the agent publishes is rendered from it.
-/

namespace NginxInterface

open Foundation Js

/-- A backend of an application. The template also reads `weight`, which no
operation sets. -/
structure Instance (N : Type) where
  port : Value N
  weight : Value N := .undefined
  backup : Value N := .undefined

/-- The `instances` field. It is a list unless an update stored something that
is not an array. -/
inductive Instances (N : Type) where
  | list (items : List (Instance N))
  | other (value : Value N)

structure Ssl (N : Type) where
  cert : Value N
  key : Value N

/-- One application of a table. The template also reads `server_name` and
`ssl`, which no operation sets. -/
structure Entry (N : Type) where
  port : Value N
  instances : Instances N
  balance : Value N
  serverName : Value N := .undefined
  ssl : Option (Ssl N) := none

/-- The proxy modes that name a table. -/
inductive Mode where
  | http
  | stream
  deriving DecidableEq

abbrev Table (N : Type) := PropertyTable String (Entry N)

/-- `current_conf`. -/
structure Conf (N : Type) where
  debugMode : Value N
  statusPort : Value N
  stream : Table N
  http : Table N

/-- What `current_conf[mode][app_name]` finds: an own entry, a function of
`Object.prototype`, or nothing. -/
inductive Found (N : Type) where
  | own (entry : Entry N)
  | inherited
  | absent

namespace Conf

variable {N : Type}

/-- The configuration the constructor builds. -/
def initial [Number N] (debugMode statusPort : Value N) : Conf N where
  debugMode := debugMode.or (.bool false)
  statusPort := statusPort
  stream := .empty
  http := .empty

def table (conf : Conf N) : Mode → Table N
  | .http => conf.http
  | .stream => conf.stream

def setTable (conf : Conf N) (mode : Mode) (table : Table N) : Conf N :=
  match mode with
  | .http => { conf with http := table }
  | .stream => { conf with stream := table }

/-- The own entry of an application. -/
def appEntry (conf : Conf N) (mode : Mode) (appName : String) : Option (Entry N) :=
  (conf.table mode).get? appName

def lookup (conf : Conf N) (mode : Mode) (appName : String) : Found N :=
  match conf.appEntry mode appName with
  | some entry => .own entry
  | none => if appName ∈ objectPrototypeNames then .inherited else .absent

/-- `current_conf[mode][app_name] = entry`. -/
def put (conf : Conf N) (mode : Mode) (appName : String) (entry : Entry N) : Conf N :=
  conf.setTable mode ((conf.table mode).set appName entry)

/-- `delete current_conf[mode][app_name]`. -/
def remove (conf : Conf N) (mode : Mode) (appName : String) : Conf N :=
  conf.setTable mode ((conf.table mode).erase appName)

/-! ## Reading back -/

@[simp] theorem table_setTable_self (conf : Conf N) (mode : Mode) (table : Table N) :
    (conf.setTable mode table).table mode = table := by
  cases mode <;> rfl

theorem table_setTable_of_ne (conf : Conf N) {mode other : Mode} (table : Table N)
    (hne : other ≠ mode) : (conf.setTable mode table).table other = conf.table other := by
  cases mode <;> cases other <;> first | rfl | exact absurd rfl hne

@[simp] theorem setTable_debugMode (conf : Conf N) (mode : Mode) (table : Table N) :
    (conf.setTable mode table).debugMode = conf.debugMode := by
  cases mode <;> rfl

@[simp] theorem setTable_statusPort (conf : Conf N) (mode : Mode) (table : Table N) :
    (conf.setTable mode table).statusPort = conf.statusPort := by
  cases mode <;> rfl

theorem setTable_setTable (conf : Conf N) (mode : Mode) (first second : Table N) :
    (conf.setTable mode first).setTable mode second = conf.setTable mode second := by
  cases mode <;> rfl

@[simp] theorem appEntry_put_self (conf : Conf N) (mode : Mode) (appName : String)
    (entry : Entry N) : (conf.put mode appName entry).appEntry mode appName = some entry := by
  simp [appEntry, put]

theorem appEntry_put_of_ne (conf : Conf N) {mode other : Mode} {appName query : String}
    (entry : Entry N) (hne : (other, query) ≠ (mode, appName)) :
    (conf.put mode appName entry).appEntry other query = conf.appEntry other query := by
  unfold appEntry put
  by_cases hmode : other = mode
  · subst hmode
    have hname : query ≠ appName := fun heq => hne (by rw [heq])
    rw [table_setTable_self, PropertyTable.get?_set_of_ne _ _ hname]
  · rw [table_setTable_of_ne conf _ hmode]

@[simp] theorem appEntry_remove_self (conf : Conf N) (mode : Mode) (appName : String) :
    (conf.remove mode appName).appEntry mode appName = none := by
  simp [appEntry, remove]

theorem appEntry_remove_of_ne (conf : Conf N) {mode other : Mode} {appName query : String}
    (hne : (other, query) ≠ (mode, appName)) :
    (conf.remove mode appName).appEntry other query = conf.appEntry other query := by
  unfold appEntry remove
  by_cases hmode : other = mode
  · subst hmode
    have hname : query ≠ appName := fun heq => hne (by rw [heq])
    rw [table_setTable_self, PropertyTable.get?_erase_of_ne _ hname]
  · rw [table_setTable_of_ne conf _ hmode]

@[simp] theorem appEntry_initial [Number N] (debugMode statusPort : Value N) (mode : Mode)
    (appName : String) : (initial debugMode statusPort).appEntry mode appName = none := by
  cases mode <;> rfl

/-- Writing an application twice leaves only the second entry. -/
theorem put_put (conf : Conf N) (mode : Mode) (appName : String) (first second : Entry N) :
    (conf.put mode appName first).put mode appName second = conf.put mode appName second := by
  unfold put
  rw [table_setTable_self, PropertyTable.set_set, setTable_setTable]

/-- Removing an application forgets whatever was written under it. -/
theorem remove_put (conf : Conf N) (mode : Mode) (appName : String) (entry : Entry N) :
    (conf.put mode appName entry).remove mode appName = conf.remove mode appName := by
  unfold put remove
  rw [table_setTable_self, PropertyTable.erase_set, setTable_setTable]

@[simp] theorem setTable_table (conf : Conf N) (mode : Mode) :
    conf.setTable mode (conf.table mode) = conf := by
  cases mode <;> rfl

/-- Writing the entry that is there already changes nothing. -/
theorem put_of_appEntry {conf : Conf N} {mode : Mode} {appName : String} {entry : Entry N}
    (h : conf.appEntry mode appName = some entry) : conf.put mode appName entry = conf := by
  rw [put, PropertyTable.set_of_get? _ h, setTable_table]

/-- Removing an application that is not there changes nothing. -/
theorem remove_of_absent {conf : Conf N} {mode : Mode} {appName : String}
    (h : conf.appEntry mode appName = none) : conf.remove mode appName = conf := by
  rw [remove, PropertyTable.erase_of_not_mem _ ((PropertyTable.get?_eq_none_iff _ _).mp h),
    setTable_table]

theorem remove_remove (conf : Conf N) (mode : Mode) (appName : String) :
    (conf.remove mode appName).remove mode appName = conf.remove mode appName :=
  remove_of_absent (conf.appEntry_remove_self mode appName)

theorem lookup_eq_own_iff (conf : Conf N) (mode : Mode) (appName : String) (entry : Entry N) :
    conf.lookup mode appName = .own entry ↔ conf.appEntry mode appName = some entry := by
  unfold lookup
  cases conf.appEntry mode appName with
  | some found => simp
  | none =>
      by_cases hname : appName ∈ objectPrototypeNames
      · simp [hname]
      · simp [hname]

theorem lookup_of_appEntry {conf : Conf N} {mode : Mode} {appName : String} {entry : Entry N}
    (h : conf.appEntry mode appName = some entry) : conf.lookup mode appName = .own entry :=
  (conf.lookup_eq_own_iff mode appName entry).mpr h

theorem lookup_eq_absent_iff (conf : Conf N) (mode : Mode) (appName : String) :
    conf.lookup mode appName = .absent ↔
      conf.appEntry mode appName = none ∧ appName ∉ objectPrototypeNames := by
  unfold lookup
  cases conf.appEntry mode appName with
  | some found => simp
  | none =>
      by_cases hname : appName ∈ objectPrototypeNames
      · simp [hname]
      · simp [hname]

theorem lookup_inherited {conf : Conf N} {mode : Mode} {appName : String}
    (h : conf.appEntry mode appName = none) (hname : appName ∈ objectPrototypeNames) :
    conf.lookup mode appName = .inherited := by
  rw [lookup, h, if_pos hname]

/-- The lookup of an application depends on its own entry alone. -/
theorem lookup_congr {left right : Conf N} {mode : Mode} {appName : String}
    (h : left.appEntry mode appName = right.appEntry mode appName) :
    left.lookup mode appName = right.lookup mode appName := by
  unfold lookup
  rw [h]

end Conf

end NginxInterface
