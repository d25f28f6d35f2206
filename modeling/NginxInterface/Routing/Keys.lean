import NginxInterface.Foundation.Runs
import NginxInterface.Routing.Stores

/-! # Modes and names as property keys

`current_conf[mode][app_name]` is looked up with whatever strings a call brings. A mode
can name one of the two tables, an option of the constructor, something that
`current_conf` inherits from `Object.prototype`, or nothing.

An inherited mode leads to an object that the whole process shares, and a call can
store its entry there. Every look-up of every object may see that entry, so calls are
not followed any further after it.
-/

namespace NginxInterface

open Foundation Js

variable {N : Type} [Number N]

/-- The string that names a table. -/
def Mode.key : Mode → String
  | .http => "http"
  | .stream => "stream"

/-- An object that `current_conf` inherits: `Object.prototype` itself, or one of its
functions. -/
inductive Builtin where
  | objectPrototype
  | function (name : String)
  deriving DecidableEq

/-- The names that every function has besides those of `Object.prototype`. -/
def functionNames : List String :=
  ["length", "name", "arguments", "caller", "apply", "bind", "call"]

/-- The names that the function `Object` has besides those of every function. -/
def objectFunctionNames : List String :=
  ["prototype", "assign", "create", "defineProperties", "defineProperty", "entries", "freeze",
    "getOwnPropertyDescriptor", "getOwnPropertyDescriptors", "getOwnPropertyNames",
    "getOwnPropertySymbols", "getPrototypeOf", "is", "isExtensible", "isFrozen", "isSealed",
    "keys", "preventExtensions", "seal", "setPrototypeOf", "values"]

/-- The names under which no entry can be stored: what is there has no `instances`, or
it is falsy and cannot be assigned. -/
def Builtin.members : Builtin → List String
  | .objectPrototype => objectPrototypeNames
  | .function name =>
      objectPrototypeNames ++ functionNames ++
        if name = "constructor" then objectFunctionNames else []

/-- The object that `current_conf` inherits under this name. -/
def inheritedObject (mode : String) : Builtin :=
  if mode = "__proto__" then .objectPrototype else .function mode

/-- What `current_conf[mode]` is. -/
inductive Target (N : Type) where
  | table (mode : Mode)
  | option (value : Value N)
  | builtin (object : Builtin)
  | missing

def Conf.target (conf : Conf N) (mode : String) : Target N :=
  if mode = "http" then .table .http
  else if mode = "stream" then .table .stream
  else if mode = "debug_mode" then .option conf.debugMode
  else if mode = "status_port" then .option conf.statusPort
  else if mode = "__proto__" then .builtin .objectPrototype
  else if mode ∈ objectPrototypeNames then .builtin (.function mode)
  else .missing

/-! ## Calls with a mode string -/

/-- `Opts` with any string as the mode. A missing mode is the empty string, which is as
falsy as `undefined`. -/
structure KeyedOpts (N : Type) where
  inPort : Value N := .undefined
  outPort : Value N := .undefined
  lbMode : Value N := .undefined
  mode : String := ""

def KeyedOpts.inMode (opts : KeyedOpts N) (mode : Mode) : Opts N where
  inPort := opts.inPort
  outPort := opts.outPort
  lbMode := opts.lbMode
  mode := some mode

structure KeyedRouting (N : Type) where
  inPort : Value N := .undefined
  outPorts : Value N := .undefined
  lbMode : Value N := .undefined
  mode : String := ""

def KeyedRouting.inMode (routing : KeyedRouting N) (mode : Mode) : Routing N where
  inPort := routing.inPort
  outPorts := routing.outPorts
  lbMode := routing.lbMode
  mode := some mode

/-- `mode || fallback`. -/
def proxyMode (mode fallback : String) : String := if mode = "" then fallback else mode

/-- A routing call. The argument of an update is `none` if it is not an object. -/
inductive KeyedCall (N : Type) where
  | addPortRouting (appName : String) (opts : KeyedOpts N)
  | deletePortRouting (appName : String) (port : Value N)
  | addOrUpdateAppRouting (appName : String) (routing : Option (KeyedRouting N))

namespace KeyedCall

def appName : KeyedCall N → String
  | .addPortRouting appName _ => appName
  | .deletePortRouting appName _ => appName
  | .addOrUpdateAppRouting appName _ => appName

def mode : KeyedCall N → String
  | .addPortRouting _ opts => proxyMode opts.mode "http"
  | .deletePortRouting _ _ => "http"
  | .addOrUpdateAppRouting _ none => "stream"
  | .addOrUpdateAppRouting _ (some routing) => proxyMode routing.mode "stream"

/-- The call with its mode resolved to a table. -/
def inMode (call : KeyedCall N) (mode : Mode) : Call N :=
  match call with
  | .addPortRouting appName opts => .addPortRouting appName (opts.inMode mode)
  | .deletePortRouting appName port => .deletePortRouting appName port
  | .addOrUpdateAppRouting appName none => .addOrUpdateAppRouting appName .notObject
  | .addOrUpdateAppRouting appName (some routing) =>
      .addOrUpdateAppRouting appName (.object (routing.inMode mode))

/-- What becomes of a call once its mode is looked up. -/
inductive Resolution (N : Type) where
  /-- It works on one of the tables. -/
  | call (call : Call N)
  /-- It throws a `TypeError` before anything has changed. -/
  | throws
  /-- It stores its entry on a shared object. -/
  | strays (object : Builtin)
  /-- It works on an option that is an object; the model does not follow it there. -/
  | unfollowed

def resolve (call : KeyedCall N) (conf : Conf N) : Resolution N :=
  match conf.target call.mode with
  | .table mode => .call (call.inMode mode)
  | .missing => .throws
  -- a primitive has no entry, and in class code assigning to it throws
  | .option value => if value.primitive then .throws else .unfollowed
  | .builtin object => if call.appName ∈ object.members then .throws else .strays object

/-- The call asks for an entry of this name in this table. -/
def Registers (call : KeyedCall N) (mode : Mode) (appName : String) : Prop :=
  match call with
  | .deletePortRouting _ _ => False
  | .addOrUpdateAppRouting _ none => False
  | call => call.mode = mode.key ∧ call.appName = appName

end KeyedCall

section

/-! ## Where a call leads -/

omit [Number N]

theorem target_key (conf : Conf N) (mode : Mode) : conf.target mode.key = .table mode := by
  cases mode <;> simp [Conf.target, Mode.key]

theorem target_eq_table {conf : Conf N} {mode : String} {table : Mode}
    (h : conf.target mode = .table table) : mode = table.key := by
  unfold Conf.target at h
  split_ifs at h with hhttp hstream <;> cases h
  · exact hhttp
  · exact hstream

theorem key_not_inherited (table : Mode) : table.key ∉ objectPrototypeNames := by
  cases table <;> decide

/-- A mode names a table, an inherited object, or neither. -/
theorem target_cases (conf : Conf N) (mode : String) :
    (∃ table : Mode, mode = table.key ∧ conf.target mode = .table table) ∨
    (mode ∈ objectPrototypeNames ∧ conf.target mode = .builtin (inheritedObject mode)) ∨
    ((∀ table : Mode, mode ≠ table.key) ∧ mode ∉ objectPrototypeNames ∧
      ((∃ value, conf.target mode = .option value) ∨ conf.target mode = .missing)) := by
  by_cases hname : mode ∈ objectPrototypeNames
  · refine Or.inr (Or.inl ⟨hname, ?_⟩)
    have hne : ∀ other, other ∉ objectPrototypeNames → mode ≠ other :=
      fun other hother heq => hother (heq ▸ hname)
    simp only [Conf.target, if_neg (hne "http" (by decide)), if_neg (hne "stream" (by decide)),
      if_neg (hne "debug_mode" (by decide)), if_neg (hne "status_port" (by decide)), if_pos hname,
      inheritedObject]
    split <;> rfl
  · have hproto : mode ≠ "__proto__" := fun heq => hname (by simp [heq, objectPrototypeNames])
    by_cases hhttp : mode = "http"
    · exact Or.inl ⟨.http, hhttp, hhttp ▸ target_key conf .http⟩
    by_cases hstream : mode = "stream"
    · exact Or.inl ⟨.stream, hstream, hstream ▸ target_key conf .stream⟩
    refine Or.inr (Or.inr ⟨?_, hname, ?_⟩)
    · rintro (_ | _)
      · exact hhttp
      · exact hstream
    · simp only [Conf.target, if_neg hhttp, if_neg hstream, if_neg hproto, if_neg hname]
      by_cases hdebug : mode = "debug_mode"
      · exact Or.inl ⟨_, if_pos hdebug⟩
      · by_cases hstatus : mode = "status_port"
        · exact Or.inl ⟨_, by rw [if_neg hdebug, if_pos hstatus]⟩
        · exact Or.inr (by rw [if_neg hdebug, if_neg hstatus])

namespace KeyedCall

theorem inMode_appName (call : KeyedCall N) (mode : Mode) :
    (call.inMode mode).appName = call.appName := by
  rcases call with _ | _ | ⟨_, _ | _⟩ <;> rfl

theorem inMode_mode {call : KeyedCall N} {mode : Mode} (h : call.mode = mode.key) :
    (call.inMode mode).mode = mode := by
  rcases call with _ | _ | ⟨_, _ | _⟩
  · rfl
  · cases mode with
    | http => rfl
    | stream => simp [KeyedCall.mode, Mode.key] at h
  · cases mode with
    | http => simp [KeyedCall.mode, Mode.key] at h
    | stream => rfl
  · rfl

theorem resolve_key {call : KeyedCall N} (conf : Conf N) {mode : Mode}
    (h : call.mode = mode.key) : call.resolve conf = .call (call.inMode mode) := by
  rw [resolve, h, target_key]

/-- Only a mode that names a table leads to a table. -/
theorem resolve_eq_call {call : KeyedCall N} {conf : Conf N} {routing : Call N}
    (h : call.resolve conf = .call routing) :
    ∃ mode : Mode, call.mode = mode.key ∧ routing = call.inMode mode := by
  unfold resolve at h
  split at h
  next mode htarget =>
    cases h
    exact ⟨mode, target_eq_table htarget, rfl⟩
  · cases h
  · split_ifs at h
  · split_ifs at h

/-- A mode that names neither a table nor anything inherited makes the call throw. -/
theorem resolve_other {call : KeyedCall N} {conf : Conf N}
    (hdebug : conf.debugMode.primitive = true) (hstatus : conf.statusPort.primitive = true)
    (hmode : ∀ mode : Mode, call.mode ≠ mode.key) (hname : call.mode ∉ objectPrototypeNames) :
    call.resolve conf = .throws := by
  have hproto : call.mode ≠ "__proto__" := fun heq => hname (by simp [heq, objectPrototypeNames])
  have hhttp : call.mode ≠ "http" := hmode .http
  have hstream : call.mode ≠ "stream" := hmode .stream
  simp only [resolve, Conf.target, if_neg hhttp, if_neg hstream, if_neg hproto, if_neg hname]
  by_cases hd : call.mode = "debug_mode"
  · simp [hd, hdebug]
  · by_cases hs : call.mode = "status_port"
    · simp [hs, hstatus]
    · simp [hd, hs]

/-- An inherited mode leads to the inherited object, where a member cannot be replaced. -/
theorem resolve_inherited {call : KeyedCall N} (conf : Conf N)
    (hname : call.mode ∈ objectPrototypeNames) :
    call.resolve conf =
      if call.appName ∈ (inheritedObject call.mode).members then .throws
      else .strays (inheritedObject call.mode) := by
  obtain ⟨table, hkey, -⟩ | ⟨-, htarget⟩ | ⟨-, hnot, -⟩ := target_cases conf call.mode
  · exact absurd (hkey ▸ hname) (key_not_inherited table)
  · rw [resolve, htarget]
  · exact absurd hname hnot

/-- Options that are primitive, as those of `index.js`, hold no entry. -/
theorem resolve_followed {conf : Conf N} (hdebug : conf.debugMode.primitive = true)
    (hstatus : conf.statusPort.primitive = true) (call : KeyedCall N) :
    call.resolve conf ≠ .unfollowed := by
  by_cases hmode : ∃ table : Mode, call.mode = table.key
  · obtain ⟨table, hkey⟩ := hmode
    rw [resolve_key conf hkey]
    exact nofun
  by_cases hname : call.mode ∈ objectPrototypeNames
  · rw [resolve_inherited conf hname]
    split <;> exact nofun
  · rw [resolve_other hdebug hstatus (not_exists.mp hmode) hname]
    exact nofun

end KeyedCall

end

/-! ## The configuration and what lies outside it -/

/-- An entry stored on a shared object. -/
structure Stray (N : Type) where
  object : Builtin
  name : String
  entry : Entry N

structure World (N : Type) where
  conf : Conf N
  outside : Option (Stray N)

namespace World

def initial (debugMode statusPort : Value N) : World N := ⟨.initial debugMode statusPort, none⟩

/-- `current_conf[mode][app_name]`, for the modes that name a table. -/
def lookup (world : World N) (mode : Mode) (appName : String) : Found N :=
  match world.conf.lookup mode appName, world.outside with
  | .absent, some stray =>
      if stray.object = .objectPrototype ∧ stray.name = appName then .own stray.entry
      else .absent
  | found, _ => found

/-- The synchronous part of a call. The answer is `none` where the model does not follow
the call, and after an entry was stored outside. -/
def exec (world : World N) (call : KeyedCall N) : Option (World N × Outcome) :=
  match world.outside, call.resolve world.conf with
  | some _, _ => none
  | none, .call routing =>
      let result := routing.exec world.conf
      some (⟨result.1, none⟩, result.2)
  | none, .throws => some (world, .threw .typeError)
  | none, .strays object =>
      match (call.inMode .http).change .absent with
      | (.store entry, outcome) =>
          some (⟨world.conf, some ⟨object, call.appName, entry⟩⟩, outcome)
      | (_, outcome) => some (world, outcome)
  | none, .unfollowed => none

def run (world : World N) (calls : List (KeyedCall N)) : Option (World N) :=
  runSteps (fun world call => (world.exec call).map Prod.fst) world calls

/-- A mode that names a table gives the call of the routing model. -/
theorem exec_table {world : World N} (houtside : world.outside = none) {call : KeyedCall N}
    {mode : Mode} (hmode : call.mode = mode.key) :
    world.exec call =
      some (⟨((call.inMode mode).exec world.conf).1, none⟩,
        ((call.inMode mode).exec world.conf).2) := by
  simp only [exec, houtside, KeyedCall.resolve_key world.conf hmode]

/-- Every call leaves the configuration alone or makes of it what the routing model
does. -/
theorem exec_conf {world next : World N} {call : KeyedCall N} {outcome : Outcome}
    (h : world.exec call = some (next, outcome)) :
    next.conf = world.conf ∨
      ∃ mode, call.mode = mode.key ∧ next.conf = ((call.inMode mode).exec world.conf).1 := by
  unfold exec at h
  split at h
  · cases h
  next routing _ hresolve =>
    cases h
    obtain ⟨mode, hmode, rfl⟩ := KeyedCall.resolve_eq_call hresolve
    exact Or.inr ⟨mode, hmode, rfl⟩
  · cases h
    exact Or.inl rfl
  · split at h <;> cases h <;> exact Or.inl rfl
  · cases h

/-! ## Runs -/

/-- An entry comes about only by a call that asks for it, and under no name of
`Object.prototype`. -/
theorem exec_absent {world next : World N} {call : KeyedCall N} {outcome : Outcome}
    {mode : Mode} {appName : String}
    (hcall : call.Registers mode appName → appName ∈ objectPrototypeNames)
    (habsent : world.conf.appEntry mode appName = none)
    (h : world.exec call = some (next, outcome)) : next.conf.appEntry mode appName = none := by
  rcases exec_conf h with hsame | ⟨table, htable, hnext⟩
  · rw [hsame, habsent]
  rw [hnext, Call.exec_eq, KeyedCall.inMode_appName, KeyedCall.inMode_mode htable]
  by_cases hquery : (mode, appName) = (table, call.appName)
  · cases hquery
    rw [Conf.appEntry_change_self, habsent]
    by_cases hname : call.appName ∈ objectPrototypeNames
    · rw [Conf.lookup_inherited habsent hname, Call.change_inherited]
      rfl
    · -- only a deletion and a refused update can concern the application
      rw [(world.conf.lookup_eq_absent_iff mode call.appName).mpr ⟨habsent, hname⟩]
      rcases call with _ | _ | ⟨_, _ | _⟩
      · exact absurd (hcall ⟨htable, rfl⟩) hname
      · rfl
      · rfl
      · exact absurd (hcall ⟨htable, rfl⟩) hname
  · rw [Conf.appEntry_change_of_ne _ _ hquery, habsent]

/-- The options stay what the constructor made of them. -/
theorem exec_options {world next : World N} {call : KeyedCall N} {outcome : Outcome}
    (h : world.exec call = some (next, outcome)) :
    next.conf.debugMode = world.conf.debugMode ∧
      next.conf.statusPort = world.conf.statusPort := by
  rcases exec_conf h with hsame | ⟨table, _, hnext⟩
  · rw [hsame]
    exact ⟨rfl, rfl⟩
  · rw [hnext, Call.exec_eq]
    exact ⟨Conf.change_debugMode _ _ _ _, Conf.change_statusPort _ _ _ _⟩

/-- What holds before a run and is kept by every call of it holds after the run. -/
theorem run_keeps (allowed : KeyedCall N → Prop) (inv : World N → Prop)
    (hexec : ∀ {world next : World N} {call : KeyedCall N} {outcome : Outcome}, allowed call →
      inv world → world.exec call = some (next, outcome) → inv next)
    {world final : World N} {calls : List (KeyedCall N)} (hcalls : ∀ call ∈ calls, allowed call)
    (hworld : inv world) (h : world.run calls = some final) : inv final := by
  refine runSteps_invariant _ allowed inv ?_ hcalls hworld h
  intro before call after hallowed hbefore hafter
  obtain ⟨⟨next, outcome⟩, hnext, rfl⟩ := Option.map_eq_some_iff.mp hafter
  exact hexec hallowed hbefore hnext

theorem run_absent {debugMode statusPort : Value N} {world : World N}
    {calls : List (KeyedCall N)} {mode : Mode} {appName : String}
    (hrun : (initial debugMode statusPort).run calls = some world)
    (hcalls : ∀ call ∈ calls, call.Registers mode appName → appName ∈ objectPrototypeNames) :
    world.conf.appEntry mode appName = none :=
  run_keeps _ (fun world => world.conf.appEntry mode appName = none)
    (fun hcall habsent hexec => exec_absent hcall habsent hexec) hcalls
    (Conf.appEntry_initial debugMode statusPort mode appName) hrun

theorem run_primitive {debugMode statusPort : Value N} {world : World N}
    {calls : List (KeyedCall N)} (hrun : (initial debugMode statusPort).run calls = some world)
    (hdebug : debugMode.primitive = true) (hstatus : statusPort.primitive = true) :
    world.conf.debugMode.primitive = true ∧ world.conf.statusPort.primitive = true := by
  refine run_keeps (fun _ => True)
    (fun world => world.conf.debugMode.primitive = true ∧
      world.conf.statusPort.primitive = true) ?_ (fun _ _ => trivial) ⟨?_, hstatus⟩ hrun
  · rintro before after call outcome - hbefore hexec
    rw [(exec_options hexec).1, (exec_options hexec).2]
    exact hbefore
  · change (debugMode.or (.bool false)).primitive = true
    unfold Value.or
    split
    · exact hdebug
    · rfl

/-! ## Names that are only keys -/

theorem deletePortRouting_absent {world : World N} (houtside : world.outside = none)
    {appName : String} (hname : appName ∉ objectPrototypeNames)
    (habsent : world.conf.appEntry .http appName = none) (port : Value N) :
    world.exec (.deletePortRouting appName port) =
      some (world, .deferred unknownApplication) := by
  have hlookup := (world.conf.lookup_eq_absent_iff .http appName).mpr ⟨habsent, hname⟩
  have hmode : (KeyedCall.deletePortRouting appName port).mode = Mode.key .http := rfl
  rw [exec_table houtside hmode]
  simp only [KeyedCall.inMode, Call.exec, deletePortRouting, hlookup]
  rw [← houtside]

theorem addPortRouting_absent {world : World N} (houtside : world.outside = none)
    {appName : String} (hname : appName ∉ objectPrototypeNames) {opts : KeyedOpts N} {mode : Mode}
    (hmode : (KeyedCall.addPortRouting appName opts).mode = mode.key)
    (habsent : world.conf.appEntry mode appName = none)
    (hin : opts.inPort.printable = true) (hout : opts.outPort.printable = true) :
    world.exec (.addPortRouting appName opts) =
      some (⟨world.conf.put mode appName
        ((opts.inMode mode).freshEntry [{ port := opts.outPort }]), none⟩, .updating) := by
  have hlookup := (world.conf.lookup_eq_absent_iff mode appName).mpr ⟨habsent, hname⟩
  obtain ⟨message, hmessage⟩ := forwardMessage_ok appName hin hout
  rw [exec_table houtside hmode, KeyedCall.inMode, Call.exec, addPortRouting_eq]
  simp only [KeyedOpts.inMode, Option.getD_some, hlookup, addPortChange, hmessage]
  rfl

/-- A call that looks up a name of `Object.prototype` in a table throws. -/
theorem exec_inherited {world : World N} (houtside : world.outside = none)
    {call : KeyedCall N} {mode : Mode} (hmode : call.mode = mode.key)
    (hname : call.appName ∈ objectPrototypeNames)
    (habsent : world.conf.appEntry mode call.appName = none)
    (hchange : (call.inMode mode).change .inherited = (.keep, .threw .typeError)) :
    world.exec call = some (world, .threw .typeError) := by
  rw [exec_table houtside hmode, Call.exec_eq, KeyedCall.inMode_appName,
    KeyedCall.inMode_mode hmode]
  simp only [Conf.lookup_inherited habsent hname, hchange, Conf.change]
  rw [← houtside]

/-- An addition under a name of `Object.prototype`, or of a port that cannot be printed, is
not accepted. -/
theorem addPortRouting_updating {world next : World N} (houtside : world.outside = none)
    {appName : String} {opts : KeyedOpts N} {mode : Mode}
    (hmode : (KeyedCall.addPortRouting appName opts).mode = mode.key)
    (habsent : world.conf.appEntry mode appName = none)
    (h : world.exec (.addPortRouting appName opts) = some (next, .updating)) :
    appName ∉ objectPrototypeNames ∧ opts.inPort.printable = true ∧
      opts.outPort.printable = true := by
  have hname : appName ∉ objectPrototypeNames := by
    intro hname
    rw [exec_inherited houtside hmode hname habsent rfl] at h
    cases h
  refine ⟨hname, ?_⟩
  have hlookup := (world.conf.lookup_eq_absent_iff mode appName).mpr ⟨habsent, hname⟩
  rw [exec_table houtside hmode, KeyedCall.inMode, Call.exec, addPortRouting_eq] at h
  simp only [KeyedOpts.inMode, Option.getD_some, hlookup, addPortChange] at h
  cases hmessage : forwardMessage opts.inPort opts.outPort appName with
  | error fault =>
      rw [hmessage] at h
      cases h
  | ok message => exact forwardMessage_printable hmessage

/-- An addition to an inherited object leaves its entry there, unless the object has a
member of the name. -/
theorem addPortRouting_strays {world : World N} (houtside : world.outside = none)
    {appName : String} {opts : KeyedOpts N}
    (hmode : proxyMode opts.mode "http" ∈ objectPrototypeNames) :
    (∃ outcome, world.exec (.addPortRouting appName opts) = some (world, outcome)) ↔
      appName ∈ (inheritedObject (proxyMode opts.mode "http")).members := by
  have hresolve : (KeyedCall.addPortRouting appName opts).resolve world.conf =
      if appName ∈ (inheritedObject (proxyMode opts.mode "http")).members then .throws
      else .strays (inheritedObject (proxyMode opts.mode "http")) :=
    KeyedCall.resolve_inherited world.conf hmode
  by_cases happ : appName ∈ (inheritedObject (proxyMode opts.mode "http")).members
  · rw [if_pos happ] at hresolve
    exact iff_of_true ⟨.threw .typeError, by simp only [exec, houtside, hresolve]⟩ happ
  · rw [if_neg happ] at hresolve
    refine iff_of_false ?_ happ
    rintro ⟨outcome, hexec⟩
    -- the entry is stored before its ports are printed
    have hstored : ∃ entry outcome,
        ((KeyedCall.addPortRouting appName opts).inMode .http).change .absent =
          (.store entry, outcome) := by
      simp only [KeyedCall.inMode, Call.change, addPortChange]
      split
      · exact ⟨_, _, rfl⟩
      · exact ⟨_, _, rfl⟩
    obtain ⟨entry, stored, hchange⟩ := hstored
    simp only [exec, houtside, hresolve, hchange, Option.some.injEq, Prod.mk.injEq] at hexec
    rw [← hexec.1] at houtside
    cases houtside

/-- As long as no call has stored anything outside the tables, names and modes are only
keys exactly if they are no property names of `Object.prototype`. Such a name is not
unknown to a deletion, and an addition throws for it, as it does if a port cannot be
printed. An addition in a mode of this kind leaves its entry on the object that
`current_conf` inherits, unless that has a member of the name. -/
theorem names_are_keys_iff (debugMode statusPort : Value N) (calls : List (KeyedCall N))
    (world : World N) (appName : String) (hdebug : debugMode.primitive = true)
    (hstatus : statusPort.primitive = true)
    (hrun : (initial debugMode statusPort).run calls = some world)
    (houtside : world.outside = none) :
    (∀ port, (∀ call ∈ calls, ¬call.Registers .http appName) →
      (world.exec (.deletePortRouting appName port) =
          some (world, .deferred unknownApplication) ↔ appName ∉ objectPrototypeNames)) ∧
    (∀ (mode : Mode) (opts : KeyedOpts N), (∀ call ∈ calls, ¬call.Registers mode appName) →
      proxyMode opts.mode "http" = mode.key →
      (world.exec (.addPortRouting appName opts) =
          some (⟨world.conf.put mode appName
            { port := opts.inPort, instances := .list [{ port := opts.outPort }],
              balance := opts.lbMode.or .null }, none⟩, .updating) ↔
        appName ∉ objectPrototypeNames ∧ opts.inPort.printable = true ∧
          opts.outPort.printable = true)) ∧
    (∀ opts : KeyedOpts N, (∀ mode : Mode, proxyMode opts.mode "http" ≠ mode.key) →
      ((∃ outcome, world.exec (.addPortRouting appName opts) = some (world, outcome)) ↔
        proxyMode opts.mode "http" ∉ objectPrototypeNames ∨
          appName ∈ (inheritedObject (proxyMode opts.mode "http")).members)) := by
  have habsent : ∀ mode, (∀ call ∈ calls, ¬call.Registers mode appName) →
      world.conf.appEntry mode appName = none := fun mode hcalls =>
    run_absent hrun fun call hmem hregisters => absurd hregisters (hcalls call hmem)
  refine ⟨?_, ?_, ?_⟩
  · intro port hcalls
    refine ⟨fun hexec hname => ?_, fun hname =>
      deletePortRouting_absent houtside hname (habsent .http hcalls) port⟩
    have hmode : (KeyedCall.deletePortRouting appName port).mode = Mode.key .http := rfl
    rw [exec_inherited houtside hmode hname (habsent .http hcalls) rfl] at hexec
    cases hexec
  · intro mode opts hcalls hmode
    refine ⟨fun hexec => addPortRouting_updating houtside hmode (habsent mode hcalls) hexec, ?_⟩
    rintro ⟨hname, hin, hout⟩
    exact addPortRouting_absent houtside hname hmode (habsent mode hcalls) hin hout
  · intro opts hmode
    by_cases hname : proxyMode opts.mode "http" ∈ objectPrototypeNames
    · rw [addPortRouting_strays houtside hname]
      exact (or_iff_right (not_not.mpr hname)).symm
    · obtain ⟨hdebug, hstatus⟩ := run_primitive hrun hdebug hstatus
      have hthrows : (KeyedCall.addPortRouting appName opts).resolve world.conf = .throws :=
        KeyedCall.resolve_other hdebug hstatus hmode hname
      exact iff_of_true ⟨.threw .typeError, by simp only [exec, houtside, hthrows]⟩
        (Or.inl hname)

/-- The addition of an integer port in a given mode. -/
def addIn (appName mode : String) (inPort outPort : Int) : KeyedCall Int :=
  .addPortRouting appName { inPort := .num inPort, outPort := .num outPort, mode := mode }

/-- After one registered application another one is unknown, and an unknown mode is
refused. -/
theorem names_are_keys_web : ∃ world,
    (initial .undefined .undefined).run [addIn "web" "http" 80 8001] = some world ∧
      world.exec (.deletePortRouting "api" (.num 9001)) =
        some (world, .deferred unknownApplication) ∧
      ∃ outcome, world.exec (addIn "api" "udp" 81 9001) = some (world, outcome) := by
  obtain ⟨world, hrun, houtside⟩ : ∃ world : World Int,
      (initial .undefined .undefined).run [addIn "web" "http" 80 8001] = some world ∧
        world.outside = none := ⟨_, rfl, rfl⟩
  obtain ⟨hdelete, -, hother⟩ := names_are_keys_iff .undefined .undefined
    [addIn "web" "http" 80 8001] world "api" rfl rfl hrun houtside
  refine ⟨world, hrun, (hdelete _ ?_).mpr (by decide), (hother _ ?_).mpr (Or.inl (by decide))⟩
  · intro call hcall
    rw [List.mem_singleton.mp hcall]
    simp [KeyedCall.Registers, KeyedCall.appName, addIn]
  · rintro (_ | _) <;> decide

/-- On the empty configuration no application is registered, and the deletion of a port of
`constructor` throws. -/
theorem constructor_not_unknown :
    (initial .undefined .undefined : World Int).exec
        (.deletePortRouting "constructor" (.num 8001)) =
      some (initial .undefined .undefined, .threw .typeError) := rfl

/-- The mode `__proto__` registers an application in every table. -/
theorem proto_mode_registers : ∃ entry next,
    (initial .undefined .undefined).exec (addIn "web" "__proto__" 80 8001) =
        some (next, .updating) ∧
      (initial .undefined .undefined : World Int).lookup .http "web" = .absent ∧
      next.lookup .http "web" = .own entry ∧ next.lookup .stream "web" = .own entry :=
  ⟨_, _, rfl, rfl, rfl, rfl⟩

end World

end NginxInterface
