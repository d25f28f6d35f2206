import NginxInterface.Routing.Backends

/-! # What the upstream blocks need

nginx refuses a configuration with an upstream block that has no server but backups,
and a port that is listed twice gets twice its share. For runs with numeric ports this
module states which calls bring such an entry about.
-/

namespace NginxInterface

open Foundation Js

variable {N : Type} [Number N]

/-- The ports of the instances that are not marked as backups. -/
def primaryPorts (items : List (Instance N)) : List (Value N) :=
  (items.filter fun item => !item.backup.truthy).map Instance.port

omit [Number N] in
theorem Conf.Represents.items_eq {conf : Conf N} {pools : Pools N} (h : conf.Represents pools)
    (mode : Mode) (appName : String) :
    conf.items mode appName =
      ((pools mode appName).getD .empty).backends.map Backend.toInstance := by
  rw [Conf.items, h.instances mode appName]
  cases pools mode appName <;> rfl

theorem primaryPorts_backends (pool : Pool N) :
    primaryPorts (pool.backends.map Backend.toInstance) = pool.primaries.map .num := by
  rw [primaryPorts, Pool.primaries, List.filter_map, List.map_map, List.map_map]
  refine congrArg _ (List.filter_congr fun backend _ => ?_)
  simp

omit [Number N] in
theorem nodup_map_num {ports : List N} : (ports.map Value.num).Nodup ↔ ports.Nodup :=
  List.nodup_map_iff fun _ _ h => Value.num.inj h

/-! ## Properties of every entry -/

/-- A property of entries that is one of their pools holds in every state of a run
exactly if every call meets the condition under which its request keeps the property. -/
theorem every_entry_iff {holds : Entry N → Prop} {keeps : Pool N → Prop}
    {condition : Request N → Option (Pool N) → Prop} {guard : Conf N → Call N → Prop}
    (hentry : ∀ entry pool, entry.instances = pool.instances → (holds entry ↔ keeps pool))
    (hrequest : ∀ request found, (∀ pool ∈ found, keeps pool) →
      ((∀ pool ∈ Request.apply request found, keeps pool) ↔ condition request found))
    (hguard : ∀ conf pools call request, Conf.Represents conf pools → Call.Asks call request →
      (guard conf call ↔ call.appName ∈ objectPrototypeNames ∨
        condition request (pools call.mode call.appName)))
    (debugMode statusPort : Value N) {calls : List (Call N)}
    (hcalls : ∀ call ∈ calls, call.Numeric) :
    (∀ earlier, earlier <+: calls →
      (execAll (.initial debugMode statusPort) earlier).Every holds) ↔
      RunMeets guard (.initial debugMode statusPort) calls := by
  -- the property in terms of any pools that the table stands for
  have hpools : ∀ {conf : Conf N} {pools : Pools N}, conf.Represents pools →
      (conf.Every holds ↔ ∀ mode appName, ∀ pool ∈ pools mode appName, keeps pool) := by
    intro conf pools h
    refine forall_congr' fun mode => forall_congr' fun appName => ?_
    have hinstances := h.instances mode appName
    cases hfound : conf.appEntry mode appName with
    | none =>
        rw [hfound, Option.map_none, eq_comm, Option.map_eq_none_iff] at hinstances
        simp [hinstances]
    | some entry =>
        rw [hfound, Option.map_some, eq_comm, Option.map_eq_some_iff] at hinstances
        obtain ⟨pool, hpool, heq⟩ := hinstances
        simp [hpool, hentry entry pool heq.symm]
  have hinv : ∀ (conf : Conf N) (call : Call N), call.Numeric → (∃ pools, conf.Represents pools) →
      ∃ pools, (call.exec conf).1.Represents pools := by
    rintro conf call ⟨request, hasks⟩ ⟨pools, hrepresents⟩
    exact ⟨_, hrepresents.exec hasks⟩
  refine runMeets_iff_every hinv ?_ hcalls ⟨_, Conf.Represents.initial debugMode statusPort⟩ ?_
  · rintro conf call ⟨request, hasks⟩ ⟨pools, hrepresents⟩ hgood
    rw [hpools hrepresents] at hgood
    rw [hpools (hrepresents.exec hasks), hguard conf pools call request hrepresents hasks,
      ← hrequest request _ (hgood call.mode call.appName)]
    constructor
    · intro hafter
      by_cases hname : call.appName ∈ objectPrototypeNames
      · exact Or.inl hname
      · refine Or.inr fun pool hpool => hafter call.mode call.appName pool ?_
        rw [Pools.set, if_pos rfl, Pools.answer, if_neg hname]
        exact hpool
    · intro hanswer mode appName pool hpool
      unfold Pools.set at hpool
      split at hpool
      · unfold Pools.answer at hpool
        split at hpool
        · cases hpool
        next hname => exact hanswer.resolve_left hname pool hpool
      · exact hgood mode appName pool hpool
  · exact Conf.Every.initial debugMode statusPort

/-! ## Distinct ports -/

def Entry.DistinctPorts (entry : Entry N) : Prop :=
  ∃ items, entry.instances = .list items ∧ (items.map Instance.port).Nodup

/-- An update brings in distinct ports, or it is refused: because its name is one of
`Object.prototype`, or because an instance already has one of its ports. -/
def DistinctNewPorts (conf : Conf N) : Call N → Prop
  | .addOrUpdateAppRouting appName (.object routing) =>
      ∀ ports, routing.outPorts = .arr ports →
        ports.Nodup ∨ appName ∈ objectPrototypeNames ∨
          ∃ item ∈ conf.items (routing.mode.getD .stream) appName, item.port ∈ ports
  | _ => True

theorem distinctNewPorts_iff {conf : Conf N} {pools : Pools N} {call : Call N}
    {request : Request N} (h : conf.Represents pools) (hcall : call.Asks request) :
    DistinctNewPorts conf call ↔ call.appName ∈ objectPrototypeNames ∨
      request.KeepsDistinct (pools call.mode call.appName) := by
  cases hcall with
  | add appName opts port hin hout => exact iff_of_true trivial (Or.inr trivial)
  | delete appName port => exact iff_of_true trivial (Or.inr trivial)
  | refused appName => exact iff_of_true trivial (Or.inr trivial)
  | swap appName routing ports hout =>
      have hshared : (∃ item ∈ conf.items (routing.mode.getD .stream) appName,
          item.port ∈ ports.map Value.num) ↔
          ∃ port ∈ ((pools (routing.mode.getD .stream) appName).getD .empty).ports,
            port ∈ ports := by
        rw [h.items_eq, Pool.ports]
        simp [Backend.toInstance]
      simp only [DistinctNewPorts, hout, Value.arr.injEq, forall_eq', nodup_map_num, hshared,
        Request.KeepsDistinct, Call.appName, Call.mode]
      exact or_left_comm

/-- In a run with numeric ports all entries have distinct ports exactly if no accepted
update repeats a port in its own list. -/
theorem distinct_ports_iff (debugMode statusPort : Value N) (calls : List (Call N))
    (hcalls : ∀ call ∈ calls, call.Numeric) :
    (∀ earlier, earlier <+: calls →
      (execAll (.initial debugMode statusPort) earlier).Every Entry.DistinctPorts) ↔
      RunMeets DistinctNewPorts (.initial debugMode statusPort) calls := by
  have hentry : ∀ (entry : Entry N) (pool : Pool N), entry.instances = pool.instances →
      (entry.DistinctPorts ↔ pool.ports.Nodup) := by
    intro entry pool hinstances
    simp only [Entry.DistinctPorts, hinstances, Pool.instances, Instances.list.injEq,
      exists_eq_left', map_toInstance_port]
    exact nodup_map_num
  exact every_entry_iff hentry (fun request found => request.keepsDistinct_iff)
    (fun conf pools call request => distinctNewPorts_iff) debugMode statusPort hcalls

/-- The second update repeats a port, and is refused because that port is in use. -/
def distinctCalls : List (Call Int) :=
  [.swap "web" .stream 80 (.arr [.num 8001, .num 8002]), .forward "web" 80 8003,
    .swap "web" .stream 80 (.arr [.num 8002, .num 8002])]

theorem distinct_ports_run : ∃ entry,
    (execAll emptyConf distinctCalls).appEntry .stream "web" = some entry ∧
      entry.DistinctPorts := by
  refine ⟨_, rfl, (distinct_ports_iff .undefined .undefined distinctCalls ?_).mpr ?_
    distinctCalls (List.prefix_refl _) .stream "web" _ rfl⟩
  · intro call hcall
    simp only [distinctCalls, List.mem_cons, List.not_mem_nil, or_false] at hcall
    rcases hcall with rfl | rfl | rfl
    · exact ⟨_, .swap _ _ [8001, 8002] rfl⟩
    · exact ⟨_, .add _ _ 8003 rfl rfl⟩
    · exact ⟨_, .swap _ _ [8002, 8002] rfl⟩
  · refine ⟨?_, trivial, ?_, trivial⟩
    · rintro _ ⟨⟩
      exact Or.inl (by simp)
    · rintro _ ⟨⟩
      exact Or.inr (Or.inr ⟨{ port := .num 8002 }, .tail _ (.head _), by simp⟩)

/-- One update that lists a port twice. -/
theorem repeated_port_kept : ∃ entry,
    (execAll emptyConf [.swap "web" .stream 80 (.arr [.num 8001, .num 8001])]).appEntry
      .stream "web" = some entry ∧ ¬entry.DistinctPorts := by
  refine ⟨_, rfl, ?_⟩
  rintro ⟨items, ⟨⟩, hnodup⟩
  simp at hnodup

/-! ## Primary servers -/

/-- The upstream block of the entry has a server that is not a backup. -/
def Entry.Usable (entry : Entry N) : Prop :=
  ∃ items, entry.instances = .list items ∧ ∃ item ∈ items, item.backup.truthy = false

/-- A deletion does not name the only primary port of an application with backups. An
update brings in a port, or it is refused: because its name is one of `Object.prototype`,
or because a primary port of before is listed twice. -/
def KeepsPrimary (conf : Conf N) : Call N → Prop
  | .deletePortRouting appName port =>
      ¬(primaryPorts (conf.items .http appName) = [port] ∧
        ∃ item ∈ conf.items .http appName, item.backup.truthy = true)
  | .addOrUpdateAppRouting appName (.object routing) =>
      routing.outPorts ≠ .arr [] ∨ appName ∈ objectPrototypeNames ∨
        ¬(primaryPorts (conf.items (routing.mode.getD .stream) appName)).Nodup
  | _ => True

theorem keepsPrimary_iff {conf : Conf N} {pools : Pools N} {call : Call N}
    {request : Request N} (h : conf.Represents pools) (hcall : call.Asks request) :
    KeepsPrimary conf call ↔ call.appName ∈ objectPrototypeNames ∨
      request.KeepsUsable (pools call.mode call.appName) := by
  cases hcall with
  | add appName opts port hin hout => exact iff_of_true trivial (Or.inr trivial)
  | refused appName => exact iff_of_true trivial (Or.inr trivial)
  | delete appName port =>
      simp only [KeepsPrimary, h.items_eq, primaryPorts_backends, Call.appName, Call.mode]
      cases hpool : pools .http appName with
      | none =>
          refine iff_of_true ?_ (Or.inr trivial)
          rintro ⟨hports, -⟩
          cases hports
      | some pool =>
          -- a name of `Object.prototype` has no pool
          have hname : appName ∉ objectPrototypeNames := fun hname => by
            rw [h.inherited .http appName hname] at hpool
            cases hpool
          have hsingle : pool.primaries.map Value.num = [.num port] ↔
              pool.primaries = [port] := by
            simp [List.map_eq_singleton_iff]
          simp [Request.KeepsUsable, hname, Pool.hasBackup, hsingle]
  | swap appName routing ports hout =>
      have hempty : Value.arr (ports.map Value.num) ≠ .arr [] ↔ ports ≠ [] := by simp
      simp only [KeepsPrimary, hout, hempty, h.items_eq, primaryPorts_backends, nodup_map_num,
        Request.KeepsUsable, Call.appName, Call.mode]
      exact or_left_comm

/-- In a run with numeric ports every upstream block has a primary server exactly if no
deletion takes the last primary of an application with backups and no accepted update
has an empty list of ports. -/
theorem usable_iff (debugMode statusPort : Value N) (calls : List (Call N))
    (hcalls : ∀ call ∈ calls, call.Numeric) :
    (∀ earlier, earlier <+: calls →
      (execAll (.initial debugMode statusPort) earlier).Every Entry.Usable) ↔
      RunMeets KeepsPrimary (.initial debugMode statusPort) calls := by
  have hentry : ∀ (entry : Entry N) (pool : Pool N), entry.instances = pool.instances →
      (entry.Usable ↔ pool.primaries ≠ []) := by
    intro entry pool hinstances
    simp only [Entry.Usable, hinstances, Pool.instances, Instances.list.injEq, exists_eq_left']
    simp [Pool.primaries]
  exact every_entry_iff hentry (fun request found => request.keepsUsable_iff)
    (fun conf pools call request => keepsPrimary_iff) debugMode statusPort hcalls

/-- A swap, and the deletion of the port it demoted. -/
def usableCalls : List (Call Int) :=
  [.swap "web" .http 80 (.arr [.num 8001]), .swap "web" .http 80 (.arr [.num 8002]),
    .deletePortRouting "web" (.num 8001)]

theorem usable_run : ∃ entry,
    (execAll emptyConf usableCalls).appEntry .http "web" = some entry ∧ entry.Usable := by
  refine ⟨_, rfl, (usable_iff .undefined .undefined usableCalls ?_).mpr ?_
    usableCalls (List.prefix_refl _) .http "web" _ rfl⟩
  · intro call hcall
    simp only [usableCalls, List.mem_cons, List.not_mem_nil, or_false] at hcall
    rcases hcall with rfl | rfl | rfl
    · exact ⟨_, .swap _ _ [8001] rfl⟩
    · exact ⟨_, .swap _ _ [8002] rfl⟩
    · exact ⟨_, .delete _ 8001⟩
  · refine ⟨Or.inl ?_, Or.inl ?_, ?_, trivial⟩
    · rintro ⟨⟩
    · rintro ⟨⟩
    · rintro ⟨⟨⟩, -⟩

/-- An update without ports leaves nothing at all, and deleting the port of a second update
leaves the backup of the first one alone. -/
theorem only_backup_left :
    (∃ entry, (execAll emptyConf [.swap "web" .stream 80 (.arr [])]).appEntry .stream "web" =
        some entry ∧ entry.instances = .list [] ∧ ¬entry.Usable) ∧
      ∃ entry, (execAll emptyConf
        [.swap "web" .http 80 (.arr [.num 8001]), .swap "web" .http 80 (.arr [.num 8002]),
          .deletePortRouting "web" (.num 8002)]).appEntry .http "web" = some entry ∧
        ¬entry.Usable := by
  constructor
  · refine ⟨_, rfl, rfl, ?_⟩
    rintro ⟨items, ⟨⟩, item, hitem, -⟩
    cases hitem
  · refine ⟨_, rfl, ?_⟩
    rintro ⟨items, ⟨⟩, item, hitem, hbackup⟩
    cases List.mem_singleton.mp hitem
    cases hbackup

end NginxInterface
