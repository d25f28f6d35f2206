import NginxInterface.Agent.Failure
import NginxInterface.Routing.Backends

/-! # Additions that succeed

The callback of `addPortRouting` receives no error in three cases: the application was
unknown and is created, it was known and gets one more instance, or it already had the
port and nothing changes. Only in the first case do the in_port and the balancing
method of the call count.
-/

namespace NginxInterface

open Foundation Js

variable {N : Type} [Number N]

namespace Agent

/-- A call whose callback received no error had got as far as writing the file. -/
theorem updating_of_replied {agent final : Agent N} {call : Call N} {after : List (Step N)}
    (hafter : agent.run (.arrive call :: after) = some final)
    (hreplied : final.phase? agent.calls.length = some (.replied none)) :
    (call.exec agent.conf).2 = .updating ∧
      final.conf = execAll (call.exec agent.conf).1 (arrivals after) := by
  obtain ⟨next, hnext, hrest⟩ := runSteps_cons_eq_some _ hafter
  obtain ⟨hconf, hphase⟩ := arrive_phase hnext
  refine ⟨?_, by rw [(run_calls hrest).2, hconf]⟩
  obtain ⟨last, hlast, horigin⟩ := run_failure hrest hphase
  rw [hreplied, Option.some.injEq] at hlast
  subst hlast
  rcases horigin with hsame | ⟨hnone, -⟩
  · exact arrivalPhase_none hsame.symm
  · exact arrivalPhase_none hnone

end Agent

/-- What an addition of a numeric port leaves of the entry it finds. -/
theorem addPortRouting_entry {conf : Conf N} {pools : Pools N} (hconf : conf.Represents pools)
    {appName : String} {opts : Opts N} {inPort outPort : N} (hin : opts.inPort = .num inPort)
    (hout : opts.outPort = .num outPort)
    (haccepted : (addPortRouting conf appName opts).2 = .updating) :
    let mode := opts.mode.getD .http
    ∃ entry, (addPortRouting conf appName opts).1.appEntry mode appName = some entry ∧
      (conf.appEntry mode appName = none → entry =
        { port := .num inPort, instances := .list [{ port := .num outPort }],
          balance := opts.lbMode.or .null }) ∧
      ∀ own, conf.appEntry mode appName = some own →
        ∃ items, own.instances = .list items ∧
          (Value.num outPort ∈ items.map Instance.port → entry = own) ∧
          (Value.num outPort ∉ items.map Instance.port → entry =
            { own with instances := .list (items ++ [{ port := .num outPort }]) }) := by
  intro mode
  obtain ⟨entry, hentry, hleaves⟩ := addPortRouting_leaves haccepted
  refine ⟨entry, hentry, ?_, ?_⟩
  · intro hnone
    have hfresh : opts.Leaves (conf.appEntry mode appName) entry := hleaves
    rw [hnone] at hfresh
    rw [show entry = _ from hfresh, Opts.freshEntry, hin, hout]
  · intro own hown
    have hinstances := hconf.instances mode appName
    rw [hown, Option.map_some, eq_comm, Option.map_eq_some_iff] at hinstances
    obtain ⟨pool, -, hpool⟩ := hinstances
    have hports := map_toInstance_port pool.backends
    have hmem : Value.num outPort ∈ (pool.backends.map Backend.toInstance).map Instance.port ↔
        outPort ∈ pool.backends.map Backend.port := by
      rw [hports]
      simp
    have hprintable : opts.inPort.printable = true := by rw [hin, Value.printable_num]
    have hlookup : conf.lookup (opts.mode.getD .http) appName = .own own :=
      Conf.lookup_of_appEntry hown
    rw [addPortRouting_eq] at hentry
    simp only [hlookup, addPortChange_own hprintable hout hpool.symm hports,
      Conf.appEntry_change_self] at hentry
    refine ⟨_, hpool.symm, fun hused => ?_, fun hfree => ?_⟩
    · rw [if_pos (hmem.mp hused)] at hentry
      exact Option.some.inj (hentry.symm.trans hown)
    · rw [if_neg fun hused => hfree (hmem.mpr hused)] at hentry
      exact (Option.some.inj hentry).symm

namespace Agent

/-- An addition whose callback received no error, with no other call in between. An
unknown application is created with the in_port and the out_port of the call. A known
one keeps its port and its balancing method; the out_port is appended to its instances
if none of them has it, and otherwise nothing changes. -/
theorem add_in_force (debugMode statusPort : Value N) (file : Text)
    (before after : List (Step N)) (appName : String) (opts : Opts N) (inPort outPort : N)
    (agent final : Agent N)
    (hbefore : (idle (Conf.initial debugMode statusPort) file).run before = some agent)
    (hcalls : ∀ call ∈ arrivals before, call.Numeric)
    (hin : opts.inPort = .num inPort) (hout : opts.outPort = .num outPort)
    (hafter : agent.run (.arrive (.addPortRouting appName opts) :: after) = some final)
    (halone : arrivals after = [])
    (hreplied : final.phase? agent.calls.length = some (.replied none)) :
    let mode := opts.mode.getD .http
    ∃ entry, final.conf.appEntry mode appName = some entry ∧
      (agent.conf.appEntry mode appName = none → entry =
        { port := .num inPort, instances := .list [{ port := .num outPort }],
          balance := opts.lbMode.or .null }) ∧
      ∀ own, agent.conf.appEntry mode appName = some own →
        ∃ items, own.instances = .list items ∧
          (Value.num outPort ∈ items.map Instance.port → entry = own) ∧
          (Value.num outPort ∉ items.map Instance.port → entry =
            { own with instances := .list (items ++ [{ port := .num outPort }]) }) := by
  obtain ⟨haccepted, hfinal⟩ := updating_of_replied hafter hreplied
  obtain ⟨pools, hpools⟩ : ∃ pools, agent.conf.Represents pools := by
    rw [(run_calls hbefore).2]
    exact (Conf.Represents.initial debugMode statusPort).execAll hcalls
  rw [hfinal, halone, execAll_nil]
  exact addPortRouting_entry hpools hin hout haccepted

/-- The steps of a call that succeeds. -/
def successSteps (index : Nat) : List (Step Int) :=
  [.writeFile index, .reload index true, .reply index]

theorem add_in_force_second :
    ∃ agent final : Agent Int,
      (idle emptyConf []).run
        (.arrive (.swap "web" .http 80 (.arr [.num 8001])) :: successSteps 0) = some agent ∧
      agent.run (.arrive (.forward "web" 80 8002) :: successSteps 1) = some final ∧
      ∃ entry, final.conf.appEntry .http "web" = some entry ∧
        entry.instances = .list [{ port := .num 8001 }, { port := .num 8002 }] := by
  refine ⟨_, _, rfl, rfl, ?_⟩
  obtain ⟨entry, hentry, -, hown⟩ := add_in_force .undefined .undefined []
    (.arrive (.swap "web" .http 80 (.arr [.num 8001])) :: successSteps 0) (successSteps 1) "web"
    { inPort := .num 80, outPort := .num 8002 } 80 8002 _ _ rfl
    (fun call hcall => List.mem_singleton.mp hcall ▸ ⟨_, .swap _ _ [8001] rfl⟩) rfl rfl rfl rfl rfl
  obtain ⟨items, ⟨⟩, -, hfresh⟩ := hown _ rfl
  exact ⟨entry, hentry, by rw [hfresh (by simp)]; rfl⟩

/-- The second addition succeeds, and the application still listens on the port of the
first one. -/
theorem add_keeps_old_port :
    ∃ final : Agent Int,
      (idle emptyConf []).run
        (.arrive (.forward "web" 80 8001) :: successSteps 0 ++
          .arrive (.forward "web" 81 8002) :: successSteps 1) = some final ∧
      final.phase? 1 = some (.replied none) ∧
      ∃ entry, final.conf.appEntry .http "web" = some entry ∧ entry.port = .num 80 :=
  ⟨_, rfl, rfl, _, rfl, rfl⟩

end Agent

end NginxInterface
