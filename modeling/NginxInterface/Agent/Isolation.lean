import NginxInterface.Agent.Invariants

/-! # Applications do not interfere

The entry of an application in a table depends only on the calls that target it.
Calls for other applications, and the writes, signals and callbacks of any call,
whether they succeed or fail, leave it alone.
-/

namespace NginxInterface

open Foundation Js

variable {N : Type} [Number N]

/-- The call works on the given application of the given table. -/
def Call.targets (mode : Mode) (appName : String) (call : Call N) : Bool :=
  decide ((mode, appName) = (call.mode, call.appName))

omit [Number N] in
theorem Call.targets_iff {mode : Mode} {appName : String} {call : Call N} :
    call.targets mode appName = true ↔ (mode, appName) = (call.mode, call.appName) :=
  decide_eq_true_iff

/-- What a call makes of the entry it targets depends on that entry alone. -/
theorem Call.exec_local {mode : Mode} {appName : String} {call : Call N}
    (htarget : call.targets mode appName = true) {left right : Conf N}
    (h : left.appEntry mode appName = right.appEntry mode appName) :
    (call.exec left).1.appEntry mode appName = (call.exec right).1.appEntry mode appName := by
  cases Call.targets_iff.mp htarget
  rw [Call.exec_eq, Call.exec_eq]
  simp only [Conf.appEntry_change_self, Conf.lookup_congr h, h]

/-- A call leaves every entry alone that it does not target. -/
theorem Call.exec_frame {mode : Mode} {appName : String} {call : Call N}
    (htarget : call.targets mode appName = false) (conf : Conf N) :
    (call.exec conf).1.appEntry mode appName = conf.appEntry mode appName := by
  have hne : (mode, appName) ≠ (call.mode, call.appName) :=
    fun heq => Bool.false_ne_true (htarget.symm.trans (Call.targets_iff.mpr heq))
  rw [Call.exec_eq]
  exact Conf.appEntry_change_of_ne conf _ hne

/-- The calls that target an application determine its entry. -/
theorem execAll_appEntry_filter (mode : Mode) (appName : String) (conf : Conf N)
    (calls : List (Call N)) :
    (execAll conf calls).appEntry mode appName =
      (execAll conf (calls.filter (Call.targets mode appName))).appEntry mode appName :=
  foldl_observe_purge (fun conf call => (call.exec conf).1)
    (fun conf => conf.appEntry mode appName) (Call.targets mode appName)
    (fun conf _ hcall => Call.exec_frame hcall conf)
    (fun _ _ _ hcall hconf => Call.exec_local hcall hconf) calls rfl

namespace Agent

/-- Two runs end with the same entry for an application if the calls of the one
are those calls of the other that target the application. Nothing is asked of the
other steps of either run. -/
theorem entry_isolated (conf : Conf N) (mode : Mode) (appName : String)
    (file otherFile : Text) (steps alone : List (Step N)) (final finalAlone : Agent N)
    (hrun : (idle conf file).run steps = some final)
    (halone : (idle conf otherFile).run alone = some finalAlone)
    (hcalls : arrivals alone = (arrivals steps).filter (Call.targets mode appName)) :
    final.conf.appEntry mode appName = finalAlone.conf.appEntry mode appName := by
  rw [(run_calls hrun).2, (run_calls halone).2, hcalls]
  exact execAll_appEntry_filter mode appName conf (arrivals steps)

/-- A run with calls for two applications, one failed write and one refused call. -/
def mixedSteps : List (Step Int) :=
  [.arrive (.forward "web" 80 8001), .arrive (.forward "api" 81 9001), .failFile 0,
    .arrive (.deletePortRouting "api" (.num 9001)), .writeFile 2,
    .arrive (.addOrUpdateAppRouting "web" .notObject), .arrive (.forward "web" 80 8002)]

/-- The calls of `mixedSteps` that target the http entry of `web`. -/
def webSteps : List (Step Int) :=
  [.arrive (.forward "web" 80 8001), .arrive (.forward "web" 80 8002)]

theorem entry_isolated_mixedSteps :
    ∃ final finalAlone : Agent Int,
      (idle (.initial .undefined .undefined) []).run mixedSteps = some final ∧
      (idle (.initial .undefined .undefined) []).run webSteps = some finalAlone ∧
      final.conf.appEntry .http "web" = finalAlone.conf.appEntry .http "web" := by
  have hmixed : ((idle (.initial .undefined .undefined) []).run mixedSteps).isSome = true := by
    decide +kernel
  have hweb : ((idle (.initial .undefined .undefined) []).run webSteps).isSome = true := by
    decide +kernel
  obtain ⟨final, hfinal⟩ := Option.isSome_iff_exists.mp hmixed
  obtain ⟨finalAlone, hfinalAlone⟩ := Option.isSome_iff_exists.mp hweb
  exact ⟨final, finalAlone, hfinal, hfinalAlone,
    entry_isolated _ .http "web" [] [] mixedSteps webSteps final finalAlone hfinal hfinalAlone rfl⟩

end Agent

end NginxInterface
