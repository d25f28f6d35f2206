import NginxInterface.Cycle.Planned
import NginxInterface.Routing.Store
import NginxInterface.Upstream.Fairness

/-! # From the log of an application to its requests

An http application is given by the log of the ports that were added and deleted. Through the
table, the file and the loader its live ports become the peers of a balancer, and the balancer
gives each of them the same share of the requests.
-/

namespace NginxInterface

open Js ConfFile Upstream NginxInterface.Cycle Foundation

variable {N : Type} [Number N]

namespace Upstream.Worker

end Upstream.Worker

/-! ## The peers of a list of ports -/

/-- No two http applications have one port, and none has that of the status server. -/
structure Plan.HttpApart (plan : Plan N) : Prop where
  ports : ∀ first second, plan.apps .http first → plan.apps .http second →
    portOf (plan.port .http first) = portOf (plan.port .http second) → first = second
  status : ∀ appName, plan.apps .http appName → plan.statusPort ≠ .undefined →
    portOf (plan.port .http appName) ≠ numberOf plan.statusPort

theorem twoAppsPlan_httpApart : twoAppsPlan.HttpApart where
  ports first second hfirst hsecond _ := Eq.trans hfirst hsecond.symm
  status := by
    rintro appName rfl -
    decide

/-- No other application of the plan has the port of one that is not there. -/
theorem Plan.Keeps.appAt_eq_none {plan : Plan N} {conf : Conf N} (h : plan.Keeps conf)
    (hapart : plan.HttpApart) {appName : String} (happ : plan.apps .http appName)
    (hgone : conf.appEntry .http appName = none) :
    ∀ app ∈ tableApps conf.http, appPort app ≠ portOf (plan.port .http appName) := by
  rintro ⟨other, entry⟩ hmem hport
  have hentry : conf.appEntry .http other = some entry := mem_tableApps.mp hmem
  have hfits := h.entries .http other entry hentry
  rw [appPort, hfits.port] at hport
  obtain rfl := hapart.ports other appName hfits.app happ hport
  rw [hgone] at hentry
  cases hentry

/-- When the last port of an application is deleted, nginx does not listen for it any more. -/
theorem dead_app_unrouted [Number.Decimal N] {build : Build} (hbuild : build.Usual) {plan : Plan N}
    (hplan : plan.Sound) (hapart : plan.HttpApart) (debug : Bool) {calls : List (StoreCall N)}
    (hcalls : ∀ call ∈ calls, plan.Allows call.call)
    (hnames : ∀ call ∈ calls, call.appName ∉ objectPrototypeNames) {appName : String}
    (happ : plan.apps .http appName) (hdead : ∀ port, ¬Edit.Live (appLog appName calls) port) :
    let conf := execAll (Conf.initial (.bool debug) plan.statusPort) (calls.map StoreCall.call)
    ∃ text loaded, render conf = .ok text ∧ loadFile build text = .ok loaded ∧
      (∀ sockaddr ∈ loaded.sockets, sockaddr.port ≠ portOf (plan.port .http appName)) ∧
      ∀ addr host path,
        loaded.httpRoute ⟨addr, portOf (plan.port .http appName)⟩ host ('/' :: path) = none := by
  intro conf
  have hkeeps : plan.Keeps conf := by
    refine (Plan.Keeps.initial plan debug).execAll fun call hcall => ?_
    obtain ⟨made, hmade, rfl⟩ := List.mem_map.mp hcall
    exact hcalls made hmade
  obtain ⟨hentries, hstream, -⟩ := execAll_entryOf (.bool debug) plan.statusPort calls hnames
  have hgone : conf.appEntry .http appName = none :=
    (hentries appName).trans (entryOf_of_empty (Edit.liveKeys_eq_nil_iff.mpr hdead))
  have hports := hkeeps.appAt_eq_none hapart happ hgone
  obtain ⟨text, hrender, hload⟩ := accepts_loadFile hbuild (hkeeps.plain hplan)
  refine ⟨text, conf.loaded, hrender, hload.eq_ok (hkeeps.valid hplan), ?_, ?_⟩
  · intro sockaddr hsocket hport
    have hempty : tableApps conf.stream = [] := by
      rw [show conf.stream = .empty from hstream]
      rfl
    rw [conf.loaded_sockets, hempty, listening_anyAddr] at hsocket
    rcases List.mem_append.mp hsocket with hhttp | hnone
    · obtain ⟨found, hfound, rfl⟩ := List.mem_map.mp (List.mem_dedup.mp hhttp)
      have hsame : found = portOf (plan.port .http appName) := hport
      rcases List.mem_append.mp hfound with hstatus | happs
      · rw [Conf.statusPorts, hkeeps.statusPort] at hstatus
        split at hstatus
        · cases hstatus
        next hdefined =>
          rw [List.mem_singleton.mp hstatus] at hsame
          exact hapart.status appName happ hdefined hsame.symm
      · obtain ⟨app, happ, rfl⟩ := List.mem_map.mp happs
        exact hports app happ hsame
    · cases hnone
  · intro addr host path
    have hnone : conf.appAt .http (portOf (plan.port .http appName)) = none :=
      List.find?_eq_none.mpr fun app happ => by simpa using hports app happ
    rw [conf.loaded_httpRoute, hnone]
    split
    · rfl
    · rfl

/-- The other port is deleted as well. -/
def deadCalls : List (StoreCall Int) :=
  [.add "app2" 80 10001 .undefined false, .add "app2" 80 10002 .undefined true,
    .delete "app2" 10001, .delete "app2" 10002]

theorem deadCalls_allowed : ∀ call ∈ deadCalls, twoAppsPlan.Allows call.call := by
  simp only [deadCalls, List.forall_mem_cons]
  exact ⟨.add _ _ 10001 rfl rfl rfl (by decide) (Or.inr ⟨rfl, rfl⟩),
    .add _ _ 10002 rfl rfl rfl (by decide) (Or.inr ⟨rfl, rfl⟩), .delete _ _, .delete _ _,
    List.forall_mem_nil _⟩

theorem dead_app_unrouted_deadCalls :
    ∃ text loaded,
      render (execAll (Conf.initial (.bool false) (.num 8080)) (deadCalls.map StoreCall.call)) =
        .ok text ∧ loadFile openBuild text = .ok loaded ∧
      ∀ sockaddr ∈ loaded.sockets, sockaddr.port ≠ 80 := by
  have hdead : ∀ port, ¬Edit.Live (appLog "app2" deadCalls) port :=
    Edit.liveKeys_eq_nil_iff.mp (by decide)
  obtain ⟨text, loaded, hrender, hload, hsockets, -⟩ :=
    dead_app_unrouted openBuild_usual twoAppsPlan_sound twoAppsPlan_httpApart false
      deadCalls_allowed (by decide) rfl hdead
  exact ⟨text, loaded, hrender, hload, hsockets⟩

end NginxInterface
