import NginxInterface.Cycle.Routes
import NginxInterface.Routing.Backends

/-! # Calls that follow a plan

A plan gives every application of a table a port of its own. As long as all calls keep to a
plan, with ports in range and balancing methods that nginx has, nginx loads every file that is
rendered: no order of additions, deletions and updates leads to one that it refuses.
-/

namespace NginxInterface

open Js Ejs ConfFile Upstream NginxInterface.Cycle Foundation

variable {N : Type} [Number N]

/-! ## Plans -/

/-- The applications that may be routed, and the port that each of them listens on. -/
structure Plan (N : Type) where
  apps : Mode → String → Prop
  port : Mode → String → N
  statusPort : Value N

def natural (n : N) : Prop := (boundedAtoi (Number.toText n)).isSome = true

/-- The port number that nginx reads. -/
def portOf (n : N) : Nat := numberOf (.num n)

/-- The ports of the plan are ports, and the applications do not get in each other's way. -/
structure Plan.Sound (plan : Plan N) : Prop where
  statusPort : plan.statusPort = .undefined ∨
    plan.statusPort.Natural ∧ PortRange (numberOf plan.statusPort)
  name : ∀ mode appName, plan.apps mode appName →
    Name appName ∧ appName.length ≤ nameLimit mode
  port : ∀ mode appName, plan.apps mode appName →
    natural (plan.port mode appName) ∧ PortRange (portOf (plan.port mode appName))
  names : ∀ mode first second, plan.apps mode first → plan.apps mode second →
    sameHost first.toList second.toList = true → first = second
  streamPorts : ∀ first second, plan.apps .stream first → plan.apps .stream second →
    portOf (plan.port .stream first) = portOf (plan.port .stream second) → first = second
  separate : ∀ first second, plan.apps .stream first → plan.apps .http second →
    portOf (plan.port .stream first) ≠ portOf (plan.port .http second)
  status : ∀ appName, plan.apps .stream appName → plan.statusPort ≠ .undefined →
    portOf (plan.port .stream appName) ≠ numberOf plan.statusPort

/-- A balancing method that is given and that nginx has. -/
def MethodGiven (mode : Mode) (lbMode : Value N) : Prop :=
  ∃ method, lbMode = .str method ∧ Name method ∧ method.toList ∈ methodNames mode

/-- The calls that keep to the plan. Only in the stream table an addition has to give a
balancing method. -/
inductive Plan.Allows (plan : Plan N) : Call N → Prop
  | add (appName : String) (opts : Opts N) (port : N)
      (happ : plan.apps (opts.mode.getD .http) appName)
      (hin : opts.inPort = .num (plan.port (opts.mode.getD .http) appName))
      (hout : opts.outPort = .num port) (hrange : PortRange (portOf port))
      (hmethod : MethodGiven (opts.mode.getD .http) opts.lbMode ∨
        opts.mode.getD .http = .http ∧ opts.lbMode.truthy = false) :
      Allows plan (.addPortRouting appName opts)
  | delete (appName : String) (port : N) :
      Allows plan (.deletePortRouting appName (.num port))
  | update (appName : String) (routing : Routing N) (ports : List N)
      (happ : plan.apps (routing.mode.getD .stream) appName)
      (hin : routing.inPort = .num (plan.port (routing.mode.getD .stream) appName))
      (hout : routing.outPorts = .arr (ports.map .num)) (hports : ports ≠ [])
      (hrange : ∀ port ∈ ports, PortRange (portOf port))
      (hmethod : MethodGiven (routing.mode.getD .stream) routing.lbMode ∨
        routing.lbMode.truthy = false) :
      Allows plan (.addOrUpdateAppRouting appName (.object routing))
  | refused (appName : String) : Allows plan (.addOrUpdateAppRouting appName .notObject)

/-! ## Entries -/

/-- The instances of an application that keeps to the plan. -/
structure PlannedItems (mode : Mode) (items : List (Instance N)) : Prop where
  ports : ∀ item ∈ items, item.weight = .undefined ∧ ∃ n, item.port = .num n ∧ PortRange (portOf n)
  primary : ∃ item ∈ items, item.isBackup mode = false

structure Plan.Fits (plan : Plan N) (mode : Mode) (appName : String) (entry : Entry N) :
    Prop where
  app : plan.apps mode appName
  port : entry.port = .num (plan.port mode appName)
  method : entry.method mode ∈ methodNames mode
  balance : entry.balance = .null ∨ ∃ method, entry.balance = .str method ∧ Name method
  instances : ∃ items, entry.instances = .list items ∧ PlannedItems mode items
  serverName : entry.serverName = .undefined
  ssl : entry.ssl = none

namespace PlannedItems

variable {mode : Mode} {items : List (Instance N)}

theorem append (h : PlannedItems mode items) {port : N} (hrange : PortRange (portOf port)) :
    PlannedItems mode (items ++ [{ port := .num port }]) where
  ports := by
    rw [List.forall_mem_append, List.forall_mem_singleton]
    exact ⟨h.ports, rfl, port, rfl, hrange⟩
  primary := by
    obtain ⟨item, hitem, hprimary⟩ := h.primary
    exact ⟨item, List.mem_append_left _ hitem, hprimary⟩

/-- In the http block every instance is a primary one. -/
theorem of_sublist (h : PlannedItems .http items) {kept : List (Instance N)}
    (hkept : kept.Sublist items) (hne : kept ≠ []) : PlannedItems .http kept where
  ports item hitem := h.ports item (hkept.subset hitem)
  primary := by
    obtain ⟨item, hitem⟩ := List.exists_mem_of_ne_nil kept hne
    exact ⟨item, hitem, rfl⟩

theorem new (mode : Mode) {ports : List N} (hne : ports ≠ [])
    (hrange : ∀ port ∈ ports, PortRange (portOf port)) :
    PlannedItems mode (portInstances ports) where
  ports := by
    intro item hitem
    obtain ⟨port, hport, rfl⟩ := List.mem_map.mp hitem
    exact ⟨rfl, port, rfl, hrange port hport⟩
  primary := by
    obtain ⟨port, hport⟩ := List.exists_mem_of_ne_nil ports hne
    refine ⟨_, List.mem_map.mpr ⟨port, hport, rfl⟩, ?_⟩
    simp [Instance.isBackup, Value.truthy]

theorem swap (h : PlannedItems mode items) {news : List (Instance N)}
    (hnews : PlannedItems mode news) : PlannedItems mode (news ++ demoted items) where
  ports := by
    rw [List.forall_mem_append]
    refine ⟨hnews.ports, fun item hitem => ?_⟩
    obtain ⟨old, hold, rfl⟩ := List.mem_map.mp hitem
    exact ⟨rfl, (h.ports old (List.mem_of_mem_filter hold)).2⟩
  primary := by
    obtain ⟨item, hitem, hprimary⟩ := hnews.primary
    exact ⟨item, List.mem_append_left _ hitem, hprimary⟩

end PlannedItems

/-! ## Balancing methods -/

theorem Value.or_of_falsy {value fallback : Value N} (h : value.truthy = false) :
    value.or fallback = fallback := by
  rw [Value.or, h]
  rfl

/-- What is stored for a balancing method, with the value that stands for a missing one. -/
theorem MethodGiven.stored {mode : Mode} {lbMode : Value N} (h : MethodGiven mode lbMode)
    {entry : Entry N} {fallback : Value N} (hbalance : entry.balance = lbMode.or fallback) :
    entry.method mode ∈ methodNames mode ∧
      (entry.balance = .null ∨ ∃ method, entry.balance = .str method ∧ Name method) := by
  obtain ⟨method, rfl, hname, hmethod⟩ := h
  have htruthy : (Value.str method : Value N).truthy = true := by simp [Value.truthy, hname.1]
  have hstored : entry.balance = .str method := by rw [hbalance, Value.or, htruthy, if_pos rfl]
  refine ⟨?_, Or.inr ⟨method, hstored, hname⟩⟩
  cases mode with
  | http =>
      rw [Entry.method, hstored, htruthy]
      exact hmethod
  | stream =>
      rw [Entry.method, hstored]
      exact hmethod

omit [Number N] in
theorem methodGiven_default (mode : Mode) : MethodGiven mode (.str "round_robin" : Value N) :=
  ⟨"round_robin", rfl, by decide, by cases mode <;> exact List.mem_cons_self⟩

/-! ## Steps -/

section Steps

variable {plan : Plan N}

theorem Plan.fits_add {appName : String} {opts : Opts N} {port : N} {found : Found N}
    (hfound : ∀ own, found = .own own → plan.Fits (opts.mode.getD .http) appName own)
    (happ : plan.apps (opts.mode.getD .http) appName)
    (hin : opts.inPort = .num (plan.port (opts.mode.getD .http) appName))
    (hout : opts.outPort = .num port) (hrange : PortRange (portOf port))
    (hmethod : MethodGiven (opts.mode.getD .http) opts.lbMode ∨
      opts.mode.getD .http = .http ∧ opts.lbMode.truthy = false) {entry : Entry N}
    (h : (addPortChange appName opts found).1 = .store entry) :
    plan.Fits (opts.mode.getD .http) appName entry := by
  cases found with
  | inherited => cases h
  | absent =>
      have hinPrints : opts.inPort.printable = true := by rw [hin]; rfl
      have houtPrints : opts.outPort.printable = true := by rw [hout]; rfl
      obtain ⟨message, hmessage⟩ := forwardMessage_ok appName hinPrints houtPrints
      simp only [addPortChange, hmessage, Change.store.injEq] at h
      subst h
      have hstored : (opts.freshEntry [{ port := opts.outPort }]).method (opts.mode.getD .http) ∈
          methodNames (opts.mode.getD .http) ∧
          ((opts.freshEntry [{ port := opts.outPort }]).balance = .null ∨ ∃ method,
            (opts.freshEntry [{ port := opts.outPort }]).balance = .str method ∧ Name method) := by
        rcases hmethod with hgiven | ⟨hmode, hfalsy⟩
        · exact hgiven.stored rfl
        · have hnull : (opts.freshEntry [{ port := opts.outPort }]).balance = .null :=
            Value.or_of_falsy hfalsy
          refine ⟨?_, Or.inl hnull⟩
          rw [hmode, Entry.method, hnull]
          exact List.mem_cons_self
      refine ⟨happ, hin, hstored.1, hstored.2, ⟨_, rfl, ?_⟩, rfl, rfl⟩
      rw [hout]
      exact PlannedItems.new _ (List.cons_ne_nil port []) (List.forall_mem_singleton.mpr hrange)
  | own own =>
      have hown := hfound own rfl
      rcases addPortChange_store h with ⟨hwrong, -⟩ | ⟨same, items, hsame, hitems, -, -, rfl⟩
      · cases hwrong
      · cases hsame
        obtain ⟨others, hothers, hplanned⟩ := hown.instances
        cases hitems.symm.trans hothers
        refine ⟨hown.app, hown.port, hown.method, hown.balance, ⟨_, rfl, ?_⟩, hown.serverName,
          hown.ssl⟩
        rw [hout]
        exact hplanned.append hrange

/-- A deletion that leaves no instance drops the application. -/
theorem Plan.fits_delete {appName : String} {port : N} {found : Found N}
    (hfound : ∀ own, found = .own own → plan.Fits .http appName own) {entry : Entry N}
    (h : (deletePortChange (.num port) found).1 = .store entry) :
    plan.Fits .http appName entry := by
  cases found with
  | inherited => cases h
  | absent => cases h
  | own own =>
      have hown := hfound own rfl
      obtain ⟨items, hitems, hplanned⟩ := hown.instances
      have hloop : (removeSkipping (fun item : Instance N => item.port.looseEq (.num port))
          items).2 = .ok () := by
        refine removeSkipping_ok _ items fun item hitem => ?_
        obtain ⟨-, n, hn, -⟩ := hplanned.ports item hitem
        exact ⟨_, by rw [hn]; rfl⟩
      simp only [deletePortChange, hitems, hloop] at h
      split at h
      · cases h
      next hne =>
        cases h
        exact ⟨hown.app, hown.port, hown.method, hown.balance,
          ⟨_, rfl, hplanned.of_sublist (removeSkipping_sublist _ items) hne⟩, hown.serverName,
          hown.ssl⟩

theorem Plan.fits_update {appName : String} {routing : Routing N} {ports : List N}
    {found : Found N}
    (hfound : ∀ own, found = .own own → plan.Fits (routing.mode.getD .stream) appName own)
    (happ : plan.apps (routing.mode.getD .stream) appName)
    (hin : routing.inPort = .num (plan.port (routing.mode.getD .stream) appName))
    (hout : routing.outPorts = .arr (ports.map .num)) (hports : ports ≠ [])
    (hrange : ∀ port ∈ ports, PortRange (portOf port))
    (hmethod : MethodGiven (routing.mode.getD .stream) routing.lbMode ∨
      routing.lbMode.truthy = false) {entry : Entry N}
    (h : (updateChange appName (.object routing) found).1 = .store entry) :
    plan.Fits (routing.mode.getD .stream) appName entry := by
  have hnew : newInstances routing.outPorts = .list (portInstances ports) := by
    rw [hout, newInstances_ports]
  have hplanned := PlannedItems.new (routing.mode.getD .stream) hports hrange
  -- whatever the instances are, the other fields come from the call
  have hfits : ∀ items, PlannedItems (routing.mode.getD .stream) items →
      plan.Fits (routing.mode.getD .stream) appName (routing.newEntry (.list items)) := by
    intro items hitems
    have hstored := hmethod.elim
      (fun hgiven => hgiven.stored (rfl : (routing.newEntry (.list items)).balance = _))
      fun hfalsy => (methodGiven_default (routing.mode.getD .stream)).stored
        (show _ = (Value.str "round_robin" : Value N).or .null from Value.or_of_falsy hfalsy)
    exact ⟨happ, hin, hstored.1, hstored.2, ⟨items, rfl, hitems⟩, rfl, rfl⟩
  obtain ⟨same, hsame, hcases⟩ := updateChange_store h
  cases hsame
  rcases hcases with ⟨-, rfl⟩ | ⟨previous, items, swapped, hown, hitems, hswap, rfl⟩
  · rw [hnew]
    exact hfits _ hplanned
  · obtain ⟨others, hothers, hprevious⟩ := (hfound previous hown).instances
    cases hitems.symm.trans hothers
    rw [hnew] at hswap
    rw [demotePrevious_list hswap]
    exact hfits _ (hprevious.swap hplanned)

end Steps

/-! ## Runs -/

/-- The state of a run that keeps to the plan. -/
structure Plan.Keeps (plan : Plan N) (conf : Conf N) : Prop where
  debugMode : ∃ debug, conf.debugMode = .bool debug
  statusPort : conf.statusPort = plan.statusPort
  entries : ∀ mode appName entry, conf.appEntry mode appName = some entry →
    plan.Fits mode appName entry

namespace Plan.Keeps

variable {plan : Plan N} {conf : Conf N}

theorem initial (plan : Plan N) (debug : Bool) :
    plan.Keeps (Conf.initial (.bool debug) plan.statusPort) where
  debugMode := by cases debug <;> exact ⟨_, rfl⟩
  statusPort := rfl
  entries := by
    intro mode appName entry hentry
    rw [Conf.appEntry_initial] at hentry
    cases hentry

/-- A change can only leave the plan with the entry that it stores. -/
theorem change (h : plan.Keeps conf) (mode : Mode) (appName : String) {change : Change N}
    (hstore : ∀ entry, change = .store entry → plan.Fits mode appName entry) :
    plan.Keeps (conf.change mode appName change) where
  debugMode := by rw [Conf.change_debugMode]; exact h.debugMode
  statusPort := by rw [Conf.change_statusPort]; exact h.statusPort
  entries := by
    intro other query entry hentry
    by_cases hsame : (other, query) = (mode, appName)
    · cases hsame
      rw [Conf.appEntry_change_self] at hentry
      cases change with
      | keep => exact h.entries mode appName entry hentry
      | store stored => exact hstore entry (congrArg Change.store (Option.some.inj hentry))
      | drop => cases hentry
    · rw [Conf.appEntry_change_of_ne conf change hsame] at hentry
      exact h.entries other query entry hentry

theorem exec (h : plan.Keeps conf) {call : Call N} (hcall : plan.Allows call) :
    plan.Keeps (call.exec conf).1 := by
  have hfound : ∀ mode appName own, conf.lookup mode appName = .own own →
      plan.Fits mode appName own := fun mode appName own hown =>
    h.entries mode appName own ((conf.lookup_eq_own_iff mode appName own).mp hown)
  rw [Call.exec_eq]
  refine h.change _ _ fun entry hstore => ?_
  cases hcall with
  | add appName opts port happ hin hout hrange hmethod =>
      exact Plan.fits_add (hfound _ _) happ hin hout hrange hmethod hstore
  | delete appName port => exact Plan.fits_delete (hfound _ _) hstore
  | update appName routing ports happ hin hout hports hrange hmethod =>
      exact Plan.fits_update (hfound _ _) happ hin hout hports hrange hmethod hstore
  | refused appName => cases hstore

theorem execAll (h : plan.Keeps conf) {calls : List (Call N)}
    (hcalls : ∀ call ∈ calls, plan.Allows call) : plan.Keeps (execAll conf calls) := by
  induction calls generalizing conf with
  | nil => exact h
  | cons call rest ih =>
      rw [execAll_cons]
      exact ih (h.exec (hcalls call List.mem_cons_self)) fun other hother =>
        hcalls other (List.mem_cons_of_mem _ hother)

theorem plain (hplan : plan.Sound) (h : plan.Keeps conf) : conf.Plain where
  debugMode := h.debugMode
  statusPort := by
    rw [h.statusPort]
    exact hplan.statusPort.imp_right And.left
  entries := by
    intro mode appName entry hentry
    have hfits := h.entries mode appName entry hentry
    obtain ⟨items, hitems, hplanned⟩ := hfits.instances
    refine ⟨(hplan.name mode appName hfits.app).1, ?_, hfits.balance, ⟨items, hitems, ?_⟩,
      hfits.serverName, ?_⟩
    · exact ⟨_, hfits.port, (hplan.port mode appName hfits.app).1⟩
    · intro item hitem
      obtain ⟨hweight, n, hport, -⟩ := hplanned.ports item hitem
      exact ⟨⟨n, hport⟩, Or.inl hweight⟩
    · intro ssl hssl
      rw [hfits.ssl] at hssl
      cases hssl

theorem usable (hplan : plan.Sound) {mode : Mode} {appName : String} {entry : Entry N}
    (h : plan.Fits mode appName entry) : AppUsable mode (appName, entry) := by
  obtain ⟨items, hitems, hplanned⟩ := h.instances
  have hlist : entry.instances.items = items := by rw [hitems]; rfl
  refine ⟨fun _ => h.ssl, ?_, h.method, ?_, ?_⟩
  · rw [appPort, h.port]
    exact (hplan.port mode appName h.app).2
  · rw [hlist]
    intro item hitem
    obtain ⟨hweight, n, hport, hrange⟩ := hplanned.ports item hitem
    refine ⟨?_, by rw [hport]; exact hrange⟩
    rw [Instance.weightNumber, hweight]
    exact Nat.one_ne_zero
  · rw [hlist]
    exact hplanned.primary

theorem valid (hplan : plan.Sound) (h : plan.Keeps conf) : conf.Valid where
  statusPort := by
    rw [h.statusPort]
    exact hplan.statusPort.imp_right And.right
  usable mode appName entry hentry := usable hplan (h.entries mode appName entry hentry)
  names := by
    intro mode first second hfirst hsecond hsame
    obtain ⟨r, hr⟩ := Option.isSome_iff_exists.mp hfirst
    obtain ⟨s, hs⟩ := Option.isSome_iff_exists.mp hsecond
    exact hplan.names mode first second (h.entries _ _ r hr).app (h.entries _ _ s hs).app hsame
  streamPorts := by
    intro first second r s hr hs hport
    have hfirst := h.entries _ _ r hr
    have hsecond := h.entries _ _ s hs
    rw [hfirst.port, hsecond.port] at hport
    exact hplan.streamPorts first second hfirst.app hsecond.app hport
  separate := by
    intro appName entry hentry hmem
    have hfits := h.entries _ _ entry hentry
    rw [hfits.port] at hmem
    rcases List.mem_append.mp hmem with hstatus | hhttp
    · rw [Conf.statusPorts, h.statusPort] at hstatus
      split at hstatus
      · cases hstatus
      next hdefined =>
        exact hplan.status appName hfits.app hdefined (List.mem_singleton.mp hstatus)
    · obtain ⟨⟨other, web⟩, hweb, hport⟩ := List.mem_map.mp hhttp
      have hother := h.entries .http other web (mem_tableApps.mp hweb)
      rw [appPort, hother.port] at hport
      exact hplan.separate appName other hfits.app hother.app hport.symm
  lengths mode appName entry hentry :=
    (hplan.name mode appName (h.entries mode appName entry hentry).app).2

theorem streamRoute (hplan : plan.Sound) (h : plan.Keeps conf) {appName : String}
    {entry : Entry N} (hentry : conf.appEntry .stream appName = some entry) (addr : InAddr) :
    conf.loaded.streamRoute ⟨addr, portOf (plan.port .stream appName)⟩ =
      some (appReady .stream (appName, entry)) := by
  have hport : portOf (plan.port .stream appName) = numberOf entry.port := by
    rw [(h.entries _ _ entry hentry).port, portOf]
  rw [hport]
  exact (h.valid hplan).streamRoute hentry addr

end Plan.Keeps

/-- Whatever calls were made, if they keep to a plan then nginx loads the file, and every stream
application is reached on its port. -/
theorem planned_files_load [Number.Decimal N] {build : Build} (hbuild : build.Usual) {plan : Plan N}
    (hplan : plan.Sound) (debug : Bool) {calls : List (Call N)}
    (hcalls : ∀ call ∈ calls, plan.Allows call) :
    let conf := execAll (Conf.initial (.bool debug) plan.statusPort) calls
    ∃ text loaded, render conf = .ok text ∧ loadFile build text = .ok loaded ∧
      ∀ appName entry, conf.appEntry .stream appName = some entry →
        ∀ addr, loaded.streamRoute ⟨addr, portOf (plan.port .stream appName)⟩ =
          some (appReady .stream (appName, entry)) := by
  intro conf
  have hkeeps : plan.Keeps conf := (Plan.Keeps.initial plan debug).execAll hcalls
  obtain ⟨text, hrender, hload⟩ := accepts_loadFile hbuild (hkeeps.plain hplan)
  refine ⟨text, conf.loaded, hrender, hload.eq_ok (hkeeps.valid hplan), ?_⟩
  intro appName entry hentry addr
  exact hkeeps.streamRoute hplan hentry addr

/-- One application in each table. -/
def twoAppsPlan : Plan Int where
  apps mode appName := appName = match mode with | .http => "app2" | .stream => "app1"
  port mode _ := match mode with | .http => 80 | .stream => 7000
  statusPort := .num 8080

theorem twoAppsPlan_sound : twoAppsPlan.Sound where
  statusPort := Or.inr ⟨⟨8080, rfl, by decide⟩, by decide⟩
  name := by
    rintro (_ | _) appName rfl <;> decide
  port := by
    rintro (_ | _) appName rfl <;> exact ⟨by unfold natural; decide, by decide⟩
  names mode first second hfirst hsecond _ := Eq.trans hfirst hsecond.symm
  streamPorts first second hfirst hsecond _ := Eq.trans hfirst hsecond.symm
  separate := by
    rintro first second rfl rfl
    decide
  status := by
    rintro appName rfl -
    decide

/-- An application that is updated, and one whose last port is deleted. -/
def twoAppsCalls : List (Call Int) :=
  [.addPortRouting "app2" { inPort := .num 80, outPort := .num 10001 },
    .addOrUpdateAppRouting "app1"
      (.object { inPort := .num 7000, outPorts := .arr [.num 10002, .num 10003] }),
    .addOrUpdateAppRouting "app1" (.object { inPort := .num 7000, outPorts := .arr [.num 10004] }),
    .deletePortRouting "app2" (.num 10001)]

theorem twoAppsCalls_allowed : ∀ call ∈ twoAppsCalls, twoAppsPlan.Allows call := by
  simp only [twoAppsCalls, List.forall_mem_cons]
  exact ⟨.add _ _ 10001 rfl rfl rfl (by decide) (Or.inr ⟨rfl, rfl⟩),
    .update _ _ [10002, 10003] rfl rfl rfl (by decide) (by decide) (Or.inr rfl),
    .update _ _ [10004] rfl rfl rfl (by decide) (by decide) (Or.inr rfl), .delete _ _,
    List.forall_mem_nil _⟩

theorem planned_files_load_twoApps :
    let conf := execAll (Conf.initial (.bool false) (.num 8080)) twoAppsCalls
    ∃ text loaded, render conf = .ok text ∧ loadFile openBuild text = .ok loaded ∧
      ∀ entry, conf.appEntry .stream "app1" = some entry →
        loaded.streamRoute ⟨0x7f000001, 7000⟩ = some (appReady .stream ("app1", entry)) := by
  intro conf
  obtain ⟨text, loaded, hrender, hload, hroutes⟩ :=
    planned_files_load openBuild_usual twoAppsPlan_sound false twoAppsCalls_allowed
  exact ⟨text, loaded, hrender, hload, fun entry hentry => hroutes "app1" entry hentry _⟩

/-! ## Additions without a balancing method -/

/-- The stream table has the application, without a balancing method. -/
def Conf.Unbalanced (conf : Conf N) (appName : String) : Prop :=
  ∃ entry, conf.appEntry .stream appName = some entry ∧ entry.balance = .null

/-- The call is an update of the application in the stream table. -/
def Call.updates (appName : String) : Call N → Prop
  | .addOrUpdateAppRouting name (.object routing) =>
      name = appName ∧ routing.mode.getD .stream = .stream
  | _ => False

theorem addPortChange_ne_drop {appName : String} {opts : Opts N} {found : Found N} :
    (addPortChange appName opts found).1 ≠ .drop := by
  intro h
  unfold addPortChange at h
  repeat' split at h
  all_goals cases h

theorem Conf.Unbalanced.exec {conf : Conf N} {appName : String} (h : conf.Unbalanced appName)
    {call : Call N} (hcall : ¬call.updates appName) : (call.exec conf).1.Unbalanced appName := by
  obtain ⟨entry, hentry, hbalance⟩ := h
  rw [Call.exec_eq]
  by_cases htarget : (Mode.stream, appName) = (call.mode, call.appName)
  · obtain ⟨hmode, rfl⟩ := Prod.mk.inj htarget
    have hlookup : conf.lookup call.mode call.appName = .own entry :=
      (conf.lookup_eq_own_iff _ _ entry).mpr (hmode ▸ hentry)
    have hnext : (conf.change call.mode call.appName (call.change (.own entry)).1).appEntry .stream
        call.appName = (call.change (.own entry)).1.apply (some entry) := by
      rw [← hentry, hmode, Conf.appEntry_change_self]
    unfold Conf.Unbalanced
    dsimp only
    rw [hlookup, hnext]
    cases call with
    | deletePortRouting name port => cases hmode
    | addPortRouting name opts =>
        cases hchange : ((Call.addPortRouting name opts).change (.own entry)).1 with
        | keep => exact ⟨entry, rfl, hbalance⟩
        | drop => exact absurd hchange addPortChange_ne_drop
        | store stored =>
            rcases addPortChange_store hchange with ⟨hwrong, -⟩ |
              ⟨same, items, hsame, -, -, -, rfl⟩
            · cases hwrong
            · cases hsame
              exact ⟨_, rfl, hbalance⟩
    | addOrUpdateAppRouting name arg =>
        cases arg with
        | notObject => exact ⟨entry, rfl, hbalance⟩
        | object routing => exact absurd ⟨rfl, hmode.symm⟩ hcall
  · refine ⟨entry, ?_, hbalance⟩
    rw [Conf.appEntry_change_of_ne conf _ htarget, hentry]

theorem Conf.Unbalanced.execAll {conf : Conf N} {appName : String} (h : conf.Unbalanced appName)
    {calls : List (Call N)} (hcalls : ∀ call ∈ calls, ¬call.updates appName) :
    (execAll conf calls).Unbalanced appName := by
  induction calls generalizing conf with
  | nil => exact h
  | cons call rest ih =>
      rw [execAll_cons]
      exact ih (h.exec (hcalls call List.mem_cons_self)) fun other hother =>
        hcalls other (List.mem_cons_of_mem _ hother)

theorem Conf.unbalanced_add {conf : Conf N} {appName : String} {opts : Opts N}
    (hmode : opts.mode = some .stream) (hfresh : conf.lookup .stream appName = .absent)
    (hmethod : opts.lbMode.truthy = false) :
    ((Call.addPortRouting appName opts).exec conf).1.Unbalanced appName := by
  have hstream : (Call.addPortRouting appName opts).mode = .stream := by
    rw [Call.mode, hmode]
    rfl
  rw [Call.exec_eq, hstream]
  have hstored : ∃ items, (addPortChange appName opts .absent).1 =
      .store (opts.freshEntry items) := by
    unfold addPortChange
    dsimp only
    split
    · exact ⟨_, rfl⟩
    · exact ⟨_, rfl⟩
  obtain ⟨items, hstored⟩ := hstored
  refine ⟨opts.freshEntry items, ?_, Value.or_of_falsy hmethod⟩
  dsimp only [Call.appName, Call.change]
  rw [hfresh, Conf.appEntry_change_self, hstored]
  rfl

theorem Conf.Unbalanced.not_valid {conf : Conf N} {appName : String}
    (h : conf.Unbalanced appName) : ¬conf.Valid := by
  obtain ⟨entry, hentry, hbalance⟩ := h
  intro hvalid
  have hmethod := (hvalid.usable .stream appName entry hentry).method
  have hword : valueWord (.null : Value N) = "null".toList := rfl
  rw [Entry.method, hbalance, hword] at hmethod
  exact absurd hmethod (by decide)

/-- A stream application that was added without a balancing method blocks nginx: it refuses every
file, whatever is added or deleted, until the application is updated. -/
theorem unbalanced_app_blocks [Number.Decimal N] {build : Build} (hbuild : build.Usual)
    {conf : Conf N} {appName : String} {opts : Opts N} (hmode : opts.mode = some .stream)
    (hfresh : conf.lookup .stream appName = .absent) (hmethod : opts.lbMode.truthy = false)
    {calls : List (Call N)} (hcalls : ∀ call ∈ calls, ¬call.updates appName)
    (hplain : (execAll conf (.addPortRouting appName opts :: calls)).Plain) :
    ∃ text, render (execAll conf (.addPortRouting appName opts :: calls)) = .ok text ∧
      ∀ loaded, loadFile build text ≠ .ok loaded := by
  have hunbalanced := (Conf.unbalanced_add hmode hfresh hmethod).execAll hcalls
  obtain ⟨text, hrender, hload⟩ := accepts_loadFile hbuild hplain
  exact ⟨text, hrender, fun loaded hloaded =>
    hunbalanced.not_valid ((hload loaded).mp hloaded).1⟩

def streamOpts (outPort : Int) (lbMode : Value Int) : Opts Int where
  inPort := .num 7000
  outPort := .num outPort
  lbMode := lbMode
  mode := some .stream

/-- A second port, which has a method, and a deletion that does not reach the stream table. -/
def unbalancedCalls : List (Call Int) :=
  [.addPortRouting "app1" (streamOpts 9001 .undefined),
    .addPortRouting "app1" (streamOpts 9002 (.str "least_conn")),
    .deletePortRouting "app1" (.num 9001)]

theorem unbalancedCalls_plain :
    (execAll (Conf.initial (.bool false) .undefined) unbalancedCalls).Plain where
  debugMode := ⟨false, rfl⟩
  statusPort := Or.inl rfl
  entries := by
    intro mode appName entry hentry
    have hmem := mem_tableApps.mpr hentry
    cases mode with
    | http => cases hmem
    | stream =>
        obtain ⟨rfl, rfl⟩ := Prod.mk.inj (List.mem_singleton.mp hmem)
        refine ⟨by decide, ⟨7000, rfl, by decide⟩, Or.inl rfl, ⟨_, rfl, ?_⟩, rfl, nofun⟩
        exact List.forall_mem_cons.mpr ⟨⟨⟨9001, rfl⟩, Or.inl rfl⟩,
          List.forall_mem_singleton.mpr ⟨⟨9002, rfl⟩, Or.inl rfl⟩⟩

theorem unbalanced_app_blocks_calls :
    ∃ text, render (execAll (Conf.initial (.bool false) .undefined) unbalancedCalls) =
        .ok text ∧ ∀ loaded, loadFile openBuild text ≠ .ok loaded :=
  unbalanced_app_blocks openBuild_usual rfl rfl rfl
    (List.forall_mem_cons.mpr ⟨id, List.forall_mem_singleton.mpr id⟩) unbalancedCalls_plain

end NginxInterface
