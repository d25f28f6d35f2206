import Mathlib.Data.List.Induction
import NginxInterface.Js.Value

/-! # Discovery of nginx and of its configuration file

Once a second `findNginxMeta` looks for the root process of nginx and, as long as no
configuration file is known, for that file. It keeps the fields that the `connector`
method reports. A tick is the outcome of the two lookups; the callbacks that store
the outcome are given one by one, since those of different ticks may interleave.

The branch for a known file stores the new pid and nothing else. The reported status
is therefore the one of the last tick that took another branch.
-/

namespace NginxInterface

open Js

/-- A process as the process list has it. -/
structure Process where
  pid : Nat
  ppid : Nat

/-- The last root process of the list. -/
def findNginxPID (list : List Process) : Option Nat :=
  (list.foldl (fun nginxProc l => if l.ppid ≤ 1 then some l else nginxProc) none).map Process.pid

/-- The paths that are tried, in order. -/
def confPaths : List String :=
  ["/etc/nginx/nginx.conf", "/usr/local/nginx/conf/nginx.conf", "/usr/local/etc/nginx/nginx.conf"]

def findNginxConf (stat : String → Bool) : Option String := confPaths.find? stat

inductive Status where
  | online
  | errored
  deriving DecidableEq

/-- The fields of the controller that discovery keeps. `status` is not set by the
constructor. -/
structure Discovery where
  confFile : Option String
  pid : Option Nat
  status : Option Status := none
  nginxStatus : Option Text := none

/-- The events the controller emits. -/
inductive Emission where
  | ready (conf : String) (pid : Option Nat)
  | error (message : Text)

def notRunning : Text := "NGINX is not running, please start it".toList

def confNotFound : Text := "nginx.conf Configuration file NOT FOUND".toList

def pidText : Option Nat → Text
  | some pid => Nat.toDigits 10 pid
  | none => "null".toList

def upAndRunning (conf : String) (pid : Option Nat) : Text :=
  "NGINX agent Up and Running (conf ".toList ++ conf.toList ++ " pid ".toList ++ pidText pid ++
    ")".toList

/-- What the lookups of one tick find: the process list, and which paths exist. -/
structure Tick where
  processes : List Process
  stat : String → Bool

/-- The pid found by a tick. -/
def Tick.root (tick : Tick) : Option Nat := findNginxPID tick.processes

/-- The path a tick finds if it looks for one. -/
def Tick.conf (tick : Tick) : Option String := findNginxConf tick.stat

/-- The reply of the `connector` method. -/
structure Connector where
  name : String
  status : Option Status
  statusMsg : Option Text

namespace Discovery

/-- The callback of `findNginxPID`. Without an event the tick goes on to
`findNginxConf`. -/
def pidCallback (discovery : Discovery) : Option Nat → Discovery × Option Emission
  | none =>
      ({ discovery with status := some .errored, nginxStatus := some notRunning },
        some (.error notRunning))
  | some pid =>
      let discovery := { discovery with pid := some pid }
      match discovery.confFile with
      | none => (discovery, none)
      | some conf => (discovery, some (.ready conf discovery.pid))

/-- The callback of `findNginxConf`. -/
def confCallback (discovery : Discovery) : Option String → Discovery × Emission
  | none =>
      ({ discovery with nginxStatus := some confNotFound, status := some .errored },
        .error confNotFound)
  | some conf =>
      ({ discovery with
          confFile := some conf
          status := some .online
          nginxStatus := some (upAndRunning conf discovery.pid) },
        .ready conf discovery.pid)

/-- A tick that runs to its end before anything else happens. -/
def findNginxMeta (discovery : Discovery) (tick : Tick) : Discovery :=
  match discovery.pidCallback tick.root with
  | (discovery, some _) => discovery
  | (discovery, none) => (discovery.confCallback tick.conf).1

/-- The fields as the constructor sets them. -/
def initial (conf : Option String) (pid : Option Nat) : Discovery where
  confFile := conf
  pid := pid

def ticks (discovery : Discovery) (list : List Tick) : Discovery :=
  list.foldl findNginxMeta discovery

def connector (discovery : Discovery) : Connector where
  name := "nginx-agent"
  status := discovery.status
  statusMsg := discovery.nginxStatus

/-! ## One tick -/

section OneTick

variable {discovery : Discovery} {tick : Tick} {pid : Nat} {conf : String}

theorem findNginxMeta_of_no_root (hroot : tick.root = none) :
    discovery.findNginxMeta tick =
      { discovery with status := some .errored, nginxStatus := some notRunning } := by
  simp only [findNginxMeta, hroot, pidCallback]

theorem findNginxMeta_of_known (hroot : tick.root = some pid)
    (hknown : discovery.confFile = some conf) :
    discovery.findNginxMeta tick = { discovery with pid := some pid } := by
  simp only [findNginxMeta, hroot, pidCallback, hknown]

theorem findNginxMeta_of_missing (hroot : tick.root = some pid)
    (hunknown : discovery.confFile = none) (hconf : tick.conf = none) :
    discovery.findNginxMeta tick =
      { discovery with
        pid := some pid, nginxStatus := some confNotFound, status := some .errored } := by
  simp only [findNginxMeta, hroot, pidCallback, hunknown, hconf, confCallback]

theorem findNginxMeta_of_found (hroot : tick.root = some pid)
    (hunknown : discovery.confFile = none) (hconf : tick.conf = some conf) :
    discovery.findNginxMeta tick =
      { confFile := some conf
        pid := some pid
        status := some .online
        nginxStatus := some (upAndRunning conf (some pid)) } := by
  simp only [findNginxMeta, hroot, pidCallback, hunknown, hconf, confCallback]

end OneTick

theorem ticks_concat (discovery : Discovery) (earlier : List Tick) (last : Tick) :
    discovery.ticks (earlier ++ [last]) = (discovery.ticks earlier).findNginxMeta last := by
  simp only [ticks, List.foldl_append, List.foldl_cons, List.foldl_nil]

end Discovery

/-- The message names its pid. -/
theorem upAndRunning_pid {conf : String} {left right : Nat}
    (h : upAndRunning conf (some left) = upAndRunning conf (some right)) : left = right := by
  have hpid : pidText (some left) = pidText (some right) := by
    unfold upAndRunning at h
    exact (List.append_right_inj _).mp ((List.append_left_inj _).mp h)
  have hparsed := congrArg (fun digits => Nat.ofDigitChars 10 digits 0) hpid
  simpa only [pidText, Nat.ofDigitChars_ten_toDigits] using hparsed

/-! ## What a list of ticks has found -/

/-- The tick finds a root process and a configuration file. -/
def Tick.discovers (tick : Tick) : Bool := tick.root.isSome && tick.conf.isSome

/-- The configuration file is known after the ticks: it was given to the constructor
or one of them found it. -/
def ConfKnown (given : Option String) (ticks : List Tick) : Prop :=
  given.isSome = true ∨ ∃ tick ∈ ticks, tick.discovers = true

/-- The first of the ticks that discovered the file found this pid, and every tick
after it found a root process. No file was given to the constructor. -/
def Undisturbed (given : Option String) (ticks : List Tick) (pid : Nat) : Prop :=
  given = none ∧ ∃ before found after, ticks = before ++ found :: after ∧
    (∀ tick ∈ before, tick.discovers = false) ∧
    found.discovers = true ∧ found.root = some pid ∧
    ∀ tick ∈ after, tick.root.isSome = true

theorem confKnown_concat {given : Option String} {earlier : List Tick} {last : Tick} :
    ConfKnown given (earlier ++ [last]) ↔
      ConfKnown given earlier ∨ last.discovers = true := by
  simp only [ConfKnown, List.mem_append, List.mem_singleton]
  constructor
  · rintro (hgiven | ⟨tick, htick | rfl, hfound⟩)
    · exact Or.inl (Or.inl hgiven)
    · exact Or.inl (Or.inr ⟨tick, htick, hfound⟩)
    · exact Or.inr hfound
  · rintro ((hgiven | ⟨tick, htick, hfound⟩) | hlast)
    · exact Or.inl hgiven
    · exact Or.inr ⟨tick, Or.inl htick, hfound⟩
    · exact Or.inr ⟨last, Or.inr rfl, hlast⟩

/-- While the file is unknown, a tick is undisturbed exactly if it discovers it. -/
theorem undisturbed_concat_of_unknown {given : Option String} {earlier : List Tick} {last : Tick}
    {pid : Nat} (hunknown : ¬ConfKnown given earlier) :
    Undisturbed given (earlier ++ [last]) pid ↔
      last.discovers = true ∧ last.root = some pid := by
  have hgiven : given = none := by
    cases given with
    | none => rfl
    | some conf => exact absurd (Or.inl rfl) hunknown
  have hbefore : ∀ tick ∈ earlier, tick.discovers = false := by
    intro tick htick
    rw [← Bool.not_eq_true]
    exact fun hfound => hunknown (Or.inr ⟨tick, htick, hfound⟩)
  constructor
  · rintro ⟨_, before, found, after, hsplit, _, hfound, hroot, _⟩
    -- the tick that discovers the file cannot be one of the earlier ones
    rcases List.eq_nil_or_concat after with rfl | ⟨init, tick, rfl⟩
    · obtain rfl := List.singleton_inj.mp (List.append_inj' hsplit rfl).2
      exact ⟨hfound, hroot⟩
    · have hmem : found ∈ earlier := by
        have hinit : earlier = before ++ found :: init := by
          rw [List.concat_eq_append, ← List.cons_append, ← List.append_assoc] at hsplit
          exact (List.append_inj' hsplit rfl).1
        simp [hinit]
      simp [hbefore found hmem] at hfound
  · rintro ⟨hfound, hroot⟩
    exact ⟨hgiven, earlier, last, [], rfl, hbefore, hfound, hroot, by simp⟩

/-- Once the file is known, the tick after must find a root process. -/
theorem undisturbed_concat_of_known {given : Option String} {earlier : List Tick} {last : Tick}
    {pid : Nat} (hknown : ConfKnown given earlier) :
    Undisturbed given (earlier ++ [last]) pid ↔
      Undisturbed given earlier pid ∧ last.root.isSome = true := by
  constructor
  · rintro ⟨rfl, before, found, after, hsplit, hbefore, hfound, hroot, hafter⟩
    rcases List.eq_nil_or_concat after with rfl | ⟨init, tick, rfl⟩
    · obtain ⟨rfl, _⟩ := List.append_inj' hsplit rfl
      obtain hgiven | ⟨tick, htick, hdiscovers⟩ := hknown
      · cases hgiven
      · simp [hbefore tick htick] at hdiscovers
    · rw [List.concat_eq_append] at hsplit hafter
      rw [← List.cons_append, ← List.append_assoc] at hsplit
      obtain ⟨rfl, hlast⟩ := List.append_inj' hsplit rfl
      obtain rfl := List.singleton_inj.mp hlast
      exact ⟨⟨rfl, before, found, init, rfl, hbefore, hfound, hroot,
        fun tick htick => hafter tick (List.mem_append_left _ htick)⟩, hafter _ (by simp)⟩
  · rintro ⟨⟨rfl, before, found, after, rfl, hbefore, hfound, hroot, hafter⟩, hlast⟩
    refine ⟨rfl, before, found, after ++ [last], by simp, hbefore, hfound, hroot, ?_⟩
    intro tick htick
    rcases List.mem_append.mp htick with hold | hnew
    · exact hafter tick hold
    · rw [List.mem_singleton.mp hnew]
      exact hlast

/-! ## The reported status -/

/-- The reply of `connector` is right after a tick: `online`, naming the pid of the
tick, if the tick found a root process and the file is known, and `errored` otherwise. -/
def ReportsHealth (tick : Tick) (discovery : Discovery) : Prop :=
  match tick.root, discovery.confFile with
  | some pid, some conf =>
      discovery.connector.status = some .online ∧
        discovery.connector.statusMsg = some (upAndRunning conf (some pid))
  | _, _ => discovery.connector.status = some .errored

/-- What the fields say after any list of ticks. -/
structure Tracks (given : Option String) (ticks : List Tick) (discovery : Discovery) : Prop where
  known : discovery.confFile.isSome = true ↔ ConfKnown given ticks
  online : ∀ conf pid, discovery.confFile = some conf →
    ((discovery.status = some .online ∧
      discovery.nginxStatus = some (upAndRunning conf (some pid))) ↔ Undisturbed given ticks pid)

theorem Tracks.initial (given : Option String) (pid : Option Nat) :
    Tracks given [] (.initial given pid) where
  known := by simp [ConfKnown, Discovery.initial]
  online := by simp [Undisturbed, Discovery.initial]

theorem Tracks.not_known {given : Option String} {ticks : List Tick} {discovery : Discovery}
    (h : Tracks given ticks discovery) (hunknown : discovery.confFile = none) :
    ¬ConfKnown given ticks := by
  rw [← h.known, hunknown]
  simp

theorem Tracks.tick {given : Option String} {earlier : List Tick} {discovery : Discovery}
    (h : Tracks given earlier discovery) (last : Tick) :
    Tracks given (earlier ++ [last]) (discovery.findNginxMeta last) := by
  cases hroot : last.root with
  | none =>
      have hlast : last.discovers = false := by simp [Tick.discovers, hroot]
      rw [Discovery.findNginxMeta_of_no_root hroot]
      refine ⟨by simpa [confKnown_concat, hlast] using h.known, ?_⟩
      intro conf pid (hconf : discovery.confFile = some conf)
      have hknown : ConfKnown given earlier := h.known.mp (by simp [hconf])
      rw [undisturbed_concat_of_known hknown]
      simp [hroot]
  | some root =>
      cases hconf : discovery.confFile with
      | some conf =>
          have hknown : ConfKnown given earlier := h.known.mp (by simp [hconf])
          rw [Discovery.findNginxMeta_of_known hroot hconf]
          refine ⟨by simp [confKnown_concat, hknown, hconf], ?_⟩
          intro other pid hother
          rw [undisturbed_concat_of_known hknown, ← h.online other pid hother]
          simp [hroot]
      | none =>
          have hunknown := h.not_known hconf
          cases hfound : last.conf with
          | none =>
              have hlast : last.discovers = false := by simp [Tick.discovers, hfound]
              rw [Discovery.findNginxMeta_of_missing hroot hconf hfound]
              refine ⟨by simp [confKnown_concat, hunknown, hlast, hconf], ?_⟩
              intro conf pid hother
              rw [hconf] at hother
              cases hother
          | some conf =>
              have hlast : last.discovers = true := by simp [Tick.discovers, hroot, hfound]
              rw [Discovery.findNginxMeta_of_found hroot hconf hfound]
              refine ⟨by simp [confKnown_concat, hlast], ?_⟩
              intro other pid hother
              cases hother
              rw [undisturbed_concat_of_unknown hunknown, hroot]
              simp only [hlast, Option.some.injEq, true_and]
              exact ⟨upAndRunning_pid, fun hpid => by rw [hpid]⟩

theorem tracks_ticks (given : Option String) (pid : Option Nat) (ticks : List Tick) :
    Tracks given ticks ((Discovery.initial given pid).ticks ticks) := by
  induction ticks using List.reverseRecOn with
  | nil => exact Tracks.initial given pid
  | append_singleton earlier last ih =>
      rw [Discovery.ticks_concat]
      exact ih.tick last

/-- The status is right after a tick that found a root process while the file was
already known exactly if the pid is the one of the tick that discovered the file and
every tick between the two found a root process. After every other tick it is right. -/
theorem reports_health_iff (given : Option String) (pid : Option Nat) (earlier : List Tick)
    (last : Tick) :
    ReportsHealth last ((Discovery.initial given pid).ticks (earlier ++ [last])) ↔
      ∀ root, last.root = some root → ConfKnown given earlier → Undisturbed given earlier root := by
  have htracks := tracks_ticks given pid earlier
  rw [Discovery.ticks_concat]
  generalize (Discovery.initial given pid).ticks earlier = discovery at htracks
  cases hroot : last.root with
  | none =>
      simp [ReportsHealth, hroot, Discovery.findNginxMeta_of_no_root hroot, Discovery.connector]
  | some root =>
      cases hconf : discovery.confFile with
      | some conf =>
          have hknown : ConfKnown given earlier := htracks.known.mp (by simp [hconf])
          rw [Discovery.findNginxMeta_of_known hroot hconf]
          simp only [ReportsHealth, hroot, hconf, Discovery.connector,
            htracks.online conf root hconf]
          simp [hknown]
      | none =>
          have hunknown := htracks.not_known hconf
          cases hfound : last.conf with
          | none =>
              rw [Discovery.findNginxMeta_of_missing hroot hconf hfound]
              simp [ReportsHealth, hroot, hconf, Discovery.connector, hunknown]
          | some conf =>
              rw [Discovery.findNginxMeta_of_found hroot hconf hfound]
              simp [ReportsHealth, hroot, Discovery.connector, hunknown]

/-- With the file given to the constructor the status is never set to `online`. -/
theorem given_conf_not_online :
    let tick : Tick := { processes := [⟨10, 1⟩], stat := fun _ => true }
    let discovery := (Discovery.initial (some "/etc/nginx/nginx.conf") none).ticks [tick]
    tick.root = some 10 ∧ discovery.confFile = some "/etc/nginx/nginx.conf" ∧
      discovery.connector.status = none ∧ ¬ReportsHealth tick discovery := by
  refine ⟨rfl, rfl, rfl, ?_⟩
  rintro ⟨honline, _⟩
  cases honline

end NginxInterface
