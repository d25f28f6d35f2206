import NginxInterface.Cycle.Upstreams
import NginxInterface.Foundation.Accepts
import NginxInterface.Template.Worded

/-! # The upstream block of an application

When nginx takes the `upstream` block that is rendered for an application, and which servers it
has then. The conditions are about the numbers in the entry: ports and weights.
-/

namespace NginxInterface

open Js ConfFile Upstream Foundation

variable {N : Type} [Number N]

/-! ## What an entry stands for -/

/-- The number that nginx reads for a value, and 0 if it reads none. -/
def numberOf (value : Value N) : Nat := (boundedAtoi (valueWord value)).getD 0

def PortRange (port : Nat) : Prop := 1 ≤ port ∧ port ≤ 65535

instance (port : Nat) : Decidable (PortRange port) := inferInstanceAs (Decidable (_ ∧ _))

def Instance.weightNumber (item : Instance N) : Nat :=
  if item.weight.truthy then numberOf item.weight else 1

def Instance.isBackup (mode : Mode) (item : Instance N) : Bool :=
  mode = .stream && item.backup.truthy

/-- The server that an instance is meant to be. -/
def Instance.server (mode : Mode) (item : Instance N) : Server where
  addrs := [⟨0x7f000001, numberOf item.port⟩]
  weight := item.weightNumber
  backup := item.isBackup mode

/-- The port and the weight of the instance are numbers that nginx takes. -/
structure Instance.Usable (item : Instance N) : Prop where
  weight : item.weightNumber ≠ 0
  port : PortRange (numberOf item.port)

instance (item : Instance N) : Decidable item.Usable :=
  decidable_of_iff (item.weightNumber ≠ 0 ∧ PortRange (numberOf item.port))
    ⟨fun h => ⟨h.1, h.2⟩, fun h => ⟨h.weight, h.port⟩⟩

/-- The balancing methods that are a directive without arguments, and the default one. -/
def methodNames : Mode → List Word
  | .http => ["round_robin".toList, "least_conn".toList, "ip_hash".toList]
  | .stream => ["round_robin".toList, "least_conn".toList]

def methodDirectives (method : Word) : List Directive :=
  if method = "round_robin".toList then [] else [.simple [method]]

def Instance.parameters (mode : Mode) (item : Instance N) : List Word :=
  match mode with
  | .http => weightWords item
  | .stream => streamParameters (weightWords item) item

def Instance.directive (mode : Mode) (item : Instance N) : Directive :=
  serverDirective (instanceAddress (valueWord item.port)) (item.parameters mode)

def upstreamDirectives (mode : Mode) (method : Word) (items : List (Instance N)) :
    List Directive :=
  methodDirectives method ++ items.map (Instance.directive mode)

namespace Cycle

theorem portNumber_numberOf (value : Value N) :
    portNumber (valueWord value) =
      if PortRange (numberOf value) then some (numberOf value) else none := by
  unfold portNumber numberOf
  cases boundedAtoi (valueWord value) with
  | none => rfl
  | some n => rfl

/-- What the address of an instance is read as. -/
theorem accepts_address (resolve : Resolver) (options : UrlOptions) (item : Instance N)
    (hport : (valueWord item.port).all inAuthority = true) :
    Accepts (parseInetUrl resolve options (instanceAddress (valueWord item.port)))
      (PortRange (numberOf item.port))
      { url := instanceAddress (valueWord item.port)
        host := "127.0.0.1".toList
        port := numberOf item.port
        addr := 0x7f000001
        addrs := [⟨0x7f000001, numberOf item.port⟩] } := by
  have hread := parseInetUrl_localhost resolve options hport
  have hnumber := portNumber_numberOf item.port
  by_cases hrange : PortRange (numberOf item.port)
  · rw [if_pos hrange] at hnumber
    rw [hnumber] at hread
    exact (Accepts.of_eq_ok hread).congr (iff_of_true trivial hrange)
  · rw [if_neg hrange] at hnumber
    rw [hnumber] at hread
    exact .of_refused (fun _ hok => by cases hread.symm.trans hok) hrange

/-! ## Server lines -/

section Parameters

variable {flags : Flags} {server : Server}

theorem serverParameter_weight (hflags : flags.weight = true) (text : Text) :
    serverParameter flags server ("weight=".toList ++ text) =
      match boundedAtoi text with
      | some 0 => .error (invalidParameter ("weight=".toList ++ text))
      | some weight => .ok { server with weight }
      | none => .error (invalidParameter ("weight=".toList ++ text)) := by
  have hstart : "weight=".toList.isPrefixOf ("weight=".toList ++ text) = true :=
    List.isPrefixOf_iff_prefix.mpr (List.prefix_append _ _)
  unfold serverParameter
  rw [if_pos hstart]
  unfold valueParameter
  rw [hflags, List.drop_left]
  cases boundedAtoi text with
  | none => rfl
  | some n => cases n <;> rfl

theorem accepts_weightWords (hflags : flags.weight = true) (hdefault : server.weight = 1)
    (item : Instance N) :
    Accepts ((weightWords item).foldlM (serverParameter flags) server)
      (item.weightNumber ≠ 0) { server with weight := item.weightNumber } := by
  unfold weightWords Instance.weightNumber numberOf
  by_cases htruthy : item.weight.truthy = true
  · rw [if_pos htruthy, if_pos htruthy]
    refine Accepts.foldlM_singleton ?_
    rw [serverParameter_weight hflags]
    cases boundedAtoi (valueWord item.weight) with
    | none => exact .error _ (by simp)
    | some n =>
        cases n with
        | zero => exact .error _ (by simp)
        | succ n => exact (Accepts.of_eq_ok rfl).congr (by simp)
  · rw [if_neg htruthy, if_neg htruthy, ← hdefault]
    exact (Accepts.of_eq_ok rfl).congr (by simp [hdefault])

theorem serverParameter_backup (hflags : flags.backup = true) :
    serverParameter flags server "backup".toList = .ok { server with backup := true } := by
  unfold serverParameter
  rw [if_neg (by decide), if_neg (by decide), if_neg (by decide), if_neg (by decide), if_pos rfl,
    if_pos hflags]

theorem accepts_parameters {mode : Mode} (hweight : flags.weight = true)
    (hbackup : mode = .stream → flags.backup = true) (item : Instance N) :
    Accepts ((item.parameters mode).foldlM (serverParameter flags) { addrs := [] })
      (item.weightNumber ≠ 0)
      { addrs := [], weight := item.weightNumber, backup := item.isBackup mode } := by
  have hfirst := @accepts_weightWords N _ flags { addrs := [] } hweight rfl item
  cases mode with
  | http => exact hfirst
  | stream =>
      unfold Instance.parameters streamParameters
      refine (hfirst.foldlM_append fun _ => ?_).congr (iff_of_eq (and_true _))
      cases htruthy : item.backup.truthy with
      | false =>
          have hprimary : item.isBackup .stream = false := by simp [Instance.isBackup, htruthy]
          rw [if_neg (by simp), hprimary]
          exact .of_eq_ok rfl
      | true =>
          have hbackupItem : item.isBackup .stream = true := by simp [Instance.isBackup, htruthy]
          rw [if_pos rfl, hbackupItem]
          exact .foldlM_singleton (.of_eq_ok (serverParameter_backup (hbackup rfl)))

end Parameters

section Lines

variable {mode : Mode} {resolve : Resolver} {compiles : Word → Bool} {uscf : UpstreamConf}

/-- The upstream with servers for these instances as well. -/
def UpstreamConf.addServers (mode : Mode) (uscf : UpstreamConf) (items : List (Instance N)) :
    UpstreamConf :=
  { uscf with servers := some (uscf.servers.getD [] ++ items.map (Instance.server mode)) }

/-- The method takes the parameters that a rendered line can have. -/
def Flags.Enough (mode : Mode) (flags : Flags) : Prop :=
  flags.weight = true ∧ (mode = .stream → flags.backup = true)

theorem find_server (mode : Mode) (resolve : Resolver) (compiles : Word → Bool) :
    (upstreamCommands mode resolve compiles).find?
        (fun command => decide (command.name = "server".toList)) =
      some ⟨"server".toList, .oneMore, .simple (upstreamServer mode resolve)⟩ :=
  List.find?_cons_of_pos (decide_eq_true rfl)

/-- A `server` directive, from what its address and its parameters are read as. -/
theorem accepts_upstreamServer {address : Word} {parameters : List Word} {server : Server}
    {p q : Prop} {u : Url}
    (hparameters : Accepts (parameters.foldlM (serverParameter uscf.flags) { addrs := [] }) p
      server)
    (haddress : ∀ options, Accepts (parseInetUrl resolve options address) q u)
    (hport : u.noPort = false) (word : Word) :
    Accepts (upstreamServer mode resolve uscf (word :: address :: parameters)) (p ∧ q)
      { uscf with
        servers := some (uscf.servers.getD [] ++ [{ server with addrs := u.addrs }]) } := by
  refine hparameters.bind fun _ => ?_
  by_cases hq : q
  · refine (Accepts.of_eq_ok ?_).congr (iff_of_true trivial hq)
    dsimp only
    rw [(haddress _).eq_ok hq]
    exact if_neg fun hnone => by rw [hport] at hnone; cases hnone.2
  · dsimp only
    obtain ⟨err, hread⟩ := (haddress _).eq_error hq
    rw [hread]
    exact .error _ hq

theorem accepts_server (hflags : Flags.Enough mode uscf.flags) (item : Instance N)
    (hport : (valueWord item.port).all inAuthority = true) :
    Accepts (confHandler (upstreamCommands mode resolve compiles) uscf (item.directive mode))
      item.Usable (UpstreamConf.addServers mode uscf [item]) := by
  have haddress := fun options => accepts_address resolve options item hport
  rw [Instance.directive, serverDirective,
    confHandler_simple (find_server mode resolve compiles) (by simp [Arity.accepts])]
  exact (accepts_upstreamServer (accepts_parameters hflags.1 hflags.2 item) haddress rfl _).congr
    ⟨fun h => ⟨h.1, h.2⟩, fun h => ⟨h.weight, h.port⟩⟩

theorem accepts_servers (hflags : Flags.Enough mode uscf.flags) (hservers : uscf.servers = some [])
    {items : List (Instance N)}
    (hports : ∀ item ∈ items, (valueWord item.port).all inAuthority = true) :
    Accepts (confParse (upstreamCommands mode resolve compiles) uscf
        (items.map (Instance.directive mode)))
      (∀ item ∈ items, item.Usable)
      { uscf with servers := some (items.map (Instance.server mode)) } := by
  induction items using List.reverseRecOn with
  | nil =>
      have hsame : uscf = { uscf with servers := some [] } := by rw [← hservers]
      exact (Accepts.of_eq_ok (congrArg Except.ok hsame)).congr (by simp)
  | append_singleton front item ih =>
      rw [List.forall_mem_append, List.forall_mem_singleton] at hports
      rw [List.map_append, List.map_singleton, confParse]
      have hnext : Flags.Enough mode
        { uscf with servers := some (front.map (Instance.server mode)) }.flags := hflags
      refine ((ih hports.1).foldlM_append fun _ =>
        .foldlM_singleton (accepts_server hnext item hports.2)).cast ?_ ?_
      · rw [List.forall_mem_append, List.forall_mem_singleton]
      · simp [UpstreamConf.addServers]

/-! ## Balancing methods -/

def methodOf (method : Word) : Option Method :=
  if method = "least_conn".toList then some .leastConn
  else if method = "ip_hash".toList then some .ipHash
  else none

def methodFlags (method : Word) : Flags := { backup := method ≠ "ip_hash".toList }

/-- No command that is called `word` is content with no arguments. -/
theorem confHandler_alone {State : Type} {commands : List (Command State)} {word : Word}
    (h : ∀ command ∈ commands, command.name = word → command.arity.accepts 1 = false)
    (state result : State) : confHandler commands state (.simple [word]) ≠ .ok result := by
  unfold confHandler
  cases hfind : commands.find? fun command =>
      decide (command.name = (Directive.simple [word]).name) with
  | none => exact fun hok => by cases hok
  | some command =>
      obtain ⟨name, arity, set⟩ := command
      have hname := List.find?_some hfind
      have harity := h _ (List.mem_of_find?_eq_some hfind) (of_decide_eq_true hname)
      cases set with
      | simple set => exact fun hok => by simp [harity] at hok
      | block set => exact fun hok => by cases hok

theorem refused_method {method : Word} (hmethod : method ∉ methodNames mode)
    (result : UpstreamConf) :
    confHandler (upstreamCommands mode resolve compiles) uscf (.simple [method]) ≠ .ok result := by
  refine confHandler_alone (fun command hcommand hname => ?_) uscf result
  have hother : ∀ name ∈ methodNames mode, name ≠ method := by
    rintro name hmem rfl
    exact hmethod hmem
  cases mode with
  | http =>
      have hleast := hother "least_conn".toList (by simp [methodNames])
      have hip := hother "ip_hash".toList (by simp [methodNames])
      simp only [upstreamCommands, List.mem_append, List.mem_cons, List.not_mem_nil,
        or_false] at hcommand
      rcases hcommand with (rfl | rfl | rfl) | (rfl | rfl)
      · rfl
      · rfl
      · exact absurd hname hleast
      · exact absurd hname hip
      · rfl
  | stream =>
      have hleast := hother "least_conn".toList (by simp [methodNames])
      simp only [upstreamCommands, List.mem_append, List.mem_cons, List.not_mem_nil,
        or_false] at hcommand
      rcases hcommand with rfl | rfl | rfl
      · rfl
      · rfl
      · exact absurd hname hleast

theorem accepts_method (hmethod : uscf.method = none) (hflags : uscf.flags = {}) (method : Word) :
    Accepts (confParse (upstreamCommands mode resolve compiles) uscf (methodDirectives method))
      (method ∈ methodNames mode)
      { uscf with method := methodOf method, flags := methodFlags method } := by
  unfold methodDirectives
  by_cases hdefault : method = "round_robin".toList
  · have hsame : uscf = { uscf with
        method := methodOf "round_robin".toList, flags := methodFlags "round_robin".toList } := by
      cases uscf
      cases hmethod
      cases hflags
      rfl
    rw [if_pos hdefault, hdefault, ← hsame]
    exact (Accepts.of_eq_ok rfl).congr (by cases mode <;> simp [methodNames])
  rw [if_neg hdefault]
  refine .foldlM_singleton ?_
  by_cases hname : method ∈ methodNames mode
  · refine (Accepts.of_eq_ok ?_).congr (iff_of_true trivial hname)
    cases mode with
    | http =>
        simp only [methodNames, List.mem_cons, List.not_mem_nil, or_false, hdefault,
          false_or] at hname
        rcases hname with rfl | rfl <;> rfl
    | stream =>
        simp only [methodNames, List.mem_cons, List.not_mem_nil, or_false, hdefault,
          false_or] at hname
        rcases hname with rfl
        rfl
  · exact .of_refused (refused_method hname) hname

theorem methodFlags_enough {method : Word} (hname : method ∈ methodNames mode) :
    Flags.Enough mode (methodFlags method) := by
  refine ⟨rfl, ?_⟩
  rintro rfl
  simp only [methodNames, List.mem_cons, List.not_mem_nil, or_false] at hname
  rcases hname with rfl | rfl <;> decide

/-! ## The block -/

/-- The upstream of a block with these instances. -/
def upstreamOf (mode : Mode) (key method : Word) (items : List (Instance N)) : UpstreamConf where
  host := key
  created := true
  port := 0
  noPort := true
  flags := methodFlags method
  method := methodOf method
  servers := some (items.map (Instance.server mode))

theorem accepts_upstreamBody {key : Word} (method : Word) {items : List (Instance N)}
    (hports : ∀ item ∈ items, (valueWord item.port).all inAuthority = true)
    (huscf : { uscf with servers := none } =
      ({ host := key, created := true, port := 0, noPort := true } : UpstreamConf)) :
    Accepts (upstreamBody mode resolve compiles uscf (upstreamDirectives mode method items))
      ((method ∈ methodNames mode ∧ ∀ item ∈ items, item.Usable) ∧ items ≠ [])
      (upstreamOf mode key method items) := by
  obtain ⟨host, created, port, noPort, flags, found, servers, maxCached⟩ := uscf
  cases huscf
  unfold upstreamBody upstreamDirectives
  rw [confParse_append]
  refine Accepts.bind ((accepts_method rfl rfl method).bind fun hname =>
    accepts_servers (methodFlags_enough hname) rfl hports) fun _ => ?_
  refine (Accepts.ite_not (fun _ => .of_eq_ok rfl) _).congr ?_
  rw [and_true, Option.some.injEq, List.map_eq_nil_iff]

end Lines

/-! ## Peers -/

/-- The peers that the instances become. -/
def balancerOf (mode : Mode) (items : List (Instance N)) : Balancer :=
  (initRoundRobin (items.map (Instance.server mode))).getD ⟨.ofServers [], none⟩

def readyUpstream (mode : Mode) (key method : Word) (items : List (Instance N)) :
    ReadyUpstream where
  host := key
  method := (methodOf method).getD .roundRobin
  balancer := balancerOf mode items

theorem naddrs_primaries (mode : Mode) (items : List (Instance N)) :
    naddrs ((items.map (Instance.server mode)).filter fun server => !server.backup) =
      (items.filter fun item => !item.isBackup mode).length := by
  induction items with
  | nil => rfl
  | cons item rest ih =>
      unfold naddrs at ih ⊢
      by_cases hbackup : item.isBackup mode = true
      · simp [Instance.server, hbackup, ← ih]
      · simp only [Bool.not_eq_true] at hbackup
        simp [Instance.server, hbackup, ← ih, Nat.add_comm]

theorem initRoundRobin_balancerOf (mode : Mode) (items : List (Instance N)) :
    initRoundRobin (items.map (Instance.server mode)) =
      if ∃ item ∈ items, item.isBackup mode = false then some (balancerOf mode items)
      else none := by
  have hiff : (∃ item ∈ items, item.isBackup mode = false) ↔
      naddrs ((items.map (Instance.server mode)).filter fun server => !server.backup) ≠ 0 := by
    rw [naddrs_primaries, ← Nat.pos_iff_ne_zero]
    simp [List.length_pos_iff_exists_mem]
  by_cases hprimary : ∃ item ∈ items, item.isBackup mode = false
  · rw [if_pos hprimary, balancerOf]
    have hsome : (initRoundRobin (items.map (Instance.server mode))).isSome = true := by
      unfold initRoundRobin
      rw [if_neg (hiff.mp hprimary)]
      split <;> rfl
    obtain ⟨us, hus⟩ := Option.isSome_iff_exists.mp hsome
    rw [hus, Option.getD_some]
  · rw [if_neg hprimary]
    unfold initRoundRobin
    exact if_pos (not_not.mp (mt hiff.mpr hprimary))

theorem accepts_initUpstream (build : Build) (mode : Mode) (key method : Word)
    (items : List (Instance N)) :
    Accepts (initUpstream build (upstreamOf mode key method items))
      (∃ item ∈ items, item.isBackup mode = false) (readyUpstream mode key method items) := by
  unfold initUpstream upstreamOf
  dsimp only
  rw [initRoundRobin_balancerOf]
  split
  next us hsome =>
    split at hsome
    next hprimary =>
      cases hsome
      exact (Accepts.of_eq_ok rfl).congr (iff_of_true trivial hprimary)
    next => cases hsome
  next hnone =>
    split at hnone
    next => cases hnone
    next hprimary => exact .error _ hprimary

end Cycle

end NginxInterface
