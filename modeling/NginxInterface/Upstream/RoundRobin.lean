import Mathlib.Algebra.GroupWithZero.Nat
import Mathlib.Algebra.Ring.Int.Defs
import NginxInterface.ConfFile.Url
import NginxInterface.Foundation.BitArray

/-! # Round robin

The peers of an upstream and how nginx picks one of them, from
`ngx_http_upstream_round_robin.c`. The functions of the stream module differ from
these in their names only. There is no `zone` in a rendered file, so that the peers
belong to one worker and the locks do nothing.

Weights and credits are integers of 64 bits. A weight comes from `ngx_atoi` and is one of
them; sums of weights need not be, and wrap around.
-/

namespace NginxInterface.Upstream

open Foundation ConfFile

/-! ## Integers -/

/-- What an `ngx_int_t` holds of a result. -/
def ngxInt (value : Int) : Int := (value + 2 ^ 63) % 2 ^ 64 - 2 ^ 63

theorem ngxInt_emod (value : Int) : ngxInt value % 2 ^ 64 = value % 2 ^ 64 := by
  unfold ngxInt
  omega

theorem ngxInt_of_range {value : Int} (hlow : -2 ^ 63 ≤ value) (hhigh : value < 2 ^ 63) :
    ngxInt value = value := by
  unfold ngxInt
  omega

theorem ngxInt_idem (value : Int) : ngxInt (ngxInt value) = ngxInt value := by
  unfold ngxInt
  omega

/-! ## Servers and peers -/

/-- `ngx_http_upstream_server_t`: a `server` directive of an upstream block. -/
structure Server where
  addrs : List Sockaddr
  weight : Nat := 1
  maxConns : Nat := 0
  maxFails : Nat := 1
  failTimeout : Int := 10
  down : Bool := false
  backup : Bool := false
  deriving DecidableEq

/-- `ngx_http_upstream_rr_peer_t`. -/
structure Peer where
  sockaddr : Sockaddr
  currentWeight : Int := 0
  effectiveWeight : Int
  weight : Nat
  conns : Nat := 0
  maxConns : Nat
  fails : Nat := 0
  accessed : Int := 0
  checked : Int := 0
  maxFails : Nat
  failTimeout : Int
  down : Bool

/-- `ngx_http_upstream_rr_peers_t`, without the link to the backup servers. -/
structure Peers where
  single : Bool
  totalWeight : Nat
  peer : List Peer

namespace Peers

def number (peers : Peers) : Nat := peers.peer.length

end Peers

/-- The peers of an upstream, with its backup servers if there are any. -/
structure Balancer where
  peers : Peers
  next : Option Peers

def Server.peers (server : Server) : List Peer :=
  server.addrs.map fun sockaddr =>
    { sockaddr
      effectiveWeight := server.weight
      weight := server.weight
      maxConns := server.maxConns
      maxFails := server.maxFails
      failTimeout := server.failTimeout
      down := server.down }

def naddrs (servers : List Server) : Nat := (servers.map fun server => server.addrs.length).sum

def Peers.ofServers (servers : List Server) : Peers where
  single := naddrs servers == 1
  totalWeight := (servers.map fun server => server.addrs.length * server.weight).sum % 2 ^ 64
  peer := servers.flatMap Server.peers

/-- `ngx_http_upstream_init_round_robin` for an upstream block; `none` is the error
"no servers in upstream". -/
def initRoundRobin (servers : List Server) : Option Balancer :=
  let primaries := servers.filter fun server => !server.backup
  let backups := servers.filter fun server => server.backup
  if naddrs primaries = 0 then none
  else if naddrs backups = 0 then some ⟨.ofServers primaries, none⟩
  else
    some ⟨{ Peers.ofServers primaries with single := false },
      some { Peers.ofServers backups with single := false }⟩

/-! ## Picking a peer -/

/-- The words of the array `tried`, one bit for each peer. -/
abbrev Tried := List (BitVec 64)

namespace Peer

/-- The peer has as many connections as it may have. -/
def full (peer : Peer) : Bool := peer.maxConns ≠ 0 && peer.maxConns ≤ peer.conns

/-- The peer has failed too often and too recently. -/
def disabled (now : Int) (peer : Peer) : Bool :=
  peer.maxFails ≠ 0 && peer.maxFails ≤ peer.fails && now - peer.checked ≤ peer.failTimeout

def unavailable (now : Int) (peer : Peer) : Bool :=
  peer.down || peer.disabled now || peer.full

/-- The peer takes part in the choice. Its effective weight recovers. -/
def gain (peer : Peer) : Peer :=
  { peer with
    currentWeight := ngxInt (peer.currentWeight + peer.effectiveWeight)
    effectiveWeight :=
      if peer.effectiveWeight < peer.weight then ngxInt (peer.effectiveWeight + 1)
      else peer.effectiveWeight }

/-- The peer is chosen and pays the weights of all that took part. -/
def chosen (now total : Int) (peer : Peer) : Peer :=
  { peer with
    currentWeight := ngxInt (peer.currentWeight - total)
    checked := if now - peer.checked > peer.failTimeout then now else peer.checked }

def connect (peer : Peer) : Peer := { peer with conns := peer.conns + 1 }

end Peer

/-- A peer that was tried for this request or cannot be used now. -/
def skipped (tried : Tried) (now : Int) (i : Nat) (peer : Peer) : Bool :=
  BitArray.test tried i || peer.unavailable now

/-- The comparison with `best`, which comes with its index `p`. -/
def bestOf (best : Option (Peer × Nat)) (peer : Peer) (i : Nat) : Option (Peer × Nat) :=
  match best with
  | none => some (peer, i)
  | some (other, p) =>
      if peer.currentWeight > other.currentWeight then some (peer, i) else some (other, p)

/-- The loop of `ngx_http_upstream_get_peer` with its variables `i`, `best` and `total`. -/
def search (tried : Tried) (now : Int) :
    Nat → Option (Peer × Nat) → Int → List Peer → List Peer × Option (Peer × Nat) × Int
  | _, best, total, [] => ([], best, total)
  | i, best, total, peer :: rest =>
      if skipped tried now i peer then
        let found := search tried now (i + 1) best total rest
        (peer :: found.1, found.2)
      else
        let found := search tried now (i + 1) (bestOf best peer.gain i)
          (ngxInt (total + peer.effectiveWeight)) rest
        (peer.gain :: found.1, found.2)

/-- `ngx_http_upstream_get_peer`: the peers, the array `tried` and the index of the peer
that is returned. -/
def getPeer (now : Int) (tried : Tried) (peers : List Peer) : List Peer × Tried × Option Nat :=
  match search tried now 0 none 0 peers with
  | (peers, none, _) => (peers, tried, none)
  | (peers, some (_, p), total) =>
      (peers.modify p (Peer.chosen now total), BitArray.set tried p, some p)

/-- `ngx_http_upstream_get_round_robin_peer` up to the label `failed`. -/
def Peers.get (now : Int) (tried : Tried) (peers : Peers) : Peers × Tried × Option Nat :=
  if peers.single then
    match peers.peer.head? with
    | some peer =>
        if peer.down || peer.full then (peers, tried, none)
        else ({ peers with peer := peers.peer.modify 0 Peer.connect }, tried, some 0)
    | none => (peers, tried, none)
  else
    match getPeer now tried peers.peer with
    | (list, tried, none) => ({ peers with peer := list }, tried, none)
    | (list, tried, some p) => ({ peers with peer := list.modify p Peer.connect }, tried, some p)

/-- `ngx_http_upstream_rr_peer_data_t`. `backup` says that `peers` has been set to the
backup servers, and `current` is the index of a peer. -/
structure RrPeerData where
  backup : Bool := false
  current : Option Nat := none
  tried : Tried

/-- The number of peers of the longer list. -/
def Balancer.longest (us : Balancer) : Nat :=
  match us.next with
  | some next => max us.peers.number next.number
  | none => us.peers.number

/-- `ngx_http_upstream_init_round_robin_peer`: one word while it is enough, and an array for
the longer list otherwise. -/
def initRoundRobinPeer (us : Balancer) : RrPeerData where
  tried := List.replicate (if us.longest ≤ 64 then 1 else BitArray.size 64 us.longest) 0#64

/-- `ngx_http_upstream_tries`. -/
def Balancer.tries (us : Balancer) : Nat :=
  us.peers.number + match us.next with
    | some next => next.number
    | none => 0

/-- The call for the backup servers, after which there are no others. -/
def getBackupPeer (now : Int) (us : Balancer) (next : Peers) (rrp : RrPeerData) :
    Balancer × RrPeerData × Option Nat :=
  match next.get now rrp.tried with
  | (next, tried, none) => ({ us with next := some next }, { rrp with tried }, none)
  | (next, tried, some p) =>
      ({ us with next := some next }, { rrp with tried, current := some p }, some p)

/-- `ngx_http_upstream_get_round_robin_peer`; no index is `NGX_BUSY`. -/
def getRoundRobinPeer (now : Int) (us : Balancer) (rrp : RrPeerData) :
    Balancer × RrPeerData × Option Nat :=
  if rrp.backup then
    match us.next with
    | some next => getBackupPeer now us next rrp
    | none => (us, rrp, none)
  else
    match us.peers.get now rrp.tried with
    | (peers, tried, some p) =>
        ({ us with peers }, { rrp with tried, current := some p }, some p)
    | (peers, tried, none) =>
        match us.next with
        | none => ({ us with peers }, { rrp with tried }, none)
        | some next =>
            getBackupPeer now { us with peers } next
              { rrp with backup := true, tried := BitArray.clear tried next.number }

/-! ## Letting a peer go -/

namespace Peer

/-- The peer is marked live if a check passed since it last failed. -/
def live (peer : Peer) : Peer :=
  if peer.accessed < peer.checked then { peer with fails := 0 } else peer

/-- What `ngx_http_upstream_free_round_robin_peer` does to the peer, for an upstream of
several. -/
def release (now : Int) (failed : Bool) (peer : Peer) : Peer :=
  let peer :=
    if failed then
      let effectiveWeight :=
        if peer.maxFails ≠ 0 then
          ngxInt (peer.effectiveWeight - (peer.weight / peer.maxFails : Nat))
        else peer.effectiveWeight
      { peer with
        fails := peer.fails + 1
        accessed := now
        checked := now
        effectiveWeight := if effectiveWeight < 0 then 0 else effectiveWeight }
    else peer.live
  { peer with conns := peer.conns - 1 }

def disconnect (peer : Peer) : Peer := { peer with conns := peer.conns - 1 }

end Peer

/-- `ngx_http_upstream_free_round_robin_peer` for a list of peers: the peers, and what is
left of the tries. -/
def Peers.free (now : Int) (failed : Bool) (tries current : Nat) (peers : Peers) : Peers × Nat :=
  if peers.single then ({ peers with peer := peers.peer.modify current Peer.disconnect }, 0)
  else
    ({ peers with peer := peers.peer.modify current (Peer.release now failed) }, tries - 1)

/-- `ngx_http_upstream_free_round_robin_peer`. -/
def freeRoundRobinPeer (now : Int) (failed : Bool) (tries : Nat) (us : Balancer)
    (rrp : RrPeerData) : Balancer × Nat :=
  match rrp.current, rrp.backup, us.next with
  | some current, false, _ =>
      let (peers, tries) := us.peers.free now failed tries current
      ({ us with peers }, tries)
  | some current, true, some next =>
      let (next, tries) := next.free now failed tries current
      ({ us with next := some next }, tries)
  -- a peer is let go only if there is one
  | _, _, _ => (us, tries)

/-- `ngx_stream_upstream_notify_round_robin_peer`, which only the stream module has: the
connection to the peer is established. -/
def notifyRoundRobinPeer (us : Balancer) (rrp : RrPeerData) : Balancer :=
  match rrp.current, rrp.backup, us.next with
  | some current, false, _ =>
      { us with peers := { us.peers with peer := us.peers.peer.modify current Peer.live } }
  | some current, true, some next =>
      { us with next := some { next with peer := next.peer.modify current Peer.live } }
  | _, _, _ => us

end NginxInterface.Upstream
