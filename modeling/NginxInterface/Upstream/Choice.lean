import NginxInterface.Upstream.RoundRobin

/-! # What a choice of the balancer does

The loop over the peers ends with the first of those that have the most credit. From
this follow inversion lemmas for every call of the balancer, which say what it returns and
what it changes.
-/

namespace NginxInterface.Upstream

open Foundation ConfFile

/-! ## What the loop does -/

/-- A peer after the loop has passed it. -/
def passed (tried : Tried) (now : Int) (i : Nat) (peer : Peer) : Peer :=
  if skipped tried now i peer then peer else peer.gain

/-- More credit, or the same at an earlier place. -/
def Ahead (first second : Peer × Nat) : Prop :=
  second.1.currentWeight < first.1.currentWeight ∨
    second.1.currentWeight = first.1.currentWeight ∧ first.2 ≤ second.2

theorem Ahead.refl (candidate : Peer × Nat) : Ahead candidate candidate :=
  Or.inr ⟨rfl, Nat.le_refl _⟩

theorem Ahead.trans {first second third : Peer × Nat} (hfirst : Ahead first second)
    (hsecond : Ahead second third) : Ahead first third := by
  unfold Ahead at *
  omega

/-- The accumulator holds the new peer or one that stays ahead of it. -/
theorem bestOf_cases {best : Option (Peer × Nat)} {peer : Peer} {i : Nat}
    (hbest : ∀ other ∈ best, other.2 < i) :
    ∃ current, bestOf best peer i = some current ∧
      (current = (peer, i) ∧ (∀ other ∈ best, Ahead current other) ∨
        current ∈ best ∧ Ahead current (peer, i)) := by
  cases best with
  | none => exact ⟨_, rfl, Or.inl ⟨rfl, by simp⟩⟩
  | some other =>
      have hearlier := hbest other rfl
      by_cases hmore : peer.currentWeight > other.1.currentWeight
      · refine ⟨_, if_pos hmore, Or.inl ⟨rfl, ?_⟩⟩
        intro same hsame
        rw [← Option.mem_some_iff.mp hsame]
        exact Or.inl hmore
      · refine ⟨_, if_neg hmore, Or.inr ⟨rfl, ?_⟩⟩
        unfold Ahead
        dsimp only
        omega

section Search

variable {tried : Tried} {now : Int} {i : Nat} {peer : Peer}

theorem search_skip (hskip : skipped tried now i peer = true) (best : Option (Peer × Nat))
    (total : Int) (rest : List Peer) :
    search tried now i best total (peer :: rest) =
      (peer :: (search tried now (i + 1) best total rest).1,
        (search tried now (i + 1) best total rest).2) := by
  rw [search, if_pos hskip]

theorem search_take (htakes : skipped tried now i peer = false) (best : Option (Peer × Nat))
    (total : Int) (rest : List Peer) :
    search tried now i best total (peer :: rest) =
      (peer.gain :: (search tried now (i + 1) (bestOf best peer.gain i)
          (ngxInt (total + peer.effectiveWeight)) rest).1,
        (search tried now (i + 1) (bestOf best peer.gain i)
          (ngxInt (total + peer.effectiveWeight)) rest).2) := by
  rw [search, if_neg (by simp [htakes])]

end Search

theorem getElem?_search (tried : Tried) (now : Int) (i : Nat) (best : Option (Peer × Nat))
    (total : Int) (peers : List Peer) (j : Nat) :
    (search tried now i best total peers).1[j]? =
      peers[j]?.map (passed tried now (i + j)) := by
  induction peers generalizing i best total j with
  | nil => rfl
  | cons peer rest ih =>
      have hnext : ∀ j, i + 1 + j = i + (j + 1) := fun j => by omega
      cases hskip : skipped tried now i peer with
      | true =>
          rw [search_skip hskip]
          cases j with
          | zero => simp [passed, hskip]
          | succ j => simpa [hnext] using ih (i + 1) best total j
      | false =>
          rw [search_take hskip]
          cases j with
          | zero => simp [passed, hskip]
          | succ j => simpa [hnext] using ih (i + 1) _ _ j

/-- What the peers that take part gain together. -/
def gained (tried : Tried) (now : Int) : Nat → List Peer → Int
  | _, [] => 0
  | i, peer :: rest =>
      (if skipped tried now i peer then 0 else peer.effectiveWeight) +
        gained tried now (i + 1) rest

/-- The credits grow by what is gained, up to a multiple of 2⁶⁴. -/
theorem sum_search (tried : Tried) (now : Int) (i : Nat) (best : Option (Peer × Nat))
    (total : Int) (peers : List Peer) :
    ((search tried now i best total peers).1.map Peer.currentWeight).sum % 2 ^ 64 =
      ((peers.map Peer.currentWeight).sum + gained tried now i peers) % 2 ^ 64 := by
  induction peers generalizing i best total with
  | nil => rfl
  | cons peer rest ih =>
      cases hskip : skipped tried now i peer with
      | true =>
          have hrest := ih (i + 1) best total
          simp only [search_skip hskip, List.map_cons, List.sum_cons, gained, hskip, if_true]
          omega
      | false =>
          have hgain : peer.gain.currentWeight % 2 ^ 64 =
              (peer.currentWeight + peer.effectiveWeight) % 2 ^ 64 := ngxInt_emod _
          have hrest := ih (i + 1) (bestOf best peer.gain i) (ngxInt (total + peer.effectiveWeight))
          simp only [search_take hskip, List.map_cons, List.sum_cons, gained, hskip,
            Bool.false_eq_true, if_false]
          omega

/-- The loop adds up what is gained. -/
theorem search_total (tried : Tried) (now : Int) (i : Nat) (best : Option (Peer × Nat))
    {total : Int} (htotal : ngxInt total = total) (peers : List Peer) :
    (search tried now i best total peers).2.2 = ngxInt (total + gained tried now i peers) := by
  induction peers generalizing i best total with
  | nil =>
      rw [gained, Int.add_zero, htotal]
      rfl
  | cons peer rest ih =>
      cases hskip : skipped tried now i peer with
      | true =>
          rw [search_skip hskip, gained, hskip, if_pos rfl, Int.zero_add]
          exact ih (i + 1) best htotal
      | false =>
          rw [search_take hskip, gained, hskip, if_neg (by simp), ← Int.add_assoc]
          refine (ih (i + 1) (bestOf best peer.gain i) (ngxInt_idem _)).trans ?_
          unfold ngxInt
          omega

/-- The loop ends without a peer exactly if there was none to take part. -/
theorem search_eq_none (tried : Tried) (now : Int) (i : Nat) (best : Option (Peer × Nat))
    (total : Int) (peers : List Peer) :
    (search tried now i best total peers).2.1 = none ↔
      best = none ∧ ∀ j peer, peers[j]? = some peer → skipped tried now (i + j) peer = true := by
  induction peers generalizing i best total with
  | nil => simp [search]
  | cons peer rest ih =>
      have hnext : ∀ j, i + 1 + j = i + (j + 1) := fun j => by omega
      have hall : (∀ j other, (peer :: rest)[j]? = some other →
            skipped tried now (i + j) other = true) ↔
          skipped tried now i peer = true ∧
            ∀ j other, rest[j]? = some other → skipped tried now (i + 1 + j) other = true := by
        constructor
        · intro h
          exact ⟨h 0 peer rfl, fun j other hother => hnext j ▸ h (j + 1) other hother⟩
        · rintro ⟨hpeer, hrest⟩ j other hother
          cases j with
          | zero => exact Option.some.inj hother ▸ hpeer
          | succ j => exact hnext j ▸ hrest j other hother
      rw [hall]
      cases hskip : skipped tried now i peer with
      | true => simp [search_skip hskip, ih]
      | false =>
          have hsome : bestOf best peer.gain i ≠ none := by
            unfold bestOf
            split
            · simp
            · split <;> simp
          simp [search_take hskip, ih, hsome]

/-- The loop ends with a peer that took part, and no other was ahead of it. -/
theorem search_best {tried : Tried} {now : Int} {i : Nat} {best : Option (Peer × Nat)}
    {total : Int} {peers : List Peer} {found : Peer × Nat}
    (hfound : (search tried now i best total peers).2.1 = some found)
    (hbest : ∀ other ∈ best, other.2 < i) :
    (found ∈ best ∨ ∃ j peer, peers[j]? = some peer ∧
        skipped tried now (i + j) peer = false ∧ found = (peer.gain, i + j)) ∧
      (∀ other ∈ best, Ahead found other) ∧
      ∀ j peer, peers[j]? = some peer → skipped tried now (i + j) peer = false →
        Ahead found (peer.gain, i + j) := by
  induction peers generalizing i best total with
  | nil =>
      have hsame : best = some found := hfound
      refine ⟨Or.inl hsame, fun other hother => ?_, fun j peer hpeer => by cases hpeer⟩
      rw [hsame, Option.mem_some_iff] at hother
      exact hother ▸ Ahead.refl _
  | cons peer rest ih =>
      have hnext : ∀ j, i + 1 + j = i + (j + 1) := fun j => by omega
      cases hskip : skipped tried now i peer with
      | true =>
          rw [search_skip hskip] at hfound
          obtain ⟨hmem, hahead, hrest⟩ := ih hfound fun other hother =>
            Nat.lt_succ_of_lt (hbest other hother)
          refine ⟨hmem.imp_right ?_, hahead, fun j other hother htakes => ?_⟩
          · rintro ⟨j, other, hother, htakes, hsame⟩
            exact ⟨j + 1, other, hother, hnext j ▸ htakes, hnext j ▸ hsame⟩
          · cases j with
            | zero =>
                rw [← Option.some.inj hother, Nat.add_zero, hskip] at htakes
                cases htakes
            | succ j => exact hnext j ▸ hrest j other hother (hnext j ▸ htakes)
      | false =>
          obtain ⟨current, hcurrent, hcases⟩ := @bestOf_cases best peer.gain i hbest
          rw [search_take hskip, hcurrent] at hfound
          obtain ⟨hmem, hahead, hrest⟩ := ih hfound (by
            intro other hother
            rw [Option.mem_some_iff] at hother
            rcases hcases with ⟨hsame, -⟩ | ⟨hsame, -⟩
            · rw [← hother, hsame]
              exact Nat.lt_succ_self i
            · exact Nat.lt_succ_of_lt (hbest other (hother ▸ hsame)))
          have hself := hahead current rfl
          refine ⟨?_, fun other hother => ?_, fun j other hother htakes => ?_⟩
          · rcases hmem with hmem | ⟨j, other, hother, htakes, hsame⟩
            · rw [Option.mem_some_iff] at hmem
              rcases hcases with ⟨hsame, -⟩ | ⟨hsame, -⟩
              · exact Or.inr ⟨0, peer, rfl, hskip, hmem ▸ hsame⟩
              · exact Or.inl (hmem ▸ hsame)
            · exact Or.inr ⟨j + 1, other, hother, hnext j ▸ htakes, hnext j ▸ hsame⟩
          · rcases hcases with ⟨-, hbefore⟩ | ⟨hsame, -⟩
            · exact hself.trans (hbefore other hother)
            · rw [Option.mem_def] at hsame hother
              exact Option.some.inj (hsame.symm.trans hother) ▸ hself
          · cases j with
            | zero =>
                rw [← Option.some.inj hother, Nat.add_zero]
                rcases hcases with ⟨hsame, -⟩ | ⟨-, hbehind⟩
                · exact hsame ▸ hself
                · exact hself.trans hbehind
            | succ j => exact hnext j ▸ hrest j other hother (hnext j ▸ htakes)

/-! ## What a choice does -/

theorem getPeer_eq_none {now : Int} {tried after : Tried} {peers list : List Peer}
    (h : getPeer now tried peers = (list, after, none)) :
    list = peers ∧ after = tried ∧
      ∀ j peer, peers[j]? = some peer → skipped tried now j peer = true := by
  unfold getPeer at h
  split at h
  next found total hsearch =>
    cases h
    have hnone := (search_eq_none tried now 0 none 0 peers).mp (by rw [hsearch])
    have hall : ∀ j peer, peers[j]? = some peer → skipped tried now j peer = true :=
      fun j peer hpeer => Nat.zero_add j ▸ hnone.2 j peer hpeer
    refine ⟨List.ext_getElem? fun j => ?_, rfl, hall⟩
    have hpassed := getElem?_search tried now 0 none 0 peers j
    rw [hsearch, Nat.zero_add] at hpassed
    rw [hpassed]
    cases hpeer : peers[j]? with
    | none => rfl
    | some peer => rw [Option.map_some, passed, if_pos (hall j peer hpeer)]
  next => cases h

/-- The peer at a place after another choice of the balancer: it has gained its weight if it
took part, and paid if it is the one. -/
def afterChoice (tried : Tried) (now total : Int) (p j : Nat) (peer : Peer) : Peer :=
  if j = p then (passed tried now j peer).chosen now total else passed tried now j peer

/-- The peer that is picked took part, nobody is ahead of it, and it pays what all have
gained. -/
structure Picked (now : Int) (tried : Tried) (peers : List Peer) (p : Nat) (total : Int)
    (list : List Peer) : Prop where
  takesPart : ∃ peer, peers[p]? = some peer ∧ skipped tried now p peer = false ∧
    ∀ j other, peers[j]? = some other → skipped tried now j other = false →
      Ahead (peer.gain, p) (other.gain, j)
  getElem? : ∀ j, list[j]? = peers[j]?.map (afterChoice tried now total p j)
  total_eq : total = ngxInt (gained tried now 0 peers)
  sum_eq : (list.map Peer.currentWeight).sum % 2 ^ 64 =
    (peers.map Peer.currentWeight).sum % 2 ^ 64

theorem Picked.length_eq {now total : Int} {tried : Tried} {peers list : List Peer} {p : Nat}
    (h : Picked now tried peers p total list) : list.length = peers.length := by
  have hnone : ∀ j, list[j]? = none ↔ peers[j]? = none := fun j => by
    rw [h.getElem? j, Option.map_eq_none_iff]
  simp only [List.getElem?_eq_none_iff] at hnone
  exact Nat.le_antisymm ((hnone _).mpr (Nat.le_refl _)) ((hnone _).mp (Nat.le_refl _))

theorem sum_modify_chosen {now total : Int} {peers : List Peer} {p : Nat}
    (hp : p < peers.length) :
    ((peers.modify p (Peer.chosen now total)).map Peer.currentWeight).sum % 2 ^ 64 =
      ((peers.map Peer.currentWeight).sum - total) % 2 ^ 64 := by
  induction peers generalizing p with
  | nil => cases hp
  | cons peer rest ih =>
      cases p with
      | zero =>
          have hpaid := ngxInt_emod (peer.currentWeight - total)
          simp only [List.modify_zero_cons, List.map_cons, List.sum_cons, Peer.chosen]
          omega
      | succ p =>
          have hrest := ih (Nat.lt_of_succ_lt_succ hp)
          simp only [List.modify_succ_cons, List.map_cons, List.sum_cons]
          omega

theorem getPeer_eq_some {now : Int} {tried after : Tried} {peers list : List Peer} {p : Nat}
    (h : getPeer now tried peers = (list, after, some p)) :
    after = BitArray.set tried p ∧ ∃ total, Picked now tried peers p total list := by
  unfold getPeer at h
  split at h
  next => cases h
  next found candidate index total hsearch =>
    cases h
    have hpassed := fun j => getElem?_search tried now 0 none 0 peers j
    simp only [hsearch, Nat.zero_add] at hpassed
    obtain ⟨hmem, -, hahead⟩ :=
      @search_best tried now 0 none 0 peers (candidate, p) (by rw [hsearch]) (by simp)
    obtain ⟨j, peer, hpeer, htakes, hsame⟩ := hmem.resolve_left (by simp)
    rw [Nat.zero_add] at htakes hsame
    obtain ⟨rfl, rfl⟩ := Prod.mk.inj hsame
    have hlength : p < found.length := by
      have hfound := hpassed p
      rw [hpeer, Option.map_some] at hfound
      exact (List.getElem?_eq_some_iff.mp hfound).1
    have htotal : total = ngxInt (gained tried now 0 peers) := by
      have hzero : ngxInt 0 = 0 := by decide
      have hloop := search_total tried now 0 none hzero peers
      rwa [hsearch, Int.zero_add] at hloop
    refine ⟨rfl, total, ⟨⟨peer, hpeer, htakes, ?_⟩, fun j => ?_, htotal, ?_⟩⟩
    · intro j other hother hpart
      have hfirst := hahead j other hother ((Nat.zero_add j).symm ▸ hpart)
      rwa [Nat.zero_add] at hfirst
    · rw [List.getElem?_modify, hpassed]
      cases peers[j]? with
      | none => rfl
      | some other =>
          by_cases hj : j = p
          · simp [afterChoice, hj]
          · simp [afterChoice, hj, Ne.symm hj]
    · have hsum := sum_search tried now 0 none 0 peers
      have hpaid := ngxInt_emod (gained tried now 0 peers)
      rw [hsearch] at hsum
      rw [sum_modify_chosen hlength]
      dsimp only at hsum
      omega

namespace Peers

/-- No peer of the list can be picked for this request. -/
def Exhausted (now : Int) (tried : Tried) (peers : Peers) : Prop :=
  if peers.single then ∀ peer ∈ peers.peer.head?, (peer.down || peer.full) = true
  else ∀ j peer, peers.peer[j]? = some peer → skipped tried now j peer = true

theorem get_eq_none {now : Int} {tried after : Tried} {peers next : Peers}
    (h : peers.get now tried = (next, after, none)) :
    next = peers ∧ after = tried ∧ peers.Exhausted now tried := by
  unfold Peers.get at h
  unfold Exhausted
  split at h
  next hsingle =>
    rw [if_pos hsingle]
    split at h
    next peer hpeer =>
      split at h
      next hout =>
        cases h
        refine ⟨rfl, rfl, fun other hother => ?_⟩
        rw [hpeer, Option.mem_some_iff] at hother
        exact hother ▸ hout
      next => cases h
    next hnone =>
      cases h
      refine ⟨rfl, rfl, fun other hother => ?_⟩
      rw [hnone] at hother
      cases hother
  next hseveral =>
    rw [if_neg hseveral]
    split at h
    next list tried' hget =>
      cases h
      obtain ⟨rfl, rfl, hall⟩ := getPeer_eq_none hget
      exact ⟨rfl, rfl, hall⟩
    next => cases h

/-- The only peer is connected, or one of several is picked and connected. -/
theorem get_eq_some {now : Int} {tried after : Tried} {peers next : Peers} {p : Nat}
    (h : peers.get now tried = (next, after, some p)) :
    (peers.single = true ∧ after = tried ∧ p = 0 ∧
      (∃ peer, peers.peer.head? = some peer ∧ (peer.down || peer.full) = false) ∧
      next = { peers with peer := peers.peer.modify 0 Peer.connect }) ∨
    (peers.single = false ∧ after = BitArray.set tried p ∧
      ∃ total list, Picked now tried peers.peer p total list ∧
        next = { peers with peer := list.modify p Peer.connect }) := by
  unfold Peers.get at h
  split at h
  next hsingle =>
    split at h
    next peer hpeer =>
      split at h
      next => cases h
      next husable =>
        cases h
        exact Or.inl ⟨hsingle, rfl, rfl, ⟨peer, hpeer, by simpa using husable⟩, rfl⟩
    next => cases h
  next hseveral =>
    split at h
    next => cases h
    next list tried' p' hget =>
      cases h
      obtain ⟨rfl, total, hpicked⟩ := getPeer_eq_some hget
      exact Or.inr ⟨by simpa using hseveral, rfl, total, list, hpicked, rfl⟩

end Peers

/-! ## Calls of the balancer -/

namespace Balancer

/-- The primary or the backup peers. -/
def list (us : Balancer) (backup : Bool) : Option Peers :=
  if backup then us.next else some us.peers

def setList (us : Balancer) (backup : Bool) (peers : Peers) : Balancer :=
  if backup then { us with next := some peers } else { us with peers }

theorem list_setList_self (us : Balancer) (backup : Bool) (peers : Peers) :
    (us.setList backup peers).list backup = some peers := by
  cases backup <;> rfl

theorem list_setList_of_ne (us : Balancer) {backup other : Bool} (peers : Peers)
    (hne : other ≠ backup) : (us.setList backup peers).list other = us.list other := by
  cases backup <;> cases other <;> first | rfl | exact absurd rfl hne

end Balancer

section Calls

variable {now : Int} {us next : Balancer} {rrp after : RrPeerData}

theorem getBackupPeer_eq_some {peers : Peers} {p : Nat}
    (h : getBackupPeer now us peers rrp = (next, after, some p)) :
    ∃ peers', peers.get now rrp.tried = (peers', after.tried, some p) ∧
      next = us.setList true peers' ∧ after.backup = rrp.backup ∧ after.current = some p := by
  unfold getBackupPeer at h
  split at h
  · cases h
  next peers' tried p' hget =>
    cases h
    exact ⟨peers', hget, rfl, rfl, rfl⟩

theorem getBackupPeer_eq_none {peers : Peers} (hpeers : us.next = some peers)
    (h : getBackupPeer now us peers rrp = (next, after, none)) :
    next = us ∧ after = rrp ∧ peers.Exhausted now rrp.tried := by
  unfold getBackupPeer at h
  split at h
  next peers' tried hget =>
    cases h
    obtain ⟨rfl, rfl, hexhausted⟩ := Peers.get_eq_none hget
    refine ⟨?_, rfl, hexhausted⟩
    rw [← hpeers]
  · cases h

/-- A peer comes from the list in use, or from the backup servers when no primary one can be
picked. -/
theorem getRoundRobinPeer_eq_some {p : Nat}
    (h : getRoundRobinPeer now us rrp = (next, after, some p)) :
    ∃ peers peers' tried, us.list after.backup = some peers ∧
      peers.get now tried = (peers', after.tried, some p) ∧
      next = us.setList after.backup peers' ∧ after.current = some p ∧
      (after.backup = rrp.backup ∧ tried = rrp.tried ∨
        rrp.backup = false ∧ after.backup = true ∧
          tried = BitArray.clear rrp.tried peers.number ∧
          us.peers.Exhausted now rrp.tried) := by
  unfold getRoundRobinPeer at h
  split at h
  next hbackup =>
    split at h
    next peers hpeers =>
      obtain ⟨peers', hget, hnext, hsame, hcurrent⟩ := getBackupPeer_eq_some h
      rw [hbackup] at hsame
      refine ⟨peers, peers', rrp.tried, ?_, hget, ?_, hcurrent, Or.inl ⟨?_, rfl⟩⟩
      · rw [hsame]
        exact hpeers
      · rw [hsame]
        exact hnext
      · rw [hsame, hbackup]
    · cases h
  next hprimary =>
    have hfalse : rrp.backup = false := by simpa using hprimary
    split at h
    next peers' tried p' hget =>
      cases h
      dsimp only
      rw [hfalse]
      exact ⟨us.peers, peers', rrp.tried, rfl, hget, rfl, rfl, Or.inl ⟨rfl, rfl⟩⟩
    next peers' tried hget =>
      obtain ⟨rfl, rfl, hexhausted⟩ := Peers.get_eq_none hget
      split at h
      · cases h
      next peers hpeers =>
        obtain ⟨peers', hbackup, hnext, hsame, hcurrent⟩ := getBackupPeer_eq_some h
        dsimp only at hsame hbackup
        refine ⟨peers, peers', _, ?_, hbackup, ?_, hcurrent,
          Or.inr ⟨hfalse, hsame, rfl, hexhausted⟩⟩
        · rw [hsame]
          exact hpeers
        · rw [hsame]
          exact hnext

/-- `NGX_BUSY` changes no peer. No peer of the list in use can be picked, nor of the backup
servers. -/
theorem getRoundRobinPeer_eq_none (h : getRoundRobinPeer now us rrp = (next, after, none)) :
    next = us ∧
      (after = rrp ∧ (rrp.backup = false → us.next = none) ∧
          (∀ peers, us.list rrp.backup = some peers → peers.Exhausted now rrp.tried) ∨
        rrp.backup = false ∧ us.peers.Exhausted now rrp.tried ∧
          ∃ peers, us.next = some peers ∧
            after = { rrp with backup := true, tried := BitArray.clear rrp.tried peers.number } ∧
            peers.Exhausted now after.tried) := by
  unfold getRoundRobinPeer at h
  split at h
  next hbackup =>
    split at h
    next peers hpeers =>
      obtain ⟨rfl, rfl, hexhausted⟩ := getBackupPeer_eq_none hpeers h
      refine ⟨rfl, Or.inl ⟨rfl, fun hfalse => by simp [hbackup] at hfalse, ?_⟩⟩
      intro other hother
      rw [hbackup, Balancer.list, if_pos rfl, hpeers, Option.some.injEq] at hother
      exact hother ▸ hexhausted
    next hnone =>
      cases h
      refine ⟨rfl, Or.inl ⟨rfl, fun _ => hnone, ?_⟩⟩
      intro other hother
      rw [hbackup, Balancer.list, if_pos rfl, hnone] at hother
      cases hother
  next hprimary =>
    have hfalse : rrp.backup = false := by simpa using hprimary
    split at h
    · cases h
    next peers' tried hget =>
      obtain ⟨rfl, rfl, hexhausted⟩ := Peers.get_eq_none hget
      split at h
      next hnone =>
        cases h
        refine ⟨rfl, Or.inl ⟨rfl, fun _ => hnone, ?_⟩⟩
        intro other hother
        rw [hfalse, Balancer.list, if_neg (by simp), Option.some.injEq] at hother
        exact hother ▸ hexhausted
      next peers hpeers =>
        obtain ⟨rfl, rfl, hbackups⟩ := getBackupPeer_eq_none hpeers h
        exact ⟨rfl, Or.inr ⟨hfalse, hexhausted, peers, hpeers, rfl, hbackups⟩⟩

theorem freeRoundRobinPeer_eq {failed : Bool} {tries current : Nat} {peers : Peers}
    (hcurrent : rrp.current = some current) (hpeers : us.list rrp.backup = some peers) :
    freeRoundRobinPeer now failed tries us rrp =
      (us.setList rrp.backup (peers.free now failed tries current).1,
        (peers.free now failed tries current).2) := by
  unfold freeRoundRobinPeer
  cases hbackup : rrp.backup with
  | false =>
      rw [hbackup, Balancer.list, if_neg (by simp), Option.some.injEq] at hpeers
      rw [hcurrent, hpeers]
      rfl
  | true =>
      rw [hbackup, Balancer.list, if_pos rfl] at hpeers
      rw [hcurrent, hpeers]
      rfl

theorem notifyRoundRobinPeer_eq {current : Nat} {peers : Peers}
    (hcurrent : rrp.current = some current) (hpeers : us.list rrp.backup = some peers) :
    notifyRoundRobinPeer us rrp =
      us.setList rrp.backup { peers with peer := peers.peer.modify current Peer.live } := by
  unfold notifyRoundRobinPeer
  cases hbackup : rrp.backup with
  | false =>
      rw [hbackup, Balancer.list, if_neg (by simp), Option.some.injEq] at hpeers
      rw [hcurrent, ← hpeers]
      rfl
  | true =>
      rw [hbackup, Balancer.list, if_pos rfl] at hpeers
      rw [hcurrent, hpeers]
      rfl

end Calls

/-! ## What never changes -/

namespace Balancer

/-- How many peers a list has. -/
def count (us : Balancer) (backup : Bool) : Option Nat := (us.list backup).map Peers.number

/-- The two have the same lists of peers, apart from what the peers have been through. -/
structure Alike (us next : Balancer) : Prop where
  single : next.peers.single = us.peers.single
  count : next.count = us.count
  backups : ∀ peers', next.next = some peers' →
    ∃ peers, us.next = some peers ∧ peers'.single = peers.single

theorem Alike.refl (us : Balancer) : us.Alike us := ⟨rfl, rfl, fun peers h => ⟨peers, h, rfl⟩⟩

theorem Alike.trans {us middle next : Balancer} (hfirst : us.Alike middle)
    (hsecond : middle.Alike next) : us.Alike next where
  single := hsecond.single.trans hfirst.single
  count := hsecond.count.trans hfirst.count
  backups := by
    intro last hlast
    obtain ⟨between, hbetween, hlater⟩ := hsecond.backups last hlast
    obtain ⟨peers, hpeers, hearlier⟩ := hfirst.backups between hbetween
    exact ⟨peers, hpeers, hlater.trans hearlier⟩

theorem alike_setList {us : Balancer} {backup : Bool} {peers peers' : Peers}
    (hlist : us.list backup = some peers) (hnumber : peers'.number = peers.number)
    (hsingle : peers'.single = peers.single) : us.Alike (us.setList backup peers') where
  single := by
    cases backup with
    | false => exact Option.some.inj hlist ▸ hsingle
    | true => rfl
  count := by
    funext other
    unfold count
    by_cases hother : other = backup
    · rw [hother, list_setList_self, hlist, Option.map_some, Option.map_some, hnumber]
    · rw [list_setList_of_ne us peers' hother]
  backups := by
    intro found hfound
    cases backup with
    | false => exact ⟨found, hfound, rfl⟩
    | true => exact ⟨peers, hlist, Option.some.inj hfound ▸ hsingle⟩

end Balancer

theorem Peers.get_number {now : Int} {tried after : Tried} {peers next : Peers} {p : Nat}
    (h : peers.get now tried = (next, after, some p)) :
    next.number = peers.number ∧ next.single = peers.single := by
  rcases Peers.get_eq_some h with ⟨-, -, -, -, rfl⟩ | ⟨-, -, total, list, hpicked, rfl⟩
  · exact ⟨List.length_modify .., rfl⟩
  · exact ⟨(List.length_modify ..).trans hpicked.length_eq, rfl⟩

theorem getRoundRobinPeer_alike {now : Int} {us next : Balancer} {rrp after : RrPeerData}
    {result : Option Nat} (h : getRoundRobinPeer now us rrp = (next, after, result)) :
    us.Alike next := by
  cases result with
  | none => exact (getRoundRobinPeer_eq_none h).1 ▸ Balancer.Alike.refl us
  | some p =>
      obtain ⟨peers, peers', tried, hlist, hget, rfl, -⟩ := getRoundRobinPeer_eq_some h
      obtain ⟨hnumber, hsingle⟩ := Peers.get_number hget
      exact Balancer.alike_setList hlist hnumber hsingle

theorem freeRoundRobinPeer_alike (now : Int) (failed : Bool) (tries : Nat) (us : Balancer)
    (rrp : RrPeerData) : us.Alike (freeRoundRobinPeer now failed tries us rrp).1 := by
  have hfree : ∀ (peers : Peers) current,
      (peers.free now failed tries current).1.number = peers.number ∧
        (peers.free now failed tries current).1.single = peers.single := by
    intro peers current
    unfold Peers.free
    split <;> exact ⟨List.length_modify .., rfl⟩
  unfold freeRoundRobinPeer
  split
  next => exact @Balancer.alike_setList us false _ _ rfl (hfree _ _).1 (hfree _ _).2
  next hnext => exact @Balancer.alike_setList us true _ _ hnext (hfree _ _).1 (hfree _ _).2
  next => exact Balancer.Alike.refl us

theorem notifyRoundRobinPeer_alike (us : Balancer) (rrp : RrPeerData) :
    us.Alike (notifyRoundRobinPeer us rrp) := by
  unfold notifyRoundRobinPeer
  split
  next => exact @Balancer.alike_setList us false _ _ rfl (List.length_modify ..) rfl
  next hnext => exact @Balancer.alike_setList us true _ _ hnext (List.length_modify ..) rfl
  next => exact Balancer.Alike.refl us

/-! ## What becomes of a peer -/

/-- The peer at a place of one of the lists. -/
def Balancer.peer? (us : Balancer) (backup : Bool) (j : Nat) : Option Peer :=
  (us.list backup).bind fun peers => peers.peer[j]?

/-- What a choice does to a peer: nothing, or it takes part, or it is the one. -/
inductive Peer.Moves (now : Int) (peer : Peer) : Peer → Prop where
  | rest : Moves now peer peer
  | gain (husable : peer.unavailable now = false) : Moves now peer peer.gain
  | choose (husable : peer.unavailable now = false) (total : Int) :
      Moves now peer (peer.gain.chosen now total)

theorem Picked.moves {now total : Int} {tried : Tried} {peers list : List Peer} {p j : Nat}
    {peer : Peer} (h : Picked now tried peers p total list) (hpeer : peers[j]? = some peer) :
    peer.Moves now (afterChoice tried now total p j peer) := by
  unfold afterChoice passed
  cases hskip : skipped tried now j peer with
  | true =>
      by_cases hchosen : j = p
      · obtain ⟨chosen, hfound, htakes, -⟩ := h.takesPart
        rw [← hchosen, hpeer, Option.some.injEq] at hfound
        rw [← hfound, ← hchosen, hskip] at htakes
        cases htakes
      · simpa [hchosen] using Peer.Moves.rest
  | false =>
      have husable : peer.unavailable now = false := (Bool.or_eq_false_iff.mp hskip).2
      by_cases hchosen : j = p
      · simpa [hchosen] using Peer.Moves.choose husable total
      · simpa [hchosen] using Peer.Moves.gain husable

theorem exists_of_getElem?_modify {Item : Type} {items : List Item} {change : Item → Item}
    {i j : Nat} {after : Item} (h : (items.modify i change)[j]? = some after) :
    ∃ before, items[j]? = some before ∧ after = if j = i then change before else before := by
  rw [List.getElem?_modify, Option.map_eq_map, Option.map_eq_some_iff] at h
  obtain ⟨before, hbefore, rfl⟩ := h
  exact ⟨before, hbefore, by simp only [eq_comm]⟩

/-- Every peer has made a move, and the one that is returned has a connection more. -/
theorem Peers.get_peer {now : Int} {tried after : Tried} {peers next : Peers} {p j : Nat}
    {peer : Peer} (h : peers.get now tried = (next, after, some p))
    (hpeer : next.peer[j]? = some peer) :
    ∃ before moved, peers.peer[j]? = some before ∧ before.Moves now moved ∧
      peer = if j = p then moved.connect else moved := by
  rcases Peers.get_eq_some h with ⟨-, -, rfl, -, rfl⟩ | ⟨-, -, total, list, hpicked, rfl⟩
  · obtain ⟨before, hbefore, hafter⟩ := exists_of_getElem?_modify hpeer
    exact ⟨before, before, hbefore, .rest, hafter⟩
  · obtain ⟨moved, hmoved, hafter⟩ := exists_of_getElem?_modify hpeer
    rw [hpicked.getElem?, Option.map_eq_some_iff] at hmoved
    obtain ⟨before, hbefore, rfl⟩ := hmoved
    exact ⟨before, _, hbefore, hpicked.moves hbefore, hafter⟩

theorem getRoundRobinPeer_peer {now : Int} {us next : Balancer} {rrp after : RrPeerData}
    {p j : Nat} {backup : Bool} {peer : Peer}
    (h : getRoundRobinPeer now us rrp = (next, after, some p))
    (hpeer : next.peer? backup j = some peer) :
    ∃ before moved, us.peer? backup j = some before ∧ before.Moves now moved ∧
      peer = if (backup, j) = (after.backup, p) then moved.connect else moved := by
  obtain ⟨peers, peers', tried, hlist, hget, rfl, -⟩ := getRoundRobinPeer_eq_some h
  unfold Balancer.peer? at hpeer ⊢
  by_cases hbackup : backup = after.backup
  · subst hbackup
    rw [Balancer.list_setList_self, Option.bind_some] at hpeer
    rw [hlist]
    obtain ⟨before, moved, hbefore, hmoves, rfl⟩ := Peers.get_peer hget hpeer
    exact ⟨before, moved, hbefore, hmoves, by simp⟩
  · rw [Balancer.list_setList_of_ne us peers' hbackup] at hpeer
    exact ⟨peer, peer, hpeer, .rest, by simp [hbackup]⟩

/-- Only the peer that is let go changes, in one of two ways. -/
theorem freeRoundRobinPeer_peer {now : Int} {failed : Bool} {tries current j : Nat}
    {us : Balancer} {rrp : RrPeerData} {peers : Peers} {backup : Bool} {peer : Peer}
    (hcurrent : rrp.current = some current) (hlist : us.list rrp.backup = some peers)
    (hpeer : (freeRoundRobinPeer now failed tries us rrp).1.peer? backup j = some peer) :
    ∃ before, us.peer? backup j = some before ∧
      ((backup, j) ≠ (rrp.backup, current) ∧ peer = before ∨
        (backup, j) = (rrp.backup, current) ∧
          (peers.single = true ∧ peer = before.disconnect ∨
            peers.single = false ∧ peer = before.release now failed)) := by
  rw [freeRoundRobinPeer_eq hcurrent hlist] at hpeer
  unfold Balancer.peer? at hpeer ⊢
  by_cases hbackup : backup = rrp.backup
  · subst hbackup
    rw [Balancer.list_setList_self, Option.bind_some, Peers.free] at hpeer
    rw [hlist]
    split at hpeer
    next hsingle =>
      obtain ⟨before, hbefore, rfl⟩ := exists_of_getElem?_modify hpeer
      refine ⟨before, hbefore, ?_⟩
      by_cases hj : j = current <;> simp [hj, hsingle]
    next hseveral =>
      obtain ⟨before, hbefore, rfl⟩ := exists_of_getElem?_modify hpeer
      refine ⟨before, hbefore, ?_⟩
      by_cases hj : j = current <;> simp [hj, hseveral]
  · rw [Balancer.list_setList_of_ne _ _ hbackup] at hpeer
    exact ⟨peer, hpeer, Or.inl ⟨by simp [hbackup], rfl⟩⟩

theorem notifyRoundRobinPeer_peer {current j : Nat} {us : Balancer} {rrp : RrPeerData}
    {peers : Peers} {backup : Bool} {peer : Peer} (hcurrent : rrp.current = some current)
    (hlist : us.list rrp.backup = some peers)
    (hpeer : (notifyRoundRobinPeer us rrp).peer? backup j = some peer) :
    ∃ before, us.peer? backup j = some before ∧
      peer = if (backup, j) = (rrp.backup, current) then before.live else before := by
  rw [notifyRoundRobinPeer_eq hcurrent hlist] at hpeer
  unfold Balancer.peer? at hpeer ⊢
  by_cases hbackup : backup = rrp.backup
  · subst hbackup
    rw [Balancer.list_setList_self, Option.bind_some] at hpeer
    obtain ⟨before, hbefore, rfl⟩ := exists_of_getElem?_modify hpeer
    rw [hlist]
    exact ⟨before, hbefore, by simp⟩
  · rw [Balancer.list_setList_of_ne _ _ hbackup] at hpeer
    exact ⟨peer, hpeer, by simp [hbackup]⟩

end NginxInterface.Upstream
