import Mathlib.Data.List.Nodup
import NginxInterface.Foundation.SpliceLoop

/-! # Pools of backends

What the routing table is for, with ports as the elements of any type: each
application has a pool of backends, some of which are kept only as a fallback. A
pool can be given another port, lose a port, or be swapped for a new list of ports,
which turns the primary backends of before into backups.

Two facts hold in every pool. A port is not at once a primary and a backup, and no
backup stands between two primaries with one port. The second one decides what the
loop of a deletion leaves of a port that was listed twice.
-/

namespace NginxInterface

open Foundation

structure Backend (N : Type) where
  port : N
  backup : Bool

namespace Backend

variable {N : Type}

def primary (port : N) : Backend N := ⟨port, false⟩

/-- A backend that only answers when no primary does. -/
def fallback (port : N) : Backend N := ⟨port, true⟩

@[simp] theorem primary_port (port : N) : (primary port).port = port := rfl

@[simp] theorem primary_backup (port : N) : (primary port).backup = false := rfl

@[simp] theorem fallback_port (port : N) : (fallback port).port = port := rfl

@[simp] theorem fallback_backup (port : N) : (fallback port).backup = true := rfl

theorem map_primary_port (ports : List N) : (ports.map primary).map port = ports := by
  rw [List.map_map]
  exact List.map_id ports

end Backend

structure Pool (N : Type) where
  backends : List (Backend N)
  separate : ∀ left ∈ backends, ∀ right ∈ backends,
    left.port = right.port → left.backup = right.backup
  gathered : ∀ left middle right, [left, middle, right].Sublist backends →
    left.backup = false → right.backup = false → left.port = right.port →
      middle.backup = false

namespace Pool

variable {N : Type}

def ports (pool : Pool N) : List N := pool.backends.map Backend.port

/-- The ports that are not backups. -/
def primaries (pool : Pool N) : List N :=
  (pool.backends.filter fun backend => !backend.backup).map Backend.port

def hasBackup (pool : Pool N) : Prop := ∃ backend ∈ pool.backends, backend.backup = true

theorem mem_primaries {pool : Pool N} {port : N} :
    port ∈ pool.primaries ↔
      ∃ backend ∈ pool.backends, backend.backup = false ∧ backend.port = port := by
  simp [primaries, and_assoc]

theorem primaries_sublist (pool : Pool N) : pool.primaries.Sublist pool.ports :=
  (List.filter_sublist).map Backend.port

/-- A backend with the port of a primary is a primary. -/
theorem primary_of_port_mem {pool : Pool N} {backend : Backend N}
    (hmem : backend ∈ pool.backends) (hport : backend.port ∈ pool.primaries) :
    backend.backup = false := by
  obtain ⟨primary, hprimary, hbackup, heq⟩ := mem_primaries.mp hport
  rw [← pool.separate primary hprimary backend hmem heq, hbackup]

/-! ## Operations -/

def empty : Pool N where
  backends := []
  separate := by simp
  gathered := by simp

/-- Part of a pool, in the order of the pool. -/
def part (pool : Pool N) (kept : List (Backend N)) (h : kept.Sublist pool.backends) : Pool N where
  backends := kept
  separate left hleft right hright :=
    pool.separate left (h.subset hleft) right (h.subset hright)
  gathered left middle right htriple := pool.gathered left middle right (htriple.trans h)

/-- A pool with a port that it did not have. -/
def append (pool : Pool N) (port : N) (h : port ∉ pool.ports) : Pool N where
  backends := pool.backends ++ [.primary port]
  separate left hleft right hright heq := by
    have hfresh : ∀ backend ∈ pool.backends, backend.port ≠ port :=
      fun backend hmem hport => h (List.mem_map.mpr ⟨backend, hmem, hport⟩)
    rcases List.mem_append.mp hleft with hleft | hleft <;>
      rcases List.mem_append.mp hright with hright | hright
    · exact pool.separate left hleft right hright heq
    · rw [List.mem_singleton.mp hright] at heq
      exact absurd heq (hfresh left hleft)
    · rw [List.mem_singleton.mp hleft] at heq
      exact absurd heq.symm (hfresh right hright)
    · rw [List.mem_singleton.mp hleft, List.mem_singleton.mp hright]
  gathered left middle right htriple hleft hright heq := by
    obtain ⟨olds, new, hsplit, holds, hnew⟩ := List.sublist_append_iff.mp htriple
    rcases List.sublist_singleton.mp hnew with rfl | rfl
    · rw [List.append_nil] at hsplit
      exact pool.gathered left middle right (hsplit ▸ holds) hleft hright heq
    · -- the last of the three is the new backend, and the first has another port
      rw [show [left, middle, right] = [left, middle] ++ [right] from rfl] at hsplit
      obtain ⟨hinit, hlast⟩ := List.append_inj' hsplit rfl
      have hmem : left ∈ pool.backends := holds.subset (hinit ▸ List.mem_cons_self)
      rw [List.singleton_inj.mp hlast] at heq
      exact absurd (List.mem_map.mpr ⟨left, hmem, heq⟩) h

/-- A pool can be swapped for ports of which it has none. A port that it lists twice
as a primary also prevents the swap: the second one meets the backup made of the
first. -/
def Accepts (pool : Pool N) (ports : List N) : Prop :=
  (∀ port ∈ pool.ports, port ∉ ports) ∧ pool.primaries.Nodup

def swap (pool : Pool N) (ports : List N) (h : pool.Accepts ports) : Pool N where
  backends := ports.map .primary ++ pool.primaries.map .fallback
  separate left hleft right hright heq := by
    have hdisjoint : ∀ port ∈ pool.primaries, port ∉ ports :=
      fun port hport => h.1 port (pool.primaries_sublist.subset hport)
    rcases List.mem_append.mp hleft with hleft | hleft <;>
      rcases List.mem_append.mp hright with hright | hright <;>
      obtain ⟨leftPort, hleftPort, rfl⟩ := List.mem_map.mp hleft <;>
      obtain ⟨rightPort, hrightPort, rfl⟩ := List.mem_map.mp hright
    · rfl
    · have hsame : leftPort = rightPort := heq
      exact absurd (hsame ▸ hleftPort) (hdisjoint rightPort hrightPort)
    · have hsame : leftPort = rightPort := heq
      exact absurd (hsame ▸ hrightPort) (hdisjoint leftPort hleftPort)
    · rfl
  gathered left middle right htriple _ hright _ := by
    obtain ⟨news, olds, hsplit, hnews, holds⟩ := List.sublist_append_iff.mp htriple
    -- a primary at the end of the three leaves no room for backups
    have holds_nil : olds = [] := by
      by_contra hne
      have hlast : right ∈ olds := by
        have hget : ([left, middle, right] : List (Backend N)).getLast? = olds.getLast? := by
          rw [hsplit, List.getLast?_append_of_ne_nil _ hne]
        exact List.mem_of_getLast? hget.symm
      obtain ⟨port, _, rfl⟩ := List.mem_map.mp (holds.subset hlast)
      cases hright
    rw [holds_nil, List.append_nil] at hsplit
    obtain ⟨port, _, rfl⟩ := List.mem_map.mp (hnews.subset (hsplit ▸ List.mem_cons_of_mem left
      List.mem_cons_self))
    rfl

variable [DecidableEq N]

instance (pool : Pool N) (ports : List N) : Decidable (pool.Accepts ports) :=
  inferInstanceAs (Decidable (_ ∧ _))

def add (pool : Pool N) (port : N) : Pool N :=
  if h : port ∈ pool.ports then pool else pool.append port h

/-- The deletion loop of the agent, which passes over the backend behind a removed
one. -/
def delete (pool : Pool N) (port : N) : Pool N :=
  pool.part (eraseSkipping (fun backend => decide (backend.port = port)) pool.backends)
    (eraseSkipping_sublist _ _)

/-! ## Distinct ports -/

theorem nodup_ports_add {pool : Pool N} (port : N) (h : pool.ports.Nodup) :
    (pool.add port).ports.Nodup := by
  unfold add
  split
  · exact h
  next hfresh =>
    have hports : (pool.append port hfresh).ports = pool.ports ++ [port] := by
      simp [ports, append]
    rw [hports, ← List.concat_eq_append]
    exact h.concat hfresh

theorem nodup_ports_delete {pool : Pool N} (port : N) (h : pool.ports.Nodup) :
    (pool.delete port).ports.Nodup :=
  h.sublist ((eraseSkipping_sublist _ _).map Backend.port)

omit [DecidableEq N]

theorem ports_swap (pool : Pool N) {ports : List N} (h : pool.Accepts ports) :
    (pool.swap ports h).ports = ports ++ pool.primaries := by
  simp [Pool.ports, swap, Function.comp_def]

/-- The backups are distinct in any case; they are so before the swap is accepted. -/
theorem nodup_ports_swap (pool : Pool N) {ports : List N} (h : pool.Accepts ports) :
    (pool.swap ports h).ports.Nodup ↔ ports.Nodup := by
  rw [ports_swap, List.nodup_append]
  refine ⟨fun hnodup => hnodup.1, fun hnodup => ⟨hnodup, h.2, ?_⟩⟩
  rintro new hnew old hold rfl
  exact h.1 new (pool.primaries_sublist.subset hold) hnew

/-! ## Primary backends -/

theorem primaries_swap (pool : Pool N) {ports : List N} (h : pool.Accepts ports) :
    (pool.swap ports h).primaries = ports := by
  simp [primaries, swap, List.filter_map, Function.comp_def]

variable [DecidableEq N]

theorem mem_primaries_add (pool : Pool N) (port : N) (hport : port ∉ pool.ports) :
    port ∈ (pool.add port).primaries := by
  rw [add, dif_neg hport]
  exact mem_primaries.mpr ⟨.primary port, by simp [append], rfl, rfl⟩

theorem primaries_subset_add (pool : Pool N) (port : N) :
    pool.primaries ⊆ (pool.add port).primaries := by
  unfold add
  split
  · exact List.Subset.refl _
  next hfresh =>
    intro other hother
    obtain ⟨backend, hmem, hbackend⟩ := mem_primaries.mp hother
    exact mem_primaries.mpr ⟨backend, List.mem_append_left _ hmem, hbackend⟩

/-- What deletion leaves of a pool. -/
theorem mem_delete_of_ne {pool : Pool N} {port : N} {backend : Backend N}
    (hmem : backend ∈ pool.backends) (hne : backend.port ≠ port) :
    backend ∈ (pool.delete port).backends :=
  mem_eraseSkipping_of_not_match hmem (by simpa using hne)

theorem mem_of_mem_delete {pool : Pool N} {port : N} {backend : Backend N}
    (hmem : backend ∈ (pool.delete port).backends) : backend ∈ pool.backends :=
  (eraseSkipping_sublist _ _).subset hmem

/-- The only primary is deleted, whatever stands around it. -/
theorem primaries_delete_of_single {pool : Pool N} {port : N}
    (h : pool.primaries = [port]) : (pool.delete port).primaries = [] := by
  have hmatch : ∀ backend ∈ pool.backends,
      (backend.port = port ↔ (!backend.backup) = true) := by
    intro backend hmem
    rw [Bool.not_eq_true']
    refine ⟨fun hport => ?_, fun hbackup => ?_⟩
    · exact pool.primary_of_port_mem hmem (by simp [h, hport])
    · simpa [h] using mem_primaries.mpr ⟨backend, hmem, hbackup, rfl⟩
  have hone : (pool.backends.filter fun backend => !backend.backup).length ≤ 1 := by
    rw [← List.length_map Backend.port]
    exact (congrArg List.length h).le
  -- two neighbours with the port would be two primaries
  have hchain : pool.backends.IsChain fun left right =>
      ¬(decide (left.port = port) = true ∧ decide (right.port = port) = true) := by
    refine List.Pairwise.isChain ?_
    have hpairwise : (pool.backends.filter fun backend => !backend.backup).Pairwise
        fun _ _ => False := by
      cases hfilter : pool.backends.filter fun backend => !backend.backup with
      | nil => exact List.Pairwise.nil
      | cons first rest =>
          rw [hfilter] at hone
          have hrest : rest = [] := by simpa using hone
          simp [hrest]
    refine (List.pairwise_filter.mp hpairwise).imp_of_mem ?_
    rintro left right hleft hright hnot ⟨hleftPort, hrightPort⟩
    exact hnot ((hmatch left hleft).mp (of_decide_eq_true hleftPort))
      ((hmatch right hright).mp (of_decide_eq_true hrightPort))
  refine List.eq_nil_iff_forall_not_mem.mpr fun other hother => ?_
  obtain ⟨backend, hkept, hbackup, -⟩ := mem_primaries.mp hother
  have hport : backend.port = port :=
    (hmatch backend (mem_of_mem_delete hkept)).mpr (by simp [hbackup])
  have hfilter : backend ∈ pool.backends.filter fun backend => !decide (backend.port = port) := by
    rw [← (eraseSkipping_eq_filter_iff _ _).mpr hchain]
    exact hkept
  simp [hport] at hfilter

/-- A primary port that is listed twice survives its deletion once: nothing but
primaries stands between the two. -/
theorem primaries_delete_of_repeated {pool : Pool N} {port : N}
    (hall : ∀ other ∈ pool.primaries, other = port) (htwo : 2 ≤ pool.primaries.length) :
    port ∈ (pool.delete port).primaries := by
  have hport : ∀ backend ∈ pool.backends, backend.backup = false → backend.port = port :=
    fun backend hmem hbackup => hall _ (mem_primaries.mpr ⟨backend, hmem, hbackup, rfl⟩)
  obtain ⟨left, right, hpair⟩ : ∃ left right,
      [left, right].Sublist (pool.backends.filter fun backend => !backend.backup) := by
    rw [primaries, List.length_map] at htwo
    cases hfilter : pool.backends.filter fun backend => !backend.backup with
    | nil => simp [hfilter] at htwo
    | cons left rest =>
        cases rest with
        | nil => simp [hfilter] at htwo
        | cons right rest => exact ⟨left, right, by simp⟩
  have hprimary : ∀ backend ∈ [left, right], backend.backup = false := fun backend hmem => by
    simpa using (List.mem_filter.mp (hpair.subset hmem)).2
  have hmatch : ∀ backend ∈ [left, right], backend.port = port := fun backend hmem =>
    hport backend (List.mem_of_mem_filter (hpair.subset hmem)) (hprimary backend hmem)
  obtain ⟨before, after, hsplit, hleft, hright⟩ :=
    List.cons_sublist_iff.mp (hpair.trans List.filter_sublist)
  obtain ⟨init, middle, rfl⟩ := List.append_of_mem hleft
  have hsecond : right ∈ middle ++ after :=
    List.mem_append_right middle (List.singleton_sublist.mp hright)
  obtain ⟨next, rest, hnext⟩ := List.exists_cons_of_ne_nil (List.ne_nil_of_mem hsecond)
  have hbackends : pool.backends = init ++ left :: next :: rest := by
    rw [hsplit, List.append_assoc, List.cons_append, hnext]
  -- the backend behind the first one is the second or stands between the two
  have hnextMatch : next.port = port := by
    rw [hnext] at hsecond
    rcases List.mem_cons.mp hsecond with rfl | hrest
    · exact hmatch right (by simp)
    · have htriple : [left, next, right].Sublist pool.backends := by
        rw [hbackends]
        exact (((List.singleton_sublist.mpr hrest).cons_cons next).cons_cons left).trans
          (List.sublist_append_right init _)
      have hbackup := pool.gathered left next right htriple (hprimary left (by simp))
        (hprimary right (by simp)) (by rw [hmatch left (by simp), hmatch right (by simp)])
      exact hport next (htriple.subset (by simp)) hbackup
  obtain ⟨backend, hkept, hfound⟩ := @exists_match_of_neighbours (Backend N)
    (fun backend => decide (backend.port = port)) init rest left next
    (decide_eq_true (hmatch left (by simp))) (decide_eq_true hnextMatch)
  rw [← hbackends] at hkept
  have hsame : backend.port = port := of_decide_eq_true hfound
  refine mem_primaries.mpr ⟨backend, hkept, ?_, hsame⟩
  refine pool.primary_of_port_mem (mem_of_mem_delete hkept) ?_
  rw [hsame, ← hmatch left (by simp)]
  exact mem_primaries.mpr ⟨left, List.mem_of_mem_filter (hpair.subset (by simp)),
    hprimary left (by simp), rfl⟩

/-- A pool of one backend is empty after its deletion. -/
theorem delete_single {pool : Pool N} {port : N} (hsingle : pool.primaries = [port])
    (hbackup : ¬pool.hasBackup) : (pool.delete port).backends = [] := by
  refine List.eq_nil_iff_forall_not_mem.mpr fun backend hmem => ?_
  cases hflag : backend.backup with
  | true => exact hbackup ⟨backend, mem_of_mem_delete hmem, hflag⟩
  | false =>
      have hprimary := mem_primaries.mpr ⟨backend, hmem, hflag, rfl⟩
      rw [primaries_delete_of_single hsingle] at hprimary
      cases hprimary

/-- Deletion takes the last primary away from the backups exactly if it was asked to
delete the port of the only primary. -/
theorem delete_usable_iff {pool : Pool N} (port : N) (husable : pool.primaries ≠ []) :
    ((pool.delete port).backends = [] ∨ (pool.delete port).primaries ≠ []) ↔
      ¬(pool.primaries = [port] ∧ pool.hasBackup) := by
  constructor
  · rintro hleft ⟨hsingle, backend, hmem, hbackup⟩
    have hne : backend.port ≠ port := by
      intro hport
      have hprimary := pool.primary_of_port_mem hmem (by simp [hsingle, hport])
      rw [hbackup] at hprimary
      cases hprimary
    rcases hleft with hempty | hprimaries
    · exact absurd (mem_delete_of_ne hmem hne) (by simp [hempty])
    · exact hprimaries (primaries_delete_of_single hsingle)
  · intro hnot
    by_cases hall : ∀ other ∈ pool.primaries, other = port
    · by_cases htwo : 2 ≤ pool.primaries.length
      · exact Or.inr (List.ne_nil_of_mem (primaries_delete_of_repeated hall htwo))
      · obtain ⟨head, hhead⟩ : ∃ head, pool.primaries = [head] := by
          rw [← List.length_eq_one_iff]
          have := List.length_pos_iff.mpr husable
          omega
        have hsingle : pool.primaries = [port] := by rw [hhead, hall head (by simp [hhead])]
        exact Or.inl (delete_single hsingle fun hbackup => hnot ⟨hsingle, hbackup⟩)
    · obtain ⟨other, hother, hne⟩ : ∃ other ∈ pool.primaries, other ≠ port := by
        simpa using hall
      obtain ⟨backend, hmem, hbackup, rfl⟩ := mem_primaries.mp hother
      exact Or.inr (List.ne_nil_of_mem
        (mem_primaries.mpr ⟨backend, mem_delete_of_ne hmem hne, hbackup, rfl⟩))

end Pool

/-! ## Requests

An application without a pool answers as one with an empty pool would, but the
deletion of a port leaves no empty pool behind. -/

/-- What a call asks of the pool of its application. -/
inductive Request (N : Type) where
  | add (port : N)
  | delete (port : N)
  | swap (ports : List N)
  | refused

namespace Request

variable {N : Type} [DecidableEq N]

def apply : Request N → Option (Pool N) → Option (Pool N)
  | .add port, found => some ((found.getD .empty).add port)
  | .delete _, none => none
  | .delete port, some pool =>
      if (pool.delete port).backends.isEmpty then none else some (pool.delete port)
  | .swap ports, found =>
      if h : (found.getD .empty).Accepts ports then some ((found.getD .empty).swap ports h)
      else found
  | .refused, found => found

/-- A swap brings in distinct ports, or it is refused for a port that is in use. -/
def KeepsDistinct : Request N → Option (Pool N) → Prop
  | .swap ports, found => ports.Nodup ∨ ∃ port ∈ (found.getD .empty).ports, port ∈ ports
  | _, _ => True

theorem keepsDistinct_iff (request : Request N) {found : Option (Pool N)}
    (h : ∀ pool ∈ found, pool.ports.Nodup) :
    (∀ pool ∈ request.apply found, pool.ports.Nodup) ↔ request.KeepsDistinct found := by
  have hfound : (found.getD .empty).ports.Nodup := by
    cases found with
    | none => exact List.nodup_nil
    | some pool => exact h pool rfl
  cases request with
  | add port =>
      refine iff_of_true ?_ trivial
      rintro _ ⟨⟩
      exact Pool.nodup_ports_add port hfound
  | delete port =>
      refine iff_of_true ?_ trivial
      cases found with
      | none => exact h
      | some pool =>
          intro left hleft
          simp only [apply, Option.mem_def, Option.ite_none_left_eq_some,
            Option.some.injEq] at hleft
          obtain ⟨-, rfl⟩ := hleft
          exact Pool.nodup_ports_delete port hfound
  | swap ports =>
      simp only [apply, KeepsDistinct]
      by_cases haccepts : (found.getD .empty).Accepts ports
      · have hnone : ¬∃ port ∈ (found.getD .empty).ports, port ∈ ports := by
          rintro ⟨port, hold, hnew⟩
          exact haccepts.1 port hold hnew
        simp [haccepts, Pool.nodup_ports_swap, hnone]
      · -- distinct ports leave a shared port as the only reason to refuse
        have hshared : ∃ port ∈ (found.getD .empty).ports, port ∈ ports := by
          by_contra hnone
          refine haccepts ⟨?_, hfound.sublist (Pool.primaries_sublist _)⟩
          intro port hold hnew
          exact hnone ⟨port, hold, hnew⟩
        rw [dif_neg haccepts]
        exact iff_of_true h (Or.inr hshared)
  | refused => exact iff_of_true h trivial

/-- A swap brings in a port, or it is refused for a repeated one; a deletion does not
name the only primary of a pool with backups. -/
def KeepsUsable : Request N → Option (Pool N) → Prop
  | .swap ports, found => ports ≠ [] ∨ ¬(found.getD .empty).primaries.Nodup
  | .delete port, some pool => ¬(pool.primaries = [port] ∧ pool.hasBackup)
  | _, _ => True

theorem keepsUsable_iff (request : Request N) {found : Option (Pool N)}
    (h : ∀ pool ∈ found, pool.primaries ≠ []) :
    (∀ pool ∈ request.apply found, pool.primaries ≠ []) ↔ request.KeepsUsable found := by
  cases request with
  | add port =>
      refine iff_of_true ?_ trivial
      rintro _ ⟨⟩
      cases found with
      | none => exact List.ne_nil_of_mem (Pool.empty.mem_primaries_add port List.not_mem_nil)
      | some pool =>
          obtain ⟨primary, hprimary⟩ := List.exists_mem_of_ne_nil _ (h pool rfl)
          exact List.ne_nil_of_mem (pool.primaries_subset_add port hprimary)
  | delete port =>
      cases found with
      | none => exact iff_of_true h trivial
      | some pool =>
          rw [KeepsUsable, ← Pool.delete_usable_iff port (h pool rfl)]
          simp only [apply, Option.mem_def, Option.ite_none_left_eq_some, List.isEmpty_iff]
          by_cases hempty : (pool.delete port).backends = []
          · simp [hempty]
          · simp [hempty]
  | swap ports =>
      simp only [apply, KeepsUsable]
      by_cases haccepts : (found.getD .empty).Accepts ports
      · simp [haccepts, Pool.primaries_swap, haccepts.2]
      · rw [dif_neg haccepts]
        refine iff_of_true h ?_
        by_contra hnot
        obtain ⟨rfl, hnodup⟩ : ports = [] ∧ (found.getD .empty).primaries.Nodup := by
          simpa using hnot
        exact haccepts ⟨fun _ _ => List.not_mem_nil, hnodup⟩
  | refused => exact iff_of_true h trivial

end Request

end NginxInterface
