import Unleashed.Kernel.Cyclic.Basic

/-!
# The heap of a CPU

What `cyclic_upheap` and `cyclic_downheap` do to the heap, and the invariant of a CPU that every
operation keeps.
-/

namespace Unleashed.Kernel

open Lib Lib.Heap Function Equiv

lemma swapEntries_eq (heap : Nat → Nat) (i j : Nat) : swapEntries heap i j = heap ∘ swap i j := by
  funext k
  unfold swapEntries
  rcases eq_or_ne k j with rfl | hj
  · rw [update_self, comp_apply, swap_apply_right]
  rw [update_of_ne hj]
  rcases eq_or_ne k i with rfl | hi
  · rw [update_self, comp_apply, swap_apply_left]
  · rw [update_of_ne hi, comp_apply, swap_apply_of_ne_of_ne hi hj]

section
variable {expire : Nat → Int} {n : Nat}

/-- **`cyclic_upheap`** permutes the positions up to its start. -/
theorem upheapLoop_spec (i : Nat) : ∀ (heap : Nat → Nat), i < n → UpHole (expire ∘ heap) n i →
    ∃ p : Equiv.Perm Nat, (upheapLoop expire heap i).1 = heap ∘ p ∧ Fixes p n ∧
      Ordered (expire ∘ heap ∘ p) n ∧ (∀ j, i < j → p j = j) ∧
      ((upheapLoop expire heap i).2 = true → p 0 = i) ∧ ((upheapLoop expire heap i).2 = false → 0 < i ∧ p 0 = 0) := by
  induction i using Nat.strong_induction_on with
  | _ i ih =>
    intro heap hi hole
    rw [upheapLoop]
    split
    next h0 =>
      subst h0
      exact ⟨1, rfl, fixes_one, hole.finish fun h => absurd h (lt_irrefl 0), fun _ _ => rfl, fun _ => rfl,
        fun h => absurd h (by simp)⟩
    next h0 =>
      have hpos : 0 < i := Nat.pos_of_ne_zero h0
      have hp := parent_lt hpos
      dsimp only
      split
      next hge =>
        exact ⟨1, rfl, fixes_one, hole.finish fun _ => hge, fun _ _ => rfl, fun h => absurd h (by simp),
          fun _ => ⟨hpos, rfl⟩⟩
      next hlt =>
        rw [swapEntries_eq]
        obtain ⟨p, heq, hfix, hord, habove, htrue, hfalse⟩ := ih (parent i) hp (heap ∘ swap (parent i) i)
          (hp.trans hi) (hole.swap hpos hi (not_le.1 hlt))
        refine ⟨swap (parent i) i * p, heq, (fixes_swap (hp.trans hi) hi).mul hfix, hord, ?_, ?_, ?_⟩
        · intro j hj
          rw [Equiv.Perm.mul_apply, habove j (hp.trans hj), swap_apply_of_ne_of_ne (by omega) (by omega)]
        · intro hroot
          rw [Equiv.Perm.mul_apply, htrue hroot, swap_apply_left]
        · intro hroot
          obtain ⟨hpp, h00⟩ := hfalse hroot
          refine ⟨hpos, ?_⟩
          rw [Equiv.Perm.mul_apply, h00, swap_apply_of_ne_of_ne (by omega) (by omega)]

/-- **`cyclic_downheap`** orders the heap by a permutation of the positions from its start on. -/
theorem downheapLoop_spec (k : Nat) : ∀ (heap : Nat → Nat) (i : Nat), n - i ≤ k → i < n → DownHole (expire ∘ heap) n i →
    ∃ p : Equiv.Perm Nat, downheapLoop expire n heap i = heap ∘ p ∧ Fixes p n ∧
      Ordered (expire ∘ heap ∘ p) n ∧ ∀ j, j < i → p j = j := by
  induction k with
  | zero => intro heap i hk hi; omega
  | succ k ih =>
    intro heap i hk hi hole
    have child : ∀ j, 0 < j → j < n → parent j = i → j = (i + 1) * 2 - 1 ∨ j = (i + 1) * 2 := by
      intro j _ _ hp
      unfold parent at hp
      omega
    -- the element changes places with its earliest child `c` and goes on there
    have step : ∀ c, 0 < c → c < n → parent c = i → (∀ j, 0 < j → j < n → parent j = i → expire (heap c) ≤ expire (heap j)) →
        expire (heap c) < expire (heap i) →
        ∃ p : Equiv.Perm Nat, downheapLoop expire n (swapEntries heap c i) c = heap ∘ p ∧ Fixes p n ∧
          Ordered (expire ∘ heap ∘ p) n ∧ ∀ j, j < i → p j = j := by
      intro c hc0 hc hpc hmin hlt
      have hic : i < c := hpc ▸ parent_lt hc0
      rw [swapEntries_eq]
      obtain ⟨p, heq, hfix, hord, hbelow⟩ := ih (heap ∘ swap c i) c (by omega) hc (hole.swap hc0 hc hpc hmin hlt)
      refine ⟨swap c i * p, heq, (fixes_swap hc hi).mul hfix, hord, fun j hj => ?_⟩
      rw [Equiv.Perm.mul_apply, hbelow j (hj.trans hic), swap_apply_of_ne_of_ne (by omega) (by omega)]
    have stop : (∀ j, 0 < j → j < n → parent j = i → expire (heap i) ≤ expire (heap j)) →
        ∃ p : Equiv.Perm Nat, heap = heap ∘ p ∧ Fixes p n ∧ Ordered (expire ∘ heap ∘ p) n ∧ ∀ j, j < i → p j = j :=
      fun h => ⟨1, rfl, fixes_one, hole.finish h, fun _ _ => rfl⟩
    rw [downheapLoop]
    dsimp only
    split
    next hleaf =>
      refine stop fun j h0 hj hp => ?_
      have := child j h0 hj hp
      omega
    next hleaf =>
      have hpl : parent ((i + 1) * 2 - 1) = i := by unfold parent; omega
      have hpr : parent ((i + 1) * 2) = i := by unfold parent; omega
      split
      next hright =>
        have hmin : ∀ j, 0 < j → j < n → parent j = i → expire (heap ((i + 1) * 2)) ≤ expire (heap j) := by
          intro j h0 hj hp
          rcases child j h0 hj hp with rfl | rfl
          · exact hright.2.le
          · exact le_rfl
        split
        next hle => exact stop fun j h0 hj hp => hle.trans (hmin j h0 hj hp)
        next hlt => exact step _ (by omega) hright.1 hpr hmin (not_le.1 hlt)
      next hleft =>
        have hmin : ∀ j, 0 < j → j < n → parent j = i → expire (heap ((i + 1) * 2 - 1)) ≤ expire (heap j) := by
          intro j h0 hj hp
          rcases child j h0 hj hp with rfl | rfl
          · exact le_rfl
          · exact not_lt.1 fun hlt => hleft ⟨hj, hlt⟩
        split
        next hle => exact stop fun j h0 hj hp => hle.trans (hmin j h0 hj hp)
        next hlt => exact step _ (by omega) (by omega) hpl hmin (not_le.1 hlt)

end

/-- The heap is a permutation of the indices: the cyclics in use, then the free ones. -/
structure CycCpu.Indexed (cpu : CycCpu) : Prop where
  size : ∃ k, cpu.cypSize = 2 ^ k
  le : cpu.cypNelems ≤ cpu.cypSize
  maps : ∀ i < cpu.cypSize, cpu.cypHeap i < cpu.cypSize
  inj : ∀ i < cpu.cypSize, ∀ j < cpu.cypSize, cpu.cypHeap i = cpu.cypHeap j → i = j
  live : ∀ i < cpu.cypSize, ((cpu.cypCyclics (cpu.cypHeap i)).cyFlags.free = false ↔ i < cpu.cypNelems)
  interval : ∀ i < cpu.cypNelems, 0 < (cpu.cypCyclics (cpu.cypHeap i)).cyInterval
  flags : ∀ ndx, (cpu.cypCyclics ndx).cyFlags.free = true → (cpu.cypCyclics ndx).cyFlags = cyfFree
  pend : ∀ ndx, (cpu.cypCyclics ndx).cyFlags.free = true ∨ (cpu.cypCyclics ndx).cyLevel = .high →
    (cpu.cypCyclics ndx).cyPend = 0

/-- What the timer is programmed to. -/
def CycCpu.Programmed (cpu : CycCpu) : Prop :=
  cpu.cypState ≠ .suspended → cpu.timer = if cpu.cypNelems = 0 then none else some (cpu.expireAt 0)

/-- **The invariant of a CPU.** -/
structure CycCpu.Valid (cpu : CycCpu) : Prop where
  indexed : cpu.Indexed
  ordered : Ordered cpu.expireAt cpu.cypNelems
  programmed : cpu.Programmed

section
variable {cpu : CycCpu}

lemma CycCpu.Indexed.permute (h : cpu.Indexed) {p : Equiv.Perm Nat} (hp : Fixes p cpu.cypNelems) :
    ({ cpu with cypHeap := cpu.cypHeap ∘ p } : CycCpu).Indexed := by
  have hsize : ∀ i, p i < cpu.cypSize ↔ i < cpu.cypSize :=
    fun i => Fixes.lt_iff fun j hj => hp j (h.le.trans hj)
  refine ⟨h.size, h.le, fun i hi => h.maps _ ((hsize i).2 hi), fun i hi j hj heq => ?_, fun i hi => ?_, fun i hi => ?_,
    h.flags, h.pend⟩
  · exact p.injective (h.inj _ ((hsize i).2 hi) _ ((hsize j).2 hj) heq)
  · exact (h.live _ ((hsize i).2 hi)).trans hp.lt_iff
  · exact h.interval _ (hp.lt_iff.2 hi)

variable {ndx : Nat}

/-- A change of the expiration time, or of the pending calls, moves nothing. -/
lemma CycCpu.Indexed.setCyclic (h : cpu.Indexed) {c : Cyclic}
    (hflags : c.cyFlags = (cpu.cypCyclics ndx).cyFlags) (hint : c.cyInterval = (cpu.cypCyclics ndx).cyInterval)
    (hpend : c.cyFlags.free = true ∨ c.cyLevel = .high → c.cyPend = 0) : (cpu.setCyclic ndx c).Indexed := by
  have hget : ∀ j, ((cpu.setCyclic ndx c).cypCyclics j).cyFlags = (cpu.cypCyclics j).cyFlags ∧
      ((cpu.setCyclic ndx c).cypCyclics j).cyInterval = (cpu.cypCyclics j).cyInterval := by
    intro j
    unfold CycCpu.setCyclic
    rcases eq_or_ne j ndx with rfl | hne
    · dsimp only
      rw [update_self]
      exact ⟨hflags, hint⟩
    · dsimp only
      rw [update_of_ne hne]
      exact ⟨rfl, rfl⟩
  refine { h with live := fun i hi => ?_, interval := fun i hi => ?_, flags := fun j hj => ?_, pend := fun j hj => ?_ }
  · rw [(hget _).1]; exact h.live i hi
  · rw [(hget _).2]; exact h.interval i hi
  · rw [(hget j).1] at hj ⊢; exact h.flags j hj
  · unfold CycCpu.setCyclic at hj ⊢
    dsimp only at hj ⊢
    rcases eq_or_ne j ndx with rfl | hne
    · rw [update_self] at hj ⊢; exact hpend hj
    · rw [update_of_ne hne] at hj ⊢; exact h.pend j hj

lemma CycCpu.Indexed.position (h : cpu.Indexed) (hndx : ndx < cpu.cypSize)
    (hlive : (cpu.cypCyclics ndx).cyFlags.free = false) : ∃ i < cpu.cypNelems, cpu.cypHeap i = ndx := by
  have hsurj : Set.SurjOn cpu.cypHeap (Finset.range cpu.cypSize) (Finset.range cpu.cypSize) :=
    Finset.surjOn_of_injOn_of_card_le cpu.cypHeap (fun i hi => by simpa using h.maps i (by simpa using hi))
      (fun i hi j hj heq => h.inj i (by simpa using hi) j (by simpa using hj) heq) le_rfl
  obtain ⟨i, hi, rfl⟩ := hsurj (show ndx ∈ (Finset.range cpu.cypSize : Set Nat) by simpa using hndx)
  have hi' : i < cpu.cypSize := by simpa using hi
  exact ⟨i, (h.live i hi').1 hlive, rfl⟩

end

end Unleashed.Kernel
