import Mathlib

/-!
# Tables of buckets

A hash table is a list of entries for each index below its size. An entry is pushed on its bucket or taken out of it,
and all of them can be pushed on the buckets of another table.
-/

namespace Unleashed.Lib

open Function Finset

variable {i : Nat}

/-- A sum with one changed term. -/
lemma sum_update_range {M : Type} [AddCommMonoid M] (f : Nat → M) {n : Nat} (hi : i < n) (b : M) :
    ∑ j ∈ Finset.range n, update f i b j + f i = ∑ j ∈ Finset.range n, f j + b := by
  rw [← add_sum_erase _ _ (mem_range.2 hi), ← add_sum_erase _ f (mem_range.2 hi),
    update_self, sum_congr rfl fun j hj => update_of_ne (mem_erase.1 hj).1 ..]
  abel

/-- The table of `n` buckets holds `s`, each in the bucket of its index. -/
structure Buckets {α : Type} (index : α → Nat) (n : Nat) (tab : Nat → List α) (s : Multiset α) : Prop where
  place : ∀ i < n, ∀ a ∈ tab i, index a = i
  total : ∑ i ∈ Finset.range n, (tab i : Multiset α) = s

/-- Taking the first match out of a list. -/
lemma perm_cons_eraseP {α : Type} {p : α → Bool} {l : List α} {a : α} (h : l.find? p = some a) : (a :: l.eraseP p).Perm l := by
  induction l with
  | nil => cases h
  | cons b l ih =>
    cases hb : p b with
    | true =>
      rw [List.find?_cons_of_pos hb] at h
      cases h
      rw [List.eraseP_cons_of_pos hb]
    | false =>
      have hb' : ¬ p b = true := by simp [hb]
      rw [List.find?_cons_of_neg hb'] at h
      rw [List.eraseP_cons_of_neg hb']
      exact (List.Perm.swap b a _).trans ((ih h).cons b)

/-- Put an entry on its bucket. -/
def pushBucket {α : Type} (index : α → Nat) (tab : Nat → List α) (a : α) : Nat → List α :=
  Function.update tab (index a) (a :: tab (index a))

/-- Pushing puts the entries of a bucket in the opposite order. -/
lemma foldl_pushBucket_apply {α : Type} (index : α → Nat) (l : List α) (tab : Nat → List α) (j : Nat) :
    l.foldl (pushBucket index) tab j = (l.filter fun a => index a = j).reverse ++ tab j := by
  induction l generalizing tab with
  | nil => rfl
  | cons a l ih =>
    rw [List.foldl_cons, ih, pushBucket]
    rcases eq_or_ne (index a) j with rfl | hne
    · rw [update_self, List.filter_cons_of_pos (by simp), List.reverse_cons, List.append_assoc]
      rfl
    · rw [update_of_ne hne.symm, List.filter_cons_of_neg (by simpa using hne)]

namespace Buckets

variable {α : Type} {index : α → Nat} {n : Nat} {tab : Nat → List α} {s : Multiset α}

lemma empty : Buckets index n (fun _ => []) 0 :=
  ⟨fun _ _ _ ha => absurd ha List.not_mem_nil, sum_const_zero⟩

variable {a : α}

lemma mem_of_bucket (h : Buckets index n tab s) (hi : i < n) (ha : a ∈ tab i) : a ∈ s := by
  rw [← h.total]
  exact Multiset.mem_of_le (single_le_sum (f := fun i => (tab i : Multiset α)) (fun _ _ => Multiset.zero_le _)
    (mem_range.2 hi)) (Multiset.mem_coe.2 ha)

/-- An entry is found in its own bucket. -/
lemma mem_bucket (h : Buckets index n tab s) (ha : a ∈ s) : index a < n ∧ a ∈ tab (index a) := by
  rw [← h.total] at ha
  obtain ⟨i, hi, ha⟩ := Multiset.mem_sum.1 ha
  have hi := mem_range.1 hi
  have hplace := h.place i hi a (Multiset.mem_coe.1 ha)
  rw [hplace]
  exact ⟨hi, Multiset.mem_coe.1 ha⟩

variable {l : List α}

section
variable (h : Buckets index n tab s)
include h

/-- A bucket with other entries. -/
lemma replace (hi : i < n) (hplace : ∀ a ∈ l, index a = i)
    {s' : Multiset α} (hs : s' + (tab i : Multiset α) = s + (l : Multiset α)) : Buckets index n (update tab i l) s' := by
  refine ⟨fun j hj a ha => ?_, ?_⟩
  · rcases eq_or_ne j i with rfl | hne
    · rw [update_self] at ha
      exact hplace a ha
    · rw [update_of_ne hne] at ha
      exact h.place j hj a ha
  · have hsum := sum_update_range (fun j => (tab j : Multiset α)) hi (l : Multiset α)
    rw [h.total, ← hs] at hsum
    refine add_right_cancel (Eq.trans ?_ hsum)
    congr 1
    refine sum_congr rfl fun j _ => ?_
    rcases eq_or_ne j i with rfl | hne
    · rw [update_self, update_self]
    · rw [update_of_ne hne, update_of_ne hne]

lemma push (ha : index a < n) : Buckets index n (pushBucket index tab a) (a ::ₘ s) := by
  refine h.replace ha (fun b hb => ?_) ?_
  · rcases List.mem_cons.1 hb with rfl | hb
    · rfl
    · exact h.place _ ha b hb
  · rw [← Multiset.cons_coe, Multiset.cons_add, Multiset.add_cons]

/-- An entry less in a bucket. -/
lemma take (hi : i < n) (hl : (a :: l).Perm (tab i)) : ∃ s', s = a ::ₘ s' ∧ Buckets index n (update tab i l) s' := by
  obtain ⟨s', rfl⟩ := Multiset.exists_cons_of_mem (h.mem_of_bucket hi (hl.subset List.mem_cons_self))
  refine ⟨s', rfl, h.replace hi (fun b hb => h.place i hi b (hl.subset (List.mem_cons_of_mem a hb))) ?_⟩
  rw [← Multiset.coe_eq_coe.2 hl, ← Multiset.cons_coe, Multiset.add_cons, Multiset.cons_add]

/-- All entries of a list are pushed. -/
lemma foldl_push (hl : ∀ a ∈ l, index a < n) : Buckets index n (l.foldl (pushBucket index) tab) (s + (l : Multiset α)) := by
  induction l generalizing tab s with
  | nil => simpa using h
  | cons a l ih =>
    have hpush := ih (h.push (hl a List.mem_cons_self)) fun b hb => hl b (List.mem_cons_of_mem a hb)
    rwa [Multiset.cons_add, ← Multiset.add_cons, Multiset.cons_coe] at hpush

/-- The entries with a property that fixes their bucket. -/
lemma filter_flatMap {p : α → Bool} (hi : i < n) (hp : ∀ a, p a = true → index a = i) :
    ((List.range n).flatMap tab).filter p = (tab i).filter p := by
  have hother : ∀ j < n, j ≠ i → (tab j).filter p = [] := by
    intro j hj hne
    refine List.filter_eq_nil_iff.2 fun a ha hpa => hne ?_
    rw [← h.place j hj a ha, hp a hpa]
  clear h
  induction n with
  | zero => exact absurd hi (Nat.not_lt_zero i)
  | succ n ih =>
    rw [List.range_succ, List.flatMap_append, List.filter_append, List.flatMap_singleton]
    rcases Nat.lt_succ_iff_lt_or_eq.1 hi with hlt | rfl
    · rw [ih hlt fun j hj => hother j (Nat.lt_succ_of_lt hj), hother n (Nat.lt_succ_self n) hlt.ne', List.append_nil]
    · have hbefore : ((List.range i).flatMap tab).filter p = [] := by
        rw [List.filter_flatMap, List.flatMap_eq_nil_iff]
        exact fun j hj => hother j (Nat.lt_succ_of_lt (List.mem_range.1 hj)) (List.mem_range.1 hj).ne
      rw [hbefore, List.nil_append]

/-- The entries of all buckets in order. -/
lemma flatMap_eq : (((List.range n).flatMap tab : List α) : Multiset α) = s := by
  rw [← h.total]
  clear h
  induction n with
  | zero => rfl
  | succ n ih =>
    rw [List.range_succ, List.flatMap_append, sum_range_succ, ← ih, ← Multiset.coe_add]
    simp

end

end Buckets

end Unleashed.Lib
