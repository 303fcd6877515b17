import Mathlib

/-!
# Binary heaps in an array

`f i` is the key at position `i`. A sift moves one element by swaps; `UpHole` and `DownHole` say what holds while it
may still be out of order with its parent, respectively its children.
-/

namespace Unleashed.Lib.Heap

variable {α K : Type} [LinearOrder K]

/-- The parent of position `i`; position 0 has none. -/
def parent (i : Nat) : Nat := (i - 1) / 2

/-- Every element is at or after its parent. -/
def Ordered (f : Nat → K) (n : Nat) : Prop := ∀ i, 0 < i → i < n → f (parent i) ≤ f i

/-- In order but for the element at `i` and its parent. -/
structure UpHole (f : Nat → K) (n i : Nat) : Prop where
  others : ∀ j, 0 < j → j < n → j ≠ i → f (parent j) ≤ f j
  across : 0 < i → ∀ j, 0 < j → j < n → parent j = i → f (parent i) ≤ f j

/-- In order but for the element at `i` and its children. -/
structure DownHole (f : Nat → K) (n i : Nat) : Prop where
  others : ∀ j, 0 < j → j < n → parent j ≠ i → f (parent j) ≤ f j
  across : 0 < i → ∀ j, 0 < j → j < n → parent j = i → f (parent i) ≤ f j

/-- A permutation of the first `n` positions. -/
def Fixes (p : Equiv.Perm Nat) (n : Nat) : Prop := ∀ i, n ≤ i → p i = i

variable {f : Nat → K} {n i : Nat}

lemma parent_lt (h : 0 < i) : parent i < i := by unfold parent; omega

/-- The root is the least element. -/
lemma Ordered.root_le (h : Ordered f n) : ∀ i, i < n → f 0 ≤ f i := by
  intro i
  induction i using Nat.strong_induction_on with
  | _ i ih =>
    intro hi
    rcases Nat.eq_zero_or_pos i with rfl | hpos
    · exact le_rfl
    · have hp := parent_lt hpos
      exact (ih (parent i) hp (hp.trans hi)).trans (h i hpos hi)

lemma UpHole.finish (h : UpHole f n i) (hi : 0 < i → f (parent i) ≤ f i) : Ordered f n := by
  intro j h0 hj
  rcases eq_or_ne j i with rfl | hne
  · exact hi h0
  · exact h.others j h0 hj hne

lemma DownHole.finish (h : DownHole f n i) (hi : ∀ j, 0 < j → j < n → parent j = i → f i ≤ f j) : Ordered f n := by
  intro j h0 hj
  rcases eq_or_ne (parent j) i with hp | hne
  · rw [hp]; exact hi j h0 hj hp
  · exact h.others j h0 hj hne

/-- A heap with a later key at `i`. -/
lemma Ordered.raise (h : Ordered f n) {g : Nat → K} (hg : ∀ j < n, j ≠ i → g j = f j) (hi : f i ≤ g i) : DownHole g n i := by
  constructor
  · intro j h0 hj hp
    have hpj := parent_lt h0
    rw [hg _ (hpj.trans hj) hp]
    rcases eq_or_ne j i with rfl | hne
    · exact (h j h0 hj).trans hi
    · rw [hg j hj hne]; exact h j h0 hj
  · intro hpos j h0 hj hp
    have hpj := parent_lt h0
    have hpi := parent_lt hpos
    rw [hg _ (by omega) hpi.ne, hg j hj (by omega)]
    exact (h i hpos (by omega)).trans (hp ▸ h j h0 hj)

/-- A heap with an earlier key at `i`. -/
lemma Ordered.lower (h : Ordered f n) {g : Nat → K} (hg : ∀ j < n, j ≠ i → g j = f j) (hi : g i ≤ f i) : UpHole g n i := by
  constructor
  · intro j h0 hj hne
    have hpj := parent_lt h0
    rw [hg j hj hne]
    rcases eq_or_ne (parent j) i with hp | hp
    · rw [hp]; exact hi.trans (hp ▸ h j h0 hj)
    · rw [hg _ (hpj.trans hj) hp]; exact h j h0 hj
  · intro hpos j h0 hj hp
    have hpj := parent_lt h0
    have hpi := parent_lt hpos
    rw [hg _ (by omega) hpi.ne, hg j hj (by omega)]
    exact (h i hpos (by omega)).trans (hp ▸ h j h0 hj)

/-- An element before its parent changes places with it. -/
lemma UpHole.swap (h : UpHole f n i) (h0 : 0 < i) (hi : i < n) (hlt : f i < f (parent i)) :
    UpHole (f ∘ Equiv.swap (parent i) i) n (parent i) := by
  have hp := parent_lt h0
  have hup : 0 < parent i → f (parent (parent i)) ≤ f (parent i) := fun hpos => h.others _ hpos (hp.trans hi) hp.ne
  have off : ∀ j, j ≠ parent i → j ≠ i → (f ∘ Equiv.swap (parent i) i) j = f j := fun j h1 h2 =>
    congrArg f (Equiv.swap_apply_of_ne_of_ne h1 h2)
  have hl : (f ∘ Equiv.swap (parent i) i) (parent i) = f i := congrArg f (Equiv.swap_apply_left _ _)
  have hr : (f ∘ Equiv.swap (parent i) i) i = f (parent i) := congrArg f (Equiv.swap_apply_right _ _)
  constructor
  · intro j hj0 hj hne
    rcases eq_or_ne j i with rfl | hji
    · rw [hl, hr]; exact hlt.le
    rw [off j hne hji]
    rcases eq_or_ne (parent j) i with hpj | hpj
    · rw [hpj, hr]; exact h.across h0 j hj0 hj hpj
    rcases eq_or_ne (parent j) (parent i) with hpp | hpp
    · rw [hpp, hl]
      exact hlt.le.trans (hpp ▸ h.others j hj0 hj hji)
    · rw [off _ hpp hpj]; exact h.others j hj0 hj hji
  · intro hpos j hj0 hj hpj
    have hgp := parent_lt hpos
    rw [off (parent (parent i)) hgp.ne (by omega)]
    rcases eq_or_ne j i with rfl | hji
    · rw [hr]; exact hup hpos
    · have hjp : j ≠ parent i := by have := parent_lt hj0; omega
      rw [off j hjp hji]
      exact (hup hpos).trans (hpj ▸ h.others j hj0 hj hji)

/-- An element after its earliest child `c` changes places with it. -/
lemma DownHole.swap (h : DownHole f n i) {c : Nat} (hc0 : 0 < c) (hc : c < n) (hpc : parent c = i)
    (hmin : ∀ j, 0 < j → j < n → parent j = i → f c ≤ f j) (hlt : f c < f i) : DownHole (f ∘ Equiv.swap c i) n c := by
  have hic : i < c := hpc ▸ parent_lt hc0
  have off : ∀ j, j ≠ c → j ≠ i → (f ∘ Equiv.swap c i) j = f j := fun j h1 h2 =>
    congrArg f (Equiv.swap_apply_of_ne_of_ne h1 h2)
  have hl : (f ∘ Equiv.swap c i) c = f i := congrArg f (Equiv.swap_apply_left _ _)
  have hr : (f ∘ Equiv.swap c i) i = f c := congrArg f (Equiv.swap_apply_right _ _)
  constructor
  · intro j hj0 hj hpj
    have hpl := parent_lt hj0
    rcases eq_or_ne (parent j) i with hp | hp
    · rw [hp, hr]
      rcases eq_or_ne j c with rfl | hjc
      · rw [hl]; exact hlt.le
      · rw [off j hjc (by omega)]; exact hmin j hj0 hj hp
    · rw [off _ hpj hp]
      rcases eq_or_ne j i with rfl | hji
      · rw [hr]; exact h.across hj0 c hc0 hc hpc
      · rw [off j (fun hjc => hp (hjc ▸ hpc)) hji]; exact h.others j hj0 hj hp
  · intro _ j hj0 hj hpj
    have hpl := parent_lt hj0
    rw [hpc, hr, off j (by omega) (by omega)]
    exact hpj ▸ h.others j hj0 hj (by omega)

lemma fixes_one : Fixes 1 n := fun _ _ => rfl

lemma Fixes.mul {p q : Equiv.Perm Nat} (hp : Fixes p n) (hq : Fixes q n) : Fixes (p * q) n := by
  intro i hi
  rw [Equiv.Perm.mul_apply, hq i hi, hp i hi]

lemma fixes_swap {a b : Nat} (ha : a < n) (hb : b < n) : Fixes (Equiv.swap a b) n :=
  fun _ hi => Equiv.swap_apply_of_ne_of_ne (by omega) (by omega)

lemma Fixes.lt_iff {p : Equiv.Perm Nat} (h : Fixes p n) : p i < n ↔ i < n := by
  constructor
  · intro hp
    by_contra hi
    rw [h i (by omega)] at hp
    exact hi hp
  · intro hi
    by_contra hp
    have := p.injective (h (p i) (by omega))
    omega

end Unleashed.Lib.Heap
