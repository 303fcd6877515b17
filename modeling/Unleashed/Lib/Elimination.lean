import Mathlib.LinearAlgebra.Vandermonde
import Mathlib.Data.Finset.Powerset
import Mathlib.Algebra.BigOperators.Field
import Mathlib.Data.Fintype.BigOperators

/-!
# Gauss-Jordan elimination without a choice of pivots

A matrix is seen through its kernel, which a pivot step does not change. If a vector of the kernel needs more nonzero
entries than there are rows, elimination never meets a zero, so that pivots need not be searched for.
-/

namespace Unleashed.Lib.Elimination

open Finset Function

variable {K ι : Type} [Field K] [Fintype ι] [DecidableEq ι] {t : Nat} {A A' : Fin t → ι → K}
  {β : Fin t → ι} {x : ι → K}

/-- `x` is in the kernel of `A`. -/
def Null (A : Fin t → ι → K) (x : ι → K) : Prop := ∀ r, ∑ c, A r c * x c = 0

/-- Row `i` is normalized at column `b`, and subtracted from the others. -/
def pivotStep (A : Fin t → ι → K) (i : Fin t) (b : ι) : Fin t → ι → K := fun r c =>
  if r = i then A i c / A i b else A r c - A r b * (A i c / A i b)

/-- The columns `β` are the unit vectors. -/
def UnitColumns (A : Fin t → ι → K) (β : Fin t → ι) : Prop := ∀ r s, A r (β s) = if r = s then 1 else 0

/-- A vector of the kernel with at most `t` nonzero entries is zero. -/
def Separating [DecidableEq K] (A : Fin t → ι → K) : Prop :=
  ∀ x, Null A x → (univ.filter (x · ≠ 0)).card ≤ t → x = 0

variable {i : Fin t} {b : ι}

omit [DecidableEq ι] in
lemma null_pivotStep (hb : A i b ≠ 0) : Null (pivotStep A i b) x ↔ Null A x := by
  have hi : ∑ c, pivotStep A i b i c * x c = (∑ c, A i c * x c) / A i b := by
    rw [sum_div]
    apply sum_congr rfl
    intro c _
    rw [pivotStep, if_pos rfl, div_mul_eq_mul_div]
  have hr : ∀ r, r ≠ i → ∑ c, pivotStep A i b r c * x c = ∑ c, A r c * x c - A r b * ((∑ c, A i c * x c) / A i b) := by
    intro r hr
    rw [← hi, mul_sum, ← sum_sub_distrib]
    apply sum_congr rfl
    intro c _
    rw [pivotStep, pivotStep, if_neg hr, if_pos rfl, sub_mul, mul_assoc]
  constructor
  · intro h
    have h0 : ∑ c, A i c * x c = 0 := by
      have := h i
      rw [hi, div_eq_zero_iff] at this
      exact this.resolve_right hb
    intro r
    by_cases hri : r = i
    · rw [hri, h0]
    · have := h r
      rwa [hr r hri, h0, zero_div, mul_zero, sub_zero] at this
  · intro h r
    by_cases hri : r = i
    · rw [hri, hi, h i, zero_div]
    · rw [hr r hri, h r, h i, zero_div, mul_zero, sub_zero]

omit [Fintype ι] [DecidableEq ι] in
/-- A pivot step makes its column the unit vector of that row. -/
lemma UnitColumns.pivotStep (h : UnitColumns A β) (hb : A i b ≠ 0) :
    UnitColumns (Elimination.pivotStep A i b) (update β i b) := by
  intro r s
  unfold Elimination.pivotStep
  by_cases hs : s = i
  · subst hs
    rw [update_self]
    split_ifs with hr
    · exact div_self hb
    · rw [div_self hb, mul_one, sub_self]
  · rw [update_of_ne hs, h, h, if_neg (Ne.symm hs), zero_div, mul_zero, sub_zero]
    split_ifs with hr hrs hrs
    · exact absurd (hrs.symm.trans hr) hs
    · rfl
    · rfl
    · rfl

/-- **Elimination never meets a zero.** -/
theorem entry_ne_zero [DecidableEq K] (hA : Separating A) (hnull : ∀ x, Null A' x → Null A x)
    (hunit : UnitColumns A' β) {c : ι} (hc : ∀ s, β s ≠ c) (r : Fin t) : A' r c ≠ 0 := by
  intro hzero
  -- the column less its combination of the unit columns, which leaves out the one of `r`
  let unit (b d : ι) : K := if d = b then 1 else 0
  let y (d : ι) : K := unit c d - ∑ s, A' s c * unit (β s) d
  have hne : ∀ {b d : ι}, d ≠ b → unit b d = 0 := fun h => if_neg h
  have hyc : y c = 1 := by
    show unit c c - ∑ s, A' s c * unit (β s) c = 1
    rw [sum_eq_zero, sub_zero]
    · exact if_pos rfl
    · intro s _
      rw [hne (hc s).symm, mul_zero]
  have hker : Null A' y := by
    intro q
    have hsum : ∀ d, ∑ e, A' q e * unit d e = A' q d := by
      intro d
      simp only [unit, mul_ite, mul_one, mul_zero, sum_ite_eq', mem_univ, if_true]
    calc ∑ e, A' q e * y e = ∑ e, A' q e * unit c e - ∑ e, ∑ s, A' s c * (A' q e * unit (β s) e) := by
          rw [← sum_sub_distrib]
          apply sum_congr rfl
          intro e _
          rw [mul_sub, mul_sum]
          congr 1
          apply sum_congr rfl
          intro s _
          rw [mul_left_comm]
      _ = A' q c - ∑ s, A' s c * A' q (β s) := by
          rw [hsum, sum_comm]
          congr 1
          apply sum_congr rfl
          intro s _
          rw [← mul_sum, hsum]
      _ = 0 := by
          rw [sum_eq_single q]
          · rw [hunit, if_pos rfl, mul_one, sub_self]
          · intro s _ hs
            rw [hunit, if_neg (Ne.symm hs), mul_zero]
          · simp
  have hsupp : univ.filter (y · ≠ 0) ⊆ insert c ((univ.erase r).image β) := by
    intro d hd
    by_contra hnot
    rw [mem_insert, mem_image] at hnot
    push Not at hnot
    apply (mem_filter.1 hd).2
    show unit c d - ∑ s, A' s c * unit (β s) d = 0
    rw [hne hnot.1, sum_eq_zero, sub_zero]
    intro s _
    by_cases hs : s = r
    · rw [hs, hzero, zero_mul]
    · rw [hne (hnot.2 s (mem_erase.2 ⟨hs, mem_univ _⟩)).symm, mul_zero]
  have hcard : (univ.filter (y · ≠ 0)).card ≤ t := by
    calc (univ.filter (y · ≠ 0)).card ≤ (insert c ((univ.erase r).image β)).card := card_le_card hsupp
      _ ≤ ((univ.erase r).image β).card + 1 := card_insert_le _ _
      _ ≤ (univ.erase r).card + 1 := Nat.add_le_add_right card_image_le 1
      _ = t := by
          rw [card_erase_of_mem (mem_univ r), card_univ, Fintype.card_fin]
          exact Nat.sub_add_cancel (Nat.one_le_of_lt r.isLt)
  have := congrFun (hA y (hnull y hker) hcard) c
  rw [hyc] at this
  exact one_ne_zero this

/-! ## Rows of powers -/

omit [Fintype ι] [DecidableEq ι] in
/-- As many power sums as there are distinct nodes determine the weights. -/
lemma eq_zero_of_power_sums {D : Finset ι} {f v : ι → K} (hf : Set.InjOn f D)
    (h : ∀ i < D.card, ∑ c ∈ D, v c * f c ^ i = 0) : ∀ c ∈ D, v c = 0 := by
  have hzero : (fun i => v (D.equivFin.symm i)) = 0 := by
    apply Matrix.eq_zero_of_forall_pow_sum_mul_pow_eq_zero (f := fun i => f (D.equivFin.symm i))
    · intro i j hij
      have := hf (D.equivFin.symm i).2 (D.equivFin.symm j).2 hij
      exact D.equivFin.symm.injective (Subtype.ext this)
    · intro i
      rw [← h i i.isLt, ← sum_coe_sort D fun c => v c * f c ^ (i : Nat)]
      exact Equiv.sum_comp D.equivFin.symm fun c : D => v c * f c ^ (i : Nat)
  intro c hc
  have := congrFun hzero (D.equivFin ⟨c, hc⟩)
  simpa using this

/-- Exponents up to two are in arithmetic progression. -/
lemma exists_progression : ∀ E ∈ (range 3).powerset, ∀ w ∈ range (E.card + 1),
    ∃ e ∈ range 3, ∃ d ∈ ({1, 2} : Finset Nat), ∀ i < w, e + d * i ∈ E := by
  decide

/-- The matrix of a systematic code: a unit vector for each check symbol, and the powers of a
node of the field for each data symbol. -/
def powerEntry (e : Fin t → Nat) (r : Fin t) : Fin t ⊕ K → K
  | .inl s => if r = s then 1 else 0
  | .inr a => a ^ e r

section
variable [DecidableEq K] {e : Fin t → Nat} {φ : ι → Fin t ⊕ K}

omit [DecidableEq ι] in
/-- At least as many check symbols are zero as data symbols are not. -/
lemma card_data_le (hcard : (univ.filter (x · ≠ 0)).card ≤ t) : (univ.filter fun c => x c ≠ 0 ∧ (φ c).isRight).card ≤
      (univ.filter fun r : Fin t => ∀ c, φ c = .inl r → x c = 0).card := by
  have hsplit : (univ.filter fun c => x c ≠ 0 ∧ (φ c).isRight).card +
      (univ.filter fun c => x c ≠ 0 ∧ ¬ (φ c).isRight).card = (univ.filter (x · ≠ 0)).card := by
    rw [← filter_filter, ← filter_filter]
    exact card_filter_add_card_filter_not _
  have hrows := card_filter_add_card_filter_not (s := (univ : Finset (Fin t))) (fun r => ∀ c, φ c = .inl r → x c = 0)
  rw [card_univ, Fintype.card_fin] at hrows
  have hle : (univ.filter fun r : Fin t => ¬ ∀ c, φ c = .inl r → x c = 0).card ≤
      (univ.filter fun c => x c ≠ 0 ∧ ¬ (φ c).isRight).card := by
    rw [← card_image_of_injective _ (Sum.inl_injective (α := Fin t) (β := K))]
    refine le_trans (card_le_card fun z hz => ?_) (card_image_le (f := φ))
    obtain ⟨r, hr, rfl⟩ := mem_image.1 hz
    have hr := (mem_filter.1 hr).2
    push Not at hr
    obtain ⟨c, hc, hxc⟩ := hr
    exact mem_image.2 ⟨c, mem_filter.2 ⟨mem_univ c, hxc, by rw [hc]; simp⟩, hc⟩
  omega

omit [DecidableEq ι] in
/-- **Any `t` columns are independent** for exponents at most two, if the nodes and their squares are distinct. -/
theorem separating_of_powers (he : Function.Injective e) (hle : ∀ r, e r ≤ 2) (hφ : Function.Injective φ)
    (hne : ∀ c a, φ c = .inr a → a ≠ 0) (hsq : ∀ a b : K, a ^ 2 = b ^ 2 → a = b)
    (hA : ∀ r c, A r c = powerEntry e r (φ c)) : Separating A := by
  intro x hx hcard
  let D := univ.filter fun c => x c ≠ 0 ∧ (φ c).isRight
  let Z := univ.filter fun r : Fin t => ∀ c, φ c = .inl r → x c = 0
  let node (c : ι) : K := (φ c).elim (fun _ => 0) id
  have hnode : ∀ c ∈ D, φ c = .inr (node c) := by
    intro c hc
    obtain ⟨a, ha⟩ := Sum.isRight_iff.1 (mem_filter.1 hc).2.2
    simp only [node, ha, Sum.elim_inr, id]
  -- a row of a zero check symbol is a sum over the data
  have hrow : ∀ r ∈ Z, ∑ c ∈ D, x c * node c ^ e r = 0 := by
    intro r hr
    rw [← hx r, ← sum_subset (subset_univ D)]
    · apply sum_congr rfl
      intro c hc
      rw [hA, hnode c hc, powerEntry, mul_comm]
    · intro c _ hc
      cases hc' : φ c with
      | inl s =>
        rw [hA, hc', powerEntry]
        split_ifs with hrs
        · rw [(mem_filter.1 hr).2 c (hrs ▸ hc'), mul_zero]
        · rw [zero_mul]
      | inr a =>
        have hx0 : x c = 0 := by
          by_contra h
          exact hc (mem_filter.2 ⟨mem_univ c, h, by rw [hc']; rfl⟩)
        rw [hx0, mul_zero]
  have hE : Z.image e ∈ (range 3).powerset := by
    rw [mem_powerset]
    intro k hk
    obtain ⟨r, -, rfl⟩ := mem_image.1 hk
    exact mem_range.2 (Nat.lt_succ_of_le (hle r))
  have hw : D.card ∈ range ((Z.image e).card + 1) := by
    rw [card_image_of_injective Z he]
    exact mem_range.2 (Nat.lt_succ_of_le (card_data_le hcard))
  obtain ⟨e0, -, d, hd, hprog⟩ := exists_progression _ hE _ hw
  have hpow : ∀ a b : K, a ^ d = b ^ d → a = b := by
    intro a b hab
    simp only [mem_insert, mem_singleton] at hd
    rcases hd with rfl | rfl
    · rwa [pow_one, pow_one] at hab
    · exact hsq a b hab
  have hdata : ∀ c ∈ D, x c * node c ^ e0 = 0 := by
    apply eq_zero_of_power_sums (f := fun c => node c ^ d)
    · intro a ha b hb hab
      apply hφ
      rw [hnode a ha, hnode b hb, hpow _ _ hab]
    · intro i hi
      obtain ⟨r, hr, her⟩ := mem_image.1 (hprog i hi)
      rw [← hrow r hr, her]
      apply sum_congr rfl
      intro c _
      rw [mul_assoc, ← pow_mul, ← pow_add]
  have hright : ∀ c, (φ c).isRight → x c = 0 := by
    intro c hc
    by_contra h
    have hcD : c ∈ D := mem_filter.2 ⟨mem_univ c, h, hc⟩
    rcases mul_eq_zero.1 (hdata c hcD) with h0 | h0
    · exact h h0
    · exact hne c _ (hnode c hcD) (eq_zero_of_pow_eq_zero h0)
  funext c
  cases hc : φ c with
  | inr a => exact hright c (by rw [hc]; rfl)
  | inl s =>
    have := hx s
    rw [sum_eq_single c] at this
    · rwa [hA, hc, powerEntry, if_pos rfl, one_mul] at this
    · intro d _ hd
      cases hd' : φ d with
      | inr a => rw [hright d (by rw [hd']; rfl), mul_zero]
      | inl s' =>
        rw [hA, hd', powerEntry, if_neg, zero_mul]
        rintro rfl
        exact hd (hφ (hd'.trans hc.symm))
    · simp

end

end Unleashed.Lib.Elimination
