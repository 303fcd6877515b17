import Mathlib.Algebra.BigOperators.Fin
import Mathlib.Data.Finset.Card
import Mathlib.Algebra.Order.BigOperators.Group.Finset

/-!
# Labelled sets

A finite set whose elements carry a label is divided into one part per label, so that moving elements from part to
part is a change of the label alone.
-/

namespace Unleashed.Lib.Labels

open Finset

variable {α ι : Type} [DecidableEq ι] {U R : Finset α} {label : α → ι} {i j p : ι}

/-- The elements of `U` with the label `p`. -/
def part (U : Finset α) (label : α → ι) (p : ι) : Finset α := U.filter (label · = p)

/-- Give the label `j` to the elements of `R`. -/
def relabel [DecidableEq α] (R : Finset α) (j : ι) (label : α → ι) : α → ι := fun x => if x ∈ R then j else label x

@[simp, grind =] lemma mem_part {x : α} : x ∈ part U label p ↔ x ∈ U ∧ label x = p :=
  mem_filter

lemma part_subset (U : Finset α) (label : α → ι) (p : ι) : part U label p ⊆ U :=
  filter_subset _ _

lemma part_disjoint (U : Finset α) (label : α → ι) (h : i ≠ j) : Disjoint (part U label i) (part U label j) := by
  apply disjoint_left.2
  intro x hi hj
  exact h ((mem_part.1 hi).2.symm.trans (mem_part.1 hj).2)

lemma sum_card_part [Fintype ι] (U : Finset α) (label : α → ι) : ∑ p, (part U label p).card = U.card :=
  (card_eq_sum_card_fiberwise fun _ _ => mem_univ _).symm

variable [DecidableEq α]

lemma biUnion_part [Fintype ι] (U : Finset α) (label : α → ι) : Finset.univ.biUnion (part U label) = U := by
  apply biUnion_filter_eq_of_maps_to
  exact fun x _ => mem_univ _

/-! ## Moving elements from one part to another -/

lemma part_relabel_to (hR : R ⊆ U) : part U (relabel R j label) j = part U label j ∪ R := by
  grind [relabel]

lemma part_relabel_ne (h : p ≠ j) : part U (relabel R j label) p = part U label p \ R := by
  grind [relabel]

/-- A part that the moved elements do not touch stays. -/
lemma part_relabel_other (hR : R ⊆ part U label i) (hi : p ≠ i) (hj : p ≠ j) :
    part U (relabel R j label) p = part U label p := by
  rw [part_relabel_ne hj]
  apply sdiff_eq_self_of_disjoint
  exact disjoint_of_subset_right hR (part_disjoint U label hi)

end Unleashed.Lib.Labels
