import Unleashed.Zfs.RangeTree

/-!
# Walking, vacating and swapping range trees

Adding the segments of one tree to another is the union of their sets whatever the order, and likewise for removing.
-/

namespace Unleashed.Zfs

open Lib Lib.Segs Finset

/-- `avl_find` where several segments may compare equal; `hit` says which is met. -/
def avlFindHit (compare : Seg → Seg → Ordering) (hit : Nat) (t : List Seg) (rsearch : Seg) : Option Seg :=
  let found := t.filter fun rs => compare rsearch rs = .eq
  found[hit % found.length]?

/-- `range_tree_find`: the segment that holds the whole range. -/
def rangeTreeFind (rt : RangeTree) (start size : Nat) : Except Fault (Option Seg) := do
  VERIFY (size ≠ 0)
  match avlFind rt.rtRoot ⟨start, start + size⟩ with
  | some rs => .ok (if rs.lo ≤ start ∧ start + size ≤ rs.hi then some rs else none)
  | none => .ok none

/-- `range_tree_verify`: panics on a range inside the tree. -/
def rangeTreeVerify (rt : RangeTree) (off size : Nat) : Except Fault Unit := do
  let rs ← rangeTreeFind rt off size
  VERIFY (rs = none)

/-- `range_tree_vacate` with a function. The source visits the segments in another order, which makes no difference by
`foldlM_add` and `foldlM_remove`. -/
def rangeTreeVacate {σ : Type} (rt : RangeTree) (func : σ → Nat → Nat → Except Fault σ) (arg : σ) :
    Except Fault (RangeTree × σ) := do
  let arg ← rangeTreeWalk rt func arg
  .ok (.create, arg)

/-- `range_tree_swap`: the two trees after the exchange. -/
def rangeTreeSwap (rtsrc rtdst : RangeTree) : Except Fault (RangeTree × RangeTree) := do
  ASSERT (rangeTreeSpace rtdst = 0)
  .ok (rtdst, rtsrc)

variable {compare : Seg → Seg → Ordering} {hit : Nat} {t : List Seg} {rsearch rs : Seg}

lemma findHit_some (h : avlFindHit compare hit t rsearch = some rs) : rs ∈ t ∧ compare rsearch rs = .eq := by
  have hmem := List.mem_of_getElem? h
  rw [List.mem_filter, decide_eq_true_iff] at hmem
  exact hmem

lemma findHit_none (h : avlFindHit compare hit t rsearch = none) (hrs : rs ∈ t) : compare rsearch rs ≠ .eq := by
  intro heq
  have hmem : rs ∈ t.filter fun rs => compare rsearch rs = .eq := List.mem_filter.2 ⟨hrs, decide_eq_true heq⟩
  have hlen := List.length_pos_of_mem hmem
  have hle := List.getElem?_eq_none_iff.1 h
  have := Nat.mod_lt hit hlen
  omega

lemma rangeTreeSpace_create : rangeTreeSpace .create = 0 := rfl

variable {rt : RangeTree}

lemma rangeTreeSpace_eq_zero : rangeTreeSpace rt = 0 ↔ rt.cover = ∅ :=
  RangeTree.space_eq_zero

lemma rangeTreeVerify_of_disjoint {off size : Nat} (hsize : size ≠ 0)
    (hd : Disjoint rt.cover (Ico off (off + size))) : rangeTreeVerify rt off size = .ok () := by
  have hf : avlFind rt.rtRoot ⟨off, off + size⟩ = none :=
    (find_eq_none_iff rt.consistent.separated (by simp only; omega)).2 hd
  unfold rangeTreeVerify rangeTreeFind
  rw [VERIFY_bind hsize, hf]
  exact VERIFY_eq_ok.2 (rfl : (none : Option Seg) = none)

lemma rangeTreeSwap_of_empty {rtsrc rtdst : RangeTree} (h : rtdst.cover = ∅) :
    rangeTreeSwap rtsrc rtdst = .ok (rtdst, rtsrc) := by
  unfold rangeTreeSwap
  rw [ASSERT_bind (show rangeTreeSpace rtdst = 0 from RangeTree.space_eq_zero.2 h)]

section

lemma disjoint_cover {s : Seg} {segs : List Seg} (hs : ∀ t ∈ segs, Disjoint (Ico s.lo s.hi) (Ico t.lo t.hi)) :
    Disjoint (Ico s.lo s.hi) (cover segs) := by
  apply disjoint_left.2
  intro x hx hx'
  obtain ⟨t, ht, hxt⟩ := mem_cover.1 hx'
  exact disjoint_left.1 (hs t ht) hx (mem_Ico.2 hxt)

variable {segs : List Seg} (hpos : ∀ s ∈ segs, s.lo < s.hi)
include hpos

section
variable (hsep : segs.Pairwise fun s t => Disjoint (Ico s.lo s.hi) (Ico t.lo t.hi))
include hsep

/-- Adding disjoint segments in any order adds what they cover. -/
lemma foldlM_add : ∀ rt : RangeTree, Disjoint rt.cover (cover segs) →
      ∃ rt', segs.foldlM (fun rt rs => rangeTreeAdd rt rs.lo (rs.hi - rs.lo)) rt = .ok rt' ∧
        rt'.cover = rt.cover ∪ cover segs := by
  induction segs with
  | nil => intro rt _; exact ⟨rt, rfl, by simp⟩
  | cons s segs ih =>
    intro rt hd
    obtain ⟨hs, hsep⟩ := List.pairwise_cons.1 hsep
    have hlt := hpos s (by simp)
    have hhi : s.lo + (s.hi - s.lo) = s.hi := by omega
    rw [cover_cons, disjoint_union_right] at hd
    obtain ⟨rt1, h1, hc1⟩ := rangeTreeAdd_of_disjoint rt s.lo (by omega : s.hi - s.lo ≠ 0) (by rw [hhi]; exact hd.1)
    rw [hhi] at hc1
    obtain ⟨rt2, h2, hc2⟩ := ih (fun t ht => hpos t (by simp [ht])) hsep rt1 (by
      rw [hc1, disjoint_union_left]
      exact ⟨hd.2, disjoint_cover hs⟩)
    refine ⟨rt2, ?_, by rw [hc2, hc1, cover_cons, union_assoc]⟩
    rw [List.foldlM_cons, h1]
    exact h2

/-- Removing disjoint segments in any order removes what they cover. -/
lemma foldlM_remove : ∀ rt : RangeTree, cover segs ⊆ rt.cover →
      ∃ rt', segs.foldlM (fun rt rs => rangeTreeRemove rt rs.lo (rs.hi - rs.lo)) rt = .ok rt' ∧
        rt'.cover = rt.cover \ cover segs := by
  induction segs with
  | nil => intro rt _; exact ⟨rt, rfl, by simp⟩
  | cons s segs ih =>
    intro rt hsub
    obtain ⟨hs, hsep⟩ := List.pairwise_cons.1 hsep
    have hlt := hpos s (by simp)
    have hhi : s.lo + (s.hi - s.lo) = s.hi := by omega
    rw [cover_cons, union_subset_iff] at hsub
    obtain ⟨rt1, h1, hc1⟩ := rangeTreeRemove_of_subset rt s.lo (by omega : s.hi - s.lo ≠ 0) (by rw [hhi]; exact hsub.1)
    rw [hhi] at hc1
    obtain ⟨rt2, h2, hc2⟩ := ih (fun t ht => hpos t (by simp [ht])) hsep rt1 (by
      rw [hc1]
      exact subset_sdiff.2 ⟨hsub.2, (disjoint_cover hs).symm⟩)
    refine ⟨rt2, ?_, by rw [hc2, hc1, cover_cons, sdiff_sdiff_left, sup_eq_union]⟩
    rw [List.foldlM_cons, h1]
    exact h2

end

end

lemma RangeTree.segs_disjoint (rt : RangeTree) : rt.rtRoot.Pairwise fun s t => Disjoint (Ico s.lo s.hi) (Ico t.lo t.hi) := by
  apply rt.consistent.separated.gap.imp
  intro s t h
  apply disjoint_left.2
  intro x hx hx'
  have := mem_Ico.1 hx
  have := mem_Ico.1 hx'
  omega

variable (src dst : RangeTree)

/-- **Walking a tree to add it** to another one that it misses. -/
theorem rangeTreeWalk_add (hd : Disjoint dst.cover src.cover) :
    ∃ rt', rangeTreeWalk src rangeTreeAdd dst = .ok rt' ∧ rt'.cover = dst.cover ∪ src.cover :=
  foldlM_add src.consistent.separated.pos src.segs_disjoint dst hd

/-- **Walking a tree to remove it** from another one that contains it. -/
theorem rangeTreeWalk_remove (hsub : src.cover ⊆ dst.cover) :
    ∃ rt', rangeTreeWalk src rangeTreeRemove dst = .ok rt' ∧ rt'.cover = dst.cover \ src.cover :=
  foldlM_remove src.consistent.separated.pos src.segs_disjoint dst hsub

lemma rangeTreeVacate_add (hd : Disjoint dst.cover src.cover) :
    ∃ rt', rangeTreeVacate src rangeTreeAdd dst = .ok (.create, rt') ∧ rt'.cover = dst.cover ∪ src.cover := by
  obtain ⟨rt', h, hc⟩ := rangeTreeWalk_add src dst hd
  refine ⟨rt', ?_, hc⟩
  unfold rangeTreeVacate
  rw [h]
  rfl

end Unleashed.Zfs
