import Unleashed.Zfs.RangeTree.Walk

/-!
# Range trees over whole runs

Any number of range trees under any sequence of operations. A search for a range that overlaps several segments may
end at any one of them.
-/

namespace Unleashed.Zfs

open Lib Lib.Segs Function Finset

/-- `range_tree_find_impl`. -/
def rangeTreeFindImplRep (rt : RangeTreeRep) (hit start size : Nat) : Except Fault (Option Seg) := do
  VERIFY (size ≠ 0)
  .ok (avlFindHit rangeTreeSegCompare hit rt.rtRoot ⟨start, start + size⟩)

/-- `range_tree_contains`. -/
def rangeTreeContainsRep (rt : RangeTreeRep) (hit start size : Nat) : Except Fault Bool := do
  match ← rangeTreeFindImplRep rt hit start size with
  | some rs => .ok (rs.lo ≤ start ∧ rs.hi ≥ start + size)
  | none => .ok false

/-- The loop of `range_tree_clear`, with the outcomes of its searches. -/
def rangeTreeClearLoop (hits : Nat → Nat) (start size : Nat) : (fuel : Nat) → RangeTreeRep → Except Fault RangeTreeRep
  | 0, _ => .error .fuel
  | fuel + 1, rt => do
    match ← rangeTreeFindImplRep rt (hits fuel) start size with
    | none => .ok rt
    | some rs =>
      let freeStart := max rs.lo start
      let freeEnd := min rs.hi (start + size)
      let rt ← rangeTreeRemoveRep rt freeStart (freeEnd - freeStart)
      rangeTreeClearLoop hits start size fuel rt

/-- `range_tree_clear`. -/
def rangeTreeClearRep (rt : RangeTreeRep) (hits : Nat → Nat) (start size : Nat) : Except Fault RangeTreeRep :=
  if size = 0 then .ok rt else rangeTreeClearLoop hits start size (rt.rtSpace + 1) rt

/-- `range_tree_vacate` in the `order` of `avl_destroy_nodes`; `func` is `NULL` or `range_tree_add`. -/
def rangeTreeVacateRep (order : List Seg) (arg : Option RangeTreeRep) : Except Fault (RangeTreeRep × Option RangeTreeRep) :=
  match arg with
  | none => .ok (.empty, none)
  | some arg => do
    let arg ← order.foldlM (fun arg rs => rangeTreeAddRep arg rs.lo (rs.hi - rs.lo)) arg
    .ok (.empty, some arg)

/-- `range_tree_swap`. -/
def rangeTreeSwapRep (rtsrc rtdst : RangeTreeRep) : Except Fault (RangeTreeRep × RangeTreeRep) := do
  ASSERT (rtdst.rtSpace = 0)
  ASSERT (rtdst.rtRoot.length = 0)
  .ok (rtdst, rtsrc)

/-! ## Searches with several outcomes -/

section
variable {rt : RangeTreeRep} {hit start size : Nat}

/-- **`range_tree_contains`** is true exactly of the ranges in the tree. -/
theorem rangeTreeContainsRep_eq (hc : rt.Consistent) (hsize : size ≠ 0) :
    rangeTreeContainsRep rt hit start size = .ok (decide (Ico start (start + size) ⊆ cover rt.rtRoot)) := by
  have hr : start < start + size := by omega
  unfold rangeTreeContainsRep rangeTreeFindImplRep
  rw [VERIFY_bind hsize, ok_bind]
  cases hf : avlFindHit rangeTreeSegCompare hit rt.rtRoot ⟨start, start + size⟩ with
  | none =>
    refine congrArg Except.ok (decide_eq_false fun hsub => ?_).symm
    obtain ⟨s, hs, hlo, hhi⟩ := hc.separated.exists_of_subset hr hsub
    exact findHit_none hf hs ((compare_eq hr (hc.separated.pos s hs)).2 ⟨by dsimp only; omega, by dsimp only; omega⟩)
  | some rs =>
    obtain ⟨hrs, heq⟩ := findHit_some hf
    have hov := (compare_eq hr (hc.separated.pos rs hrs)).1 heq
    dsimp only at hov
    refine congrArg Except.ok (Bool.decide_congr ?_)
    constructor
    · rintro ⟨hlo, hhi⟩ x hx
      have := mem_Ico.1 hx
      exact mem_cover.2 ⟨rs, hrs, by omega, by omega⟩
    · intro hsub
      obtain ⟨s, hs, hlo, hhi⟩ := hc.separated.exists_of_subset hr hsub
      -- the range lies in one segment, and the one that was found overlaps it
      have hpos := hc.separated.pos rs hrs
      obtain rfl : s = rs := hc.separated.eq_of_mem hs hrs (x := max start rs.lo) (by omega) (by omega)
      exact ⟨hlo, hhi⟩

end

/-! ## Clearing -/

lemma rangeTreeClearLoop_spec (hits : Nat → Nat) {start size : Nat} (hsize : size ≠ 0) :
    ∀ (fuel : Nat) {rt : RangeTreeRep}, rt.Consistent → rt.rtSpace < fuel →
      ∃ rt', rangeTreeClearLoop hits start size fuel rt = .ok rt' ∧ rt'.Consistent ∧
        cover rt'.rtRoot = cover rt.rtRoot \ Ico start (start + size)
  | 0, rt, _, hfuel => absurd hfuel (Nat.not_lt_zero _)
  | fuel + 1, rt, hc, hfuel => by
    have hr : start < start + size := by omega
    unfold rangeTreeClearLoop rangeTreeFindImplRep
    rw [VERIFY_bind hsize, ok_bind]
    cases hf : avlFindHit rangeTreeSegCompare (hits fuel) rt.rtRoot ⟨start, start + size⟩ with
    | none =>
      refine ⟨rt, rfl, hc, (sdiff_eq_self_of_disjoint ?_).symm⟩
      apply disjoint_left.2
      intro x hx hx'
      obtain ⟨s, hs, h1, h2⟩ := mem_cover.1 hx
      have := mem_Ico.1 hx'
      exact findHit_none hf hs ((compare_eq hr (hc.separated.pos s hs)).2 ⟨by dsimp only; omega, by dsimp only; omega⟩)
    | some rs =>
      obtain ⟨hrs, heq⟩ := findHit_some hf
      have hpos := hc.separated.pos rs hrs
      have hov := (compare_eq hr hpos).1 heq
      dsimp only at hov ⊢
      have hend : max rs.lo start + (min rs.hi (start + size) - max rs.lo start) = min rs.hi (start + size) := by omega
      have hsub : Ico (max rs.lo start) (min rs.hi (start + size)) ⊆ cover rt.rtRoot := by
        intro x hx
        have := mem_Ico.1 hx
        exact mem_cover.2 ⟨rs, hrs, by omega, by omega⟩
      obtain ⟨rt1, hrem, hc1, hcov1⟩ := rangeTreeRemoveRep_of_subset hc
        (show min rs.hi (start + size) - max rs.lo start ≠ 0 by omega) (by rwa [hend])
      rw [hend] at hcov1
      -- every round gives up some space
      have hlt : rt1.rtSpace < fuel := by
        have hcard : (cover rt1.rtRoot).card < (cover rt.rtRoot).card := by
          rw [hcov1]
          apply card_lt_card
          apply sdiff_ssubset hsub
          exact ⟨max rs.lo start, mem_Ico.2 ⟨le_rfl, by omega⟩⟩
        rw [card_cover hc1.separated, card_cover hc.separated, ← hc1.space, ← hc.space] at hcard
        omega
      obtain ⟨rt', hrun, hc', hcov'⟩ := rangeTreeClearLoop_spec hits hsize fuel hc1 hlt
      refine ⟨rt', by rw [hrem, ok_bind, hrun], hc', ?_⟩
      rw [hcov', hcov1, sdiff_sdiff_left, sup_eq_union, union_eq_right.2]
      intro x hx
      have := mem_Ico.1 hx
      exact mem_Ico.2 ⟨by omega, by omega⟩

/-- **`range_tree_clear`** removes what the tree has of the range. -/
theorem rangeTreeClearRep_spec {rt : RangeTreeRep} (hc : rt.Consistent) (hits : Nat → Nat) (start size : Nat) :
    ∃ rt', rangeTreeClearRep rt hits start size = .ok rt' ∧ rt'.Consistent ∧
      cover rt'.rtRoot = cover rt.rtRoot \ Ico start (start + size) := by
  unfold rangeTreeClearRep
  by_cases hsize : size = 0
  · refine ⟨rt, if_pos hsize, hc, ?_⟩
    rw [hsize, Nat.add_zero, Ico_self, sdiff_empty]
  · rw [if_neg hsize]
    exact rangeTreeClearLoop_spec hits hsize (rt.rtSpace + 1) hc (Nat.lt_succ_self _)

/-! ## Vacating -/

lemma addAllRep_spec : ∀ {segs : List Seg} {rt : RangeTreeRep}, (∀ s ∈ segs, s.lo < s.hi) →
    segs.Pairwise (fun s t => Disjoint (Ico s.lo s.hi) (Ico t.lo t.hi)) → rt.Consistent →
    Disjoint (cover rt.rtRoot) (cover segs) →
    ∃ rt', segs.foldlM (fun rt rs => rangeTreeAddRep rt rs.lo (rs.hi - rs.lo)) rt = .ok rt' ∧ rt'.Consistent ∧
      cover rt'.rtRoot = cover rt.rtRoot ∪ cover segs
  | [], rt, _, _, hc, _ => ⟨rt, rfl, hc, (union_empty _).symm⟩
  | s :: segs, rt, hpos, hsep, hc, hd => by
    obtain ⟨hs, hsep⟩ := List.pairwise_cons.1 hsep
    have hlt := hpos s List.mem_cons_self
    have hhi : s.lo + (s.hi - s.lo) = s.hi := by omega
    rw [cover_cons, disjoint_union_right] at hd
    obtain ⟨rt1, h1, hc1, hcov1⟩ := rangeTreeAddRep_of_disjoint hc (show s.hi - s.lo ≠ 0 by omega) (by rw [hhi]; exact hd.1)
    rw [hhi] at hcov1
    obtain ⟨rt', h2, hc', hcov'⟩ := addAllRep_spec (fun t ht => hpos t (List.mem_cons_of_mem _ ht)) hsep hc1 (by
      rw [hcov1, disjoint_union_left]
      exact ⟨hd.2, disjoint_cover hs⟩)
    refine ⟨rt', ?_, hc', by rw [hcov', hcov1, cover_cons, union_assoc]⟩
    rw [List.foldlM_cons, h1]
    exact h2

/-! ## Runs -/

/-- The range trees of the system, each at its own address. -/
abbrev RangeTrees := Nat → RangeTreeRep

inductive RangeTreeOp
  | add (i start size : Nat)
  | remove (i start size : Nat)
  | clear (i start size : Nat) (hits : Nat → Nat)
  /-- Into the tree `dest`, or with no function. -/
  | vacate (i : Nat) (order : List Seg) (dest : Option Nat)
  | swap (i j : Nat)

namespace RangeTrees

def exec (s : RangeTrees) : RangeTreeOp → Except Fault RangeTrees
  | .add i start size => do .ok (update s i (← rangeTreeAddRep (s i) start size))
  | .remove i start size => do .ok (update s i (← rangeTreeRemoveRep (s i) start size))
  | .clear i start size hits => do .ok (update s i (← rangeTreeClearRep (s i) hits start size))
  | .vacate i order dest => do
    let (rt, arg) ← rangeTreeVacateRep order (dest.map s)
    let s := match dest, arg with
      | some j, some arg => update s j arg
      | _, _ => s
    .ok (update s i rt)
  | .swap i j => do
    let (rtsrc, rtdst) ← rangeTreeSwapRep (s i) (s j)
    .ok (update (update s i rtsrc) j rtdst)

/-- What the callers see to. -/
def Legal (s : RangeTrees) : RangeTreeOp → Prop
  | .add i start size => size ≠ 0 ∧ start + size < 2 ^ 64 ∧ Disjoint (cover (s i).rtRoot) (Ico start (start + size))
  | .remove i start size => size ≠ 0 ∧ start + size < 2 ^ 64 ∧ ∃ rs ∈ (s i).rtRoot, rs.lo ≤ start ∧ start + size ≤ rs.hi
  | .clear _ start size _ => size ≠ 0 ∧ start + size < 2 ^ 64
  | .vacate i order dest => order.Perm (s i).rtRoot ∧
      ∀ j, dest = some j → j ≠ i ∧ Disjoint (cover (s j).rtRoot) (cover (s i).rtRoot)
  | .swap _ j => (s j).rtRoot = []

/-- The sets of offsets after an operation. -/
def image (S : Nat → Finset Nat) : RangeTreeOp → Nat → Finset Nat
  | .add i start size => update S i (S i ∪ Ico start (start + size))
  | .remove i start size => update S i (S i \ Ico start (start + size))
  | .clear i start size _ => update S i (S i \ Ico start (start + size))
  | .vacate i _ none => update S i ∅
  | .vacate i _ (some j) => update (update S j (S j ∪ S i)) i ∅
  | .swap i j => update (update S i (S j)) j (S i)

/-- The trees that `range_tree_create` makes and the operations lead to. -/
inductive Reachable : RangeTrees → Prop
  | init : Reachable fun _ => .empty
  | step {s s' : RangeTrees} {op : RangeTreeOp} : Reachable s → s.Legal op → s.exec op = .ok s' → Reachable s'

/-- A tree between operations. -/
structure Good (rt : RangeTreeRep) : Prop where
  consistent : rt.Consistent
  /-- The segments end below `2 ^ 64`. -/
  bound : ∀ rs ∈ rt.rtRoot, rs.hi < 2 ^ 64

lemma good_empty : Good .empty := ⟨⟨.nil, rfl, fun _ => rfl⟩, fun _ h => absurd h List.not_mem_nil⟩

/-- The last offset of a segment is in the tree. -/
lemma Good.of_cover {rt rt' : RangeTreeRep} (hc : rt'.Consistent) (h : Good rt) {m : Nat} (hm : m < 2 ^ 64)
    (hsub : ∀ x ∈ cover rt'.rtRoot, x ∈ cover rt.rtRoot ∨ x < m) : Good rt' := by
  refine ⟨hc, fun rs hrs => ?_⟩
  have hpos := hc.separated.pos rs hrs
  rcases hsub (rs.hi - 1) (mem_cover.2 ⟨rs, hrs, by omega, by omega⟩) with hx | hx
  · obtain ⟨t, ht, h1, h2⟩ := mem_cover.1 hx
    have := h.bound t ht
    omega
  · omega

variable {s : RangeTrees}

lemma good_update (hs : ∀ i, Good (s i)) {j : Nat} {rt : RangeTreeRep} (h : Good rt) (i : Nat) : Good (update s j rt i) := by
  by_cases hij : i = j
  · rw [hij, update_self]
    exact h
  · rw [update_of_ne hij]
    exact hs i

lemma cover_update (j i : Nat) (rt : RangeTreeRep) : cover (update s j rt i).rtRoot =
      update (fun i => cover (s i).rtRoot) j (cover rt.rtRoot) i := by
  by_cases hij : i = j
  · rw [hij, update_self, update_self]
  · rw [update_of_ne hij, update_of_ne hij]

/-- **The step lemma**: a legal operation succeeds and does what it is for. -/
theorem exec_spec (hs : ∀ i, Good (s i)) : ∀ {op : RangeTreeOp}, s.Legal op →
    ∃ s', s.exec op = .ok s' ∧ (∀ i, Good (s' i)) ∧ ∀ i, cover (s' i).rtRoot = image (fun i => cover (s i).rtRoot) op i
  | .add i start size, ⟨hsize, hlt, hd⟩ => by
    obtain ⟨rt, heq, hc, hcov⟩ := rangeTreeAddRep_of_disjoint (hs i).consistent hsize hd
    refine ⟨_, by rw [exec, heq, ok_bind], good_update hs (.of_cover hc (hs i) hlt fun x hx => ?_), fun k => ?_⟩
    · rw [hcov, mem_union, mem_Ico] at hx
      exact hx.imp id fun h => h.2
    · rw [cover_update, hcov, image]
  | .remove i start size, ⟨hsize, hlt, rs, hrs, hlo, hhi⟩ => by
    have hsub : Ico start (start + size) ⊆ cover (s i).rtRoot := by
      intro x hx
      have := mem_Ico.1 hx
      exact mem_cover.2 ⟨rs, hrs, by omega, by omega⟩
    obtain ⟨rt, heq, hc, hcov⟩ := rangeTreeRemoveRep_of_subset (hs i).consistent hsize hsub
    refine ⟨_, by rw [exec, heq, ok_bind], good_update hs (.of_cover hc (hs i) hlt fun x hx => ?_), fun k => ?_⟩
    · rw [hcov, mem_sdiff] at hx
      exact .inl hx.1
    · rw [cover_update, hcov, image]
  | .clear i start size hits, ⟨_, hlt⟩ => by
    obtain ⟨rt, heq, hc, hcov⟩ := rangeTreeClearRep_spec (hs i).consistent hits start size
    refine ⟨_, by rw [exec, heq, ok_bind], good_update hs (.of_cover hc (hs i) hlt fun x hx => ?_), fun k => ?_⟩
    · rw [hcov, mem_sdiff] at hx
      exact .inl hx.1
    · rw [cover_update, hcov, image]
  | .vacate i order none, _ => by
    refine ⟨_, rfl, good_update hs good_empty, fun k => ?_⟩
    rw [cover_update, image]
    rfl
  | .vacate i order (some j), ⟨hperm, hdest⟩ => by
    obtain ⟨hji, hd⟩ := hdest j rfl
    have hcover : cover order = cover (s i).rtRoot := by
      ext x
      rw [mem_cover, mem_cover]
      exact exists_congr fun t => and_congr_left' hperm.mem_iff
    have hdisj : order.Pairwise fun s t => Disjoint (Ico s.lo s.hi) (Ico t.lo t.hi) := by
      rw [hperm.pairwise_iff fun h => disjoint_comm.1 h]
      exact RangeTree.segs_disjoint ⟨s i, (hs i).consistent⟩
    obtain ⟨rt, heq, hc, hcov⟩ := addAllRep_spec
      (fun t ht => (hs i).consistent.separated.pos t (hperm.mem_iff.1 ht)) hdisj (hs j).consistent (by rwa [hcover])
    have hgood : Good rt := by
      refine ⟨hc, fun rs hrs => ?_⟩
      have hpos := hc.separated.pos rs hrs
      have hmem : rs.hi - 1 ∈ cover rt.rtRoot := mem_cover.2 ⟨rs, hrs, by omega, by omega⟩
      rw [hcov, hcover, mem_union] at hmem
      rcases hmem with hx | hx
      · obtain ⟨t, ht, h1, h2⟩ := mem_cover.1 hx
        have := (hs j).bound t ht
        omega
      · obtain ⟨t, ht, h1, h2⟩ := mem_cover.1 hx
        have := (hs i).bound t ht
        omega
    refine ⟨update (update s j rt) i .empty, ?_, good_update (good_update hs hgood) good_empty,
      fun k => ?_⟩
    · rw [exec, Option.map_some, rangeTreeVacateRep, heq]
      rfl
    · rw [cover_update, image, ← hcover, ← hcov]
      have : (fun k => cover (update s j rt k).rtRoot) =
          update (fun i => cover (s i).rtRoot) j (cover rt.rtRoot) := funext fun k => cover_update j k rt
      rw [this]
      rfl
  | .swap i j, hempty => by
    have hspace : (s j).rtSpace = 0 := by
      rw [(hs j).consistent.space, show (s j).rtRoot = [] from hempty]
      rfl
    refine ⟨update (update s i (s j)) j (s i), ?_, good_update (good_update hs (hs j)) (hs i),
      fun k => ?_⟩
    · rw [exec, rangeTreeSwapRep, ASSERT_bind hspace, ASSERT_bind (by rw [show (s j).rtRoot = [] from hempty]; rfl), ok_bind]
    · rw [cover_update, image]
      have : (fun k => cover (update s i (s j) k).rtRoot) =
          update (fun i => cover (s i).rtRoot) i (cover (s j).rtRoot) := funext fun k => cover_update i k _
      rw [this]

/-- **The run lemma**. -/
theorem Reachable.good (h : Reachable s) : ∀ i, Good (s i) := by
  induction h with
  | init => exact fun _ => good_empty
  | step _ hlegal hexec ih =>
    obtain ⟨s', hexec', hgood, -⟩ := exec_spec ih hlegal
    cases hexec.symm.trans hexec'
    exact hgood

end RangeTrees

/-- **Range trees represent sets of offsets.** In every reachable state the segments are sorted and apart, with their
space and histogram; legal operations do to the sets what they are for. -/
theorem rangeTree_representation {s : RangeTrees} (h : s.Reachable) :
    (∀ i, Separated (s i).rtRoot ∧ (∀ rs ∈ (s i).rtRoot, rs.hi < 2 ^ 64) ∧ (s i).rtSpace = total (s i).rtRoot ∧
      ∀ k, (s i).rtHistogram k = (s i).rtRoot.countP fun rs => highbit64 (rs.hi - rs.lo) - 1 = k) ∧
    (∀ op, s.Legal op → ∃ s', s.exec op = .ok s' ∧ s'.Reachable ∧
      ∀ i, cover (s' i).rtRoot = RangeTrees.image (fun i => cover (s i).rtRoot) op i) ∧
    ∀ i hit start size, size ≠ 0 → rangeTreeContainsRep (s i) hit start size =
      .ok (decide (Ico start (start + size) ⊆ cover (s i).rtRoot)) := by
  refine ⟨fun i => ?_, fun op hlegal => ?_, fun i hit start size hsize => ?_⟩
  · obtain ⟨hc, hbound⟩ := h.good i
    exact ⟨hc.separated, hbound, hc.space, hc.histogram⟩
  · obtain ⟨s', hexec, -, hcov⟩ := RangeTrees.exec_spec h.good hlegal
    exact ⟨s', hexec, .step h hlegal hexec, hcov⟩
  · exact rangeTreeContainsRep_eq (h.good i).consistent hsize

/-- Two adjacent ranges are added to a new tree and merge, and a removal splits the segment. -/
theorem rangeTree_representation_eight : ∃ s₁ s₂ s : RangeTrees,
    RangeTrees.exec (fun _ => .empty) (.add 0 16 8) = .ok s₁ ∧ s₁.exec (.add 0 24 8) = .ok s₂ ∧ (s₂ 0).rtRoot = [⟨16, 32⟩] ∧
    s₂.exec (.remove 0 20 4) = .ok s ∧ s.Reachable ∧ (s 0).rtRoot = [⟨16, 20⟩, ⟨24, 32⟩] ∧ (s 0).rtSpace = 12 ∧
    (s 0).rtHistogram 2 = 1 ∧ (s 0).rtHistogram 3 = 1 ∧ rangeTreeContainsRep (s 0) 0 18 4 = .ok false := by
  have h1 := RangeTrees.Reachable.init.step (show RangeTrees.Legal _ (.add 0 16 8) from ⟨by decide, by decide, by decide⟩) rfl
  have h2 := h1.step (show RangeTrees.Legal _ (.add 0 24 8) from ⟨by decide, by decide, by decide +kernel⟩) rfl
  have h3 := h2.step (show RangeTrees.Legal _ (.remove 0 20 4) from
    ⟨by decide, by decide, _, List.mem_cons_self, by decide, by decide⟩) rfl
  have h := rangeTree_representation h3
  refine ⟨_, _, _, rfl, rfl, rfl, rfl, h3, rfl, rfl, ?_, ?_, ?_⟩
  · rw [(h.1 0).2.2.2 2]
    rfl
  · rw [(h.1 0).2.2.2 3]
    rfl
  · rw [h.2.2 0 0 18 4 (by decide)]
    rfl

end Unleashed.Zfs
