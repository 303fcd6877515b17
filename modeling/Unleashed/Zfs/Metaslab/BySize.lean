import Unleashed.Zfs.Metaslab.Allocator
import Unleashed.Zfs.RangeTree.Run

/-!
# The tree by size

`ms_allocatable_by_size` holds the segments of `ms_allocatable` in another order. The calls of `metaslab_rt_ops` take
a segment out before its bounds change and put it back afterwards.
-/

namespace Unleashed.Zfs

open Lib Lib.Segs List

/-! ## The order by size -/

variable {r s : Seg}

section

lemma rangesizeCompare_ne_gt : metaslabRangesizeCompare r s ≠ .gt ↔ len r < len s ∨ len r = len s ∧ r.lo ≤ s.lo := by
  unfold metaslabRangesizeCompare
  split_ifs <;> simp <;> omega

lemma rangesizeCompare_lt : metaslabRangesizeCompare r s = .lt ↔ len r < len s ∨ len r = len s ∧ r.lo < s.lo := by
  unfold metaslabRangesizeCompare
  split_ifs <;> simp <;> omega

lemma rangesizeCompare_eq : metaslabRangesizeCompare r s = .eq ↔ len r = len s ∧ r.lo = s.lo := by
  unfold metaslabRangesizeCompare
  split_ifs <;> simp <;> omega

/-- `metaslab_rangesize_compare` as an order. -/
def SizeLe (r s : Seg) : Prop := metaslabRangesizeCompare r s ≠ .gt

instance : DecidableRel SizeLe := fun r s => inferInstanceAs (Decidable (metaslabRangesizeCompare r s ≠ .gt))

instance : Std.Total SizeLe := ⟨fun r s => by
  unfold SizeLe
  rw [rangesizeCompare_ne_gt, rangesizeCompare_ne_gt]
  omega⟩

instance : IsTrans Seg SizeLe := ⟨fun r s t => by
  unfold SizeLe
  rw [rangesizeCompare_ne_gt, rangesizeCompare_ne_gt, rangesizeCompare_ne_gt]
  omega⟩

lemma sorted_allocatableBySize (rt : RangeTree) : (allocatableBySize rt).Pairwise SizeLe :=
  pairwise_insertionSort SizeLe rt.rtRoot

variable {rs : Seg}

/-- No segment is longer than the last one in the order of sizes. -/
lemma len_le_getLast {rt : RangeTree} {last : Seg} (hlast : (allocatableBySize rt).getLast? = some last)
    (hrs : rs ∈ rt.rtRoot) : len rs ≤ len last := by
  have hsplit := dropLast_append_getLast? last hlast
  have hmem := mem_allocatableBySize.2 hrs
  have hsorted := sorted_allocatableBySize rt
  rw [← hsplit] at hmem hsorted
  rcases mem_append.1 hmem with h | h
  · have := rangesizeCompare_ne_gt.1 ((pairwise_append.1 hsorted).2.2 rs h last (mem_singleton_self last))
    omega
  · rw [mem_singleton.1 h]

lemma len_le_maxsize (rt : RangeTree) (hrs : rs ∈ rt.rtRoot) : len rs ≤ metaslabBlockMaxsize rt := by
  unfold metaslabBlockMaxsize
  cases hlast : (allocatableBySize rt).getLast? with
  | none =>
    rw [List.getLast?_eq_none_iff] at hlast
    have := mem_allocatableBySize.2 hrs
    rw [hlast] at this
    exact absurd this not_mem_nil
  | some last => exact len_le_getLast hlast hrs

end

/-! ## The calls of the range tree -/

/-- A call of `rtop_add` or `rtop_remove`, with the segment. -/
inductive RtopCall | add (rs : Seg) | remove (rs : Seg)
deriving DecidableEq

/-- The calls that `range_tree_add` makes. -/
def rangeTreeAddCalls (rt : RangeTreeRep) (start size : Nat) : List RtopCall :=
  let rsearch : Seg := ⟨start, start + size⟩
  let mergeBefore := (avlBefore rt.rtRoot rsearch).getLast?.filter fun rs => rs.hi = start
  let mergeAfter := (avlAfter rt.rtRoot rsearch).head?.filter fun rs => rs.lo = start + size
  match mergeBefore, mergeAfter with
  | some b, some a => [.remove b, .remove a, .add ⟨b.lo, a.hi⟩]
  | some b, none => [.remove b, .add ⟨b.lo, start + size⟩]
  | none, some a => [.remove a, .add ⟨start, a.hi⟩]
  | none, none => [.add rsearch]

/-- The calls that `range_tree_remove` makes on the segment `rs` that it finds. -/
def rangeTreeRemoveCalls (rt : RangeTreeRep) (start size : Nat) : List RtopCall :=
  match avlFind rt.rtRoot ⟨start, start + size⟩ with
  | none => []
  | some rs =>
    let left : Seg := ⟨rs.lo, start⟩
    let right : Seg := ⟨start + size, rs.hi⟩
    .remove rs ::
      match decide (rs.lo ≠ start), decide (rs.hi ≠ start + size) with
      | true, true => [.add right, .add left]
      | true, false => [.add left]
      | false, true => [.add right]
      | false, false => []

/-- `metaslab_rt_add`, where `avl_add` may panic, and `metaslab_rt_remove`. -/
def metaslabRtCall (bySize : List Seg) : RtopCall → Except Fault (List Seg)
  | .add rs => do
    VERIFY (∀ s ∈ bySize, metaslabRangesizeCompare rs s ≠ .eq)
    .ok (bySize.orderedInsert SizeLe rs)
  | .remove rs => do
    VERIFY (rs ∈ bySize)
    .ok (bySize.erase rs)

/-- `ms_allocatable` with `ms_allocatable_by_size`. -/
structure AllocatableTrees where
  msAllocatable : RangeTreeRep
  msAllocatableBySize : List Seg

namespace AllocatableTrees

/-- `range_tree_create` with `metaslab_rt_create`. -/
def create : AllocatableTrees := ⟨.empty, []⟩

def add (a : AllocatableTrees) (start size : Nat) : Except Fault AllocatableTrees := do
  let rt ← rangeTreeAddRep a.msAllocatable start size
  let bySize ← (rangeTreeAddCalls a.msAllocatable start size).foldlM metaslabRtCall a.msAllocatableBySize
  .ok ⟨rt, bySize⟩

def remove (a : AllocatableTrees) (start size : Nat) : Except Fault AllocatableTrees := do
  let rt ← rangeTreeRemoveRep a.msAllocatable start size
  let bySize ← (rangeTreeRemoveCalls a.msAllocatable start size).foldlM metaslabRtCall a.msAllocatableBySize
  .ok ⟨rt, bySize⟩

/-- `range_tree_vacate` with `metaslab_rt_vacate`. -/
def vacate (_ : AllocatableTrees) : AllocatableTrees := ⟨.empty, []⟩

/-- The states that the operations on `ms_allocatable` lead to. -/
inductive Reachable : AllocatableTrees → Prop
  | create : Reachable create
  | add {a a' : AllocatableTrees} {start size : Nat} : Reachable a → a.add start size = .ok a' → Reachable a'
  | remove {a a' : AllocatableTrees} {start size : Nat} : Reachable a → a.remove start size = .ok a' → Reachable a'
  | vacate {a : AllocatableTrees} : Reachable a → Reachable a.vacate

/-- The tree by size has the segments of the tree by offset. -/
structure Mirror (a : AllocatableTrees) : Prop where
  consistent : a.msAllocatable.Consistent
  sorted : a.msAllocatableBySize.Pairwise SizeLe
  perm : a.msAllocatableBySize.Perm a.msAllocatable.rtRoot

end AllocatableTrees

/-! ## The mirror is kept -/

variable {l : List Seg}

lemma separated_nodup (h : Separated l) : l.Nodup := by
  have hgap := h.gap
  apply hgap.imp_of_mem
  rintro a b ha hb hlt rfl
  have := h.pos a ha
  omega

variable {del : List Seg}

lemma erase_all {bySize r : List Seg} (hsorted : bySize.Pairwise SizeLe) (hperm : bySize.Perm (l ++ del ++ r)) :
    ∃ bySize', (del.map RtopCall.remove).foldlM metaslabRtCall bySize = .ok bySize' ∧
      bySize'.Pairwise SizeLe ∧ bySize'.Perm (l ++ r) := by
  induction del generalizing bySize with
  | nil => exact ⟨bySize, rfl, hsorted, by simpa using hperm⟩
  | cons d del ih =>
    have hmem : d ∈ bySize := hperm.mem_iff.2 (by simp)
    have herase : (bySize.erase d).Perm (l ++ del ++ r) := by
      have h := (perm_cons_erase hmem).symm.trans hperm
      have hmid : (l ++ d :: del ++ r).Perm (d :: (l ++ del ++ r)) := by
        rw [append_assoc, append_assoc, cons_append]
        exact perm_middle
      exact (h.trans hmid).cons_inv
    obtain ⟨bySize', hrun, hs, hp⟩ := ih (hsorted.sublist (erase_sublist)) herase
    refine ⟨bySize', ?_, hs, hp⟩
    rw [map_cons, foldlM_cons, metaslabRtCall, VERIFY_bind hmem]
    exact hrun

lemma eq_of_rangesizeCompare (hr : r.lo < r.hi) (hs : s.lo < s.hi) (h : metaslabRangesizeCompare r s = .eq) : r = s := by
  obtain ⟨hlen, hlo⟩ := rangesizeCompare_eq.1 h
  unfold len at hlen
  cases r
  cases s
  dsimp only at *
  rw [Seg.mk.injEq]
  omega

lemma add_all : ∀ (adds : List Seg) {bySize m : List Seg}, bySize.Pairwise SizeLe → bySize.Perm m →
    (adds ++ m).Nodup → (∀ s ∈ adds ++ m, s.lo < s.hi) →
    ∃ bySize', (adds.map RtopCall.add).foldlM metaslabRtCall bySize = .ok bySize' ∧
      bySize'.Pairwise SizeLe ∧ bySize'.Perm (adds ++ m)
  | [], bySize, m, hsorted, hperm, _, _ => ⟨bySize, rfl, hsorted, hperm⟩
  | d :: adds, bySize, m, hsorted, hperm, hnodup, hpos => by
    rw [cons_append, nodup_cons] at hnodup
    have hfresh : ∀ s ∈ bySize, metaslabRangesizeCompare d s ≠ .eq := by
      intro s hs heq
      have hm : s ∈ adds ++ m := mem_append_right _ (hperm.mem_iff.1 hs)
      have := eq_of_rangesizeCompare (hpos d mem_cons_self) (hpos s (mem_cons_of_mem _ hm)) heq
      exact hnodup.1 (this ▸ hm)
    have hmid : (adds ++ d :: m).Perm (d :: (adds ++ m)) := perm_middle
    obtain ⟨bySize', hrun, hs, hp⟩ := add_all adds (m := d :: m)
      (List.Pairwise.orderedInsert d bySize hsorted) ((perm_orderedInsert SizeLe d bySize).trans (hperm.cons d))
      (hmid.nodup_iff.2 (nodup_cons.2 hnodup)) fun s hs => hpos s (hmid.mem_iff.1 hs)
    refine ⟨bySize', ?_, hs, hp.trans hmid⟩
    rw [map_cons, foldlM_cons, metaslabRtCall, VERIFY_bind hfresh]
    exact hrun

variable {rt rt' : RangeTreeRep}

/-- Some neighbours leave the tree and one segment comes in their place. -/
lemma rangeTreeAddCalls_eq {start size : Nat} (h : rangeTreeAddRep rt start size = .ok rt') :
    ∃ l del r m, rt.rtRoot = l ++ del ++ r ∧ rt'.rtRoot = l ++ [m] ++ r ∧
      rangeTreeAddCalls rt start size = del.map .remove ++ [m].map .add := by
  have hsplit := before_append_after rt.rtRoot ⟨start, start + size⟩
  unfold rangeTreeAddRep at h
  obtain ⟨-, -, h⟩ := bind_returns.1 h
  dsimp only at h
  cases hf : avlFind rt.rtRoot ⟨start, start + size⟩ with
  | some rs =>
    rw [hf] at h
    dsimp only at h
    split_ifs at h
  | none =>
    rw [hf] at h
    unfold rangeTreeAddCalls
    dsimp only at h ⊢
    generalize avlBefore rt.rtRoot ⟨start, start + size⟩ = before at *
    generalize avlAfter rt.rtRoot ⟨start, start + size⟩ = after at *
    cases hb : before.getLast?.filter (fun rs => rs.hi = start) with
    | none =>
      cases ha : after.head?.filter (fun rs => rs.lo = start + size) with
      | none =>
        rw [hb, ha] at h
        cases h
        exact ⟨before, [], after, _, by simp [hsplit], by simp, rfl⟩
      | some a =>
        rw [hb, ha] at h
        cases h
        obtain ⟨-, hat⟩ := of_head?_filter ha
        exact ⟨before, [a], after.tail, _, by simp [← hsplit, ← hat], by simp, rfl⟩
    | some b =>
      obtain ⟨-, hbt⟩ := of_getLast?_filter hb
      cases ha : after.head?.filter (fun rs => rs.lo = start + size) with
      | none =>
        rw [hb, ha] at h
        cases h
        exact ⟨before.dropLast, [b], after, _, by rw [← hbt, hsplit], by simp, rfl⟩
      | some a =>
        rw [hb, ha] at h
        cases h
        obtain ⟨-, hat⟩ := of_head?_filter ha
        refine ⟨before.dropLast, [b, a], after.tail, ⟨b.lo, a.hi⟩, ?_, by simp, rfl⟩
        rw [← hsplit, hbt, hat]
        simp

/-- The segment that holds the range leaves, and its ends come back. -/
lemma rangeTreeRemoveCalls_eq {start size : Nat} (hc : rt.Consistent) (h : rangeTreeRemoveRep rt start size = .ok rt') :
    ∃ (l : List Seg) (rs : Seg) (r pieces adds : List Seg), rt.rtRoot = l ++ [rs] ++ r ∧ rt'.rtRoot = l ++ pieces ++ r ∧ adds.Perm pieces ∧
      rangeTreeRemoveCalls rt start size = [rs].map .remove ++ adds.map .add := by
  have hsize := (subset_of_rangeTreeRemoveRep h).1
  have hsplit := before_append_after rt.rtRoot ⟨start, start + size⟩
  have hr : (⟨start, start + size⟩ : Seg).lo < (⟨start, start + size⟩ : Seg).hi := by dsimp only; omega
  unfold rangeTreeRemoveRep at h
  obtain ⟨-, -, h⟩ := bind_returns.1 h
  obtain ⟨-, -, h⟩ := bind_returns.1 h
  dsimp only at h
  cases hf : avlFind rt.rtRoot ⟨start, start + size⟩ with
  | none => rw [hf] at h; cases h
  | some rs =>
    obtain ⟨after, hafter⟩ := after_of_find_some hc.separated hr hf
    rw [hf] at h
    obtain ⟨-, -, h⟩ := bind_returns.1 h
    obtain ⟨-, -, h⟩ := bind_returns.1 h
    rw [hafter, tail_cons] at h
    rw [hafter] at hsplit
    unfold rangeTreeRemoveCalls
    rw [hf]
    dsimp only
    have hroot : rt.rtRoot = avlBefore rt.rtRoot ⟨start, start + size⟩ ++ [rs] ++ after := by
      rw [append_assoc, singleton_append, hsplit]
    cases hl : decide (rs.lo ≠ start) <;> cases hh : decide (rs.hi ≠ start + size) <;> rw [hl, hh] at h <;> cases h
    · exact ⟨_, rs, after, [], [], hroot, rfl, .refl _, rfl⟩
    · exact ⟨_, rs, after, [⟨start + size, rs.hi⟩], _, hroot, rfl, .refl _, rfl⟩
    · exact ⟨_, rs, after, [⟨rs.lo, start⟩], _, hroot, rfl, .refl _, rfl⟩
    · exact ⟨_, rs, after, [⟨rs.lo, start⟩, ⟨start + size, rs.hi⟩], [⟨start + size, rs.hi⟩, ⟨rs.lo, start⟩], hroot, rfl,
        .swap _ _ _, rfl⟩

namespace AllocatableTrees

variable {a a' : AllocatableTrees} {start size : Nat}

/-- Consecutive segments make way for others, in the tree by size too. -/
lemma Mirror.replace (h : a.Mirror) {r pieces adds : List Seg}
    (hroot : a.msAllocatable.rtRoot = l ++ del ++ r) (hroot' : rt'.rtRoot = l ++ pieces ++ r) (hadds : adds.Perm pieces)
    (hc' : rt'.Consistent) :
    ∃ bySize, (del.map RtopCall.remove ++ adds.map RtopCall.add).foldlM metaslabRtCall a.msAllocatableBySize = .ok bySize ∧
      Mirror ⟨rt', bySize⟩ := by
  obtain ⟨bySize1, hrun1, hs1, hp1⟩ := erase_all h.sorted (hroot ▸ h.perm)
  have hperm : (adds ++ (l ++ r)).Perm rt'.rtRoot := by
    rw [hroot', append_assoc]
    refine (hadds.append_right _).trans ?_
    rw [← append_assoc, ← append_assoc]
    exact (perm_append_comm).append_right r
  obtain ⟨bySize2, hrun2, hs2, hp2⟩ := add_all adds hs1 hp1 (hperm.nodup_iff.2 (separated_nodup hc'.separated))
    fun s hs => hc'.separated.pos s (hperm.mem_iff.1 hs)
  refine ⟨bySize2, ?_, hc', hs2, hp2.trans hperm⟩
  rw [foldlM_append, hrun1]
  exact hrun2

/-- **Adding** keeps the mirror, and nothing panics. -/
theorem Mirror.add (h : a.Mirror) (hsize : size ≠ 0)
    (hd : Disjoint (cover a.msAllocatable.rtRoot) (Finset.Ico start (start + size))) :
    ∃ a', a.add start size = .ok a' ∧ a'.Mirror := by
  obtain ⟨rt', heq, hc', -⟩ := rangeTreeAddRep_of_disjoint h.consistent hsize hd
  obtain ⟨l, del, r, m, hroot, hroot', hcalls⟩ := rangeTreeAddCalls_eq heq
  obtain ⟨bySize, hrun, hm⟩ := h.replace hroot hroot' (.refl [m]) hc'
  refine ⟨⟨rt', bySize⟩, ?_, hm⟩
  rw [AllocatableTrees.add, heq, ok_bind, hcalls, hrun, ok_bind]

/-- **Removing** keeps the mirror. -/
theorem Mirror.remove (h : a.Mirror) (hsize : size ≠ 0)
    (hsub : Finset.Ico start (start + size) ⊆ cover a.msAllocatable.rtRoot) :
    ∃ a', a.remove start size = .ok a' ∧ a'.Mirror := by
  obtain ⟨rt', heq, hc', -⟩ := rangeTreeRemoveRep_of_subset h.consistent hsize hsub
  obtain ⟨l, rs, r, pieces, adds, hroot, hroot', hadds, hcalls⟩ := rangeTreeRemoveCalls_eq h.consistent heq
  obtain ⟨bySize, hrun, hm⟩ := h.replace hroot hroot' hadds hc'
  refine ⟨⟨rt', bySize⟩, ?_, hm⟩
  rw [AllocatableTrees.remove, heq, ok_bind, hcalls, hrun, ok_bind]

lemma mirror_empty : Mirror ⟨.empty, []⟩ := ⟨⟨.nil, rfl, fun _ => rfl⟩, .nil, .refl _⟩

/-- **The run lemma**: the mirror is kept. -/
theorem Reachable.mirror (h : Reachable a) : a.Mirror := by
  induction h with
  | create => exact mirror_empty
  | vacate => exact mirror_empty
  | add _ heq ih =>
    obtain ⟨rt', h1, -⟩ := bind_returns.1 heq
    obtain ⟨hsize, hd⟩ := disjoint_of_rangeTreeAddRep ih.consistent h1
    obtain ⟨a', heq', hm⟩ := ih.add hsize hd
    cases heq.symm.trans heq'
    exact hm
  | remove _ heq ih =>
    obtain ⟨rt', h1, -⟩ := bind_returns.1 heq
    obtain ⟨hsize, hsub⟩ := subset_of_rangeTreeRemoveRep h1
    obtain ⟨a', heq', hm⟩ := ih.remove hsize hsub
    cases heq.symm.trans heq'
    exact hm

lemma Mirror.bySize_eq (h : a.Mirror) : a.msAllocatableBySize = allocatableBySize ⟨a.msAllocatable, h.consistent⟩ := by
  have hperm : a.msAllocatableBySize.Perm (allocatableBySize ⟨a.msAllocatable, h.consistent⟩) :=
    h.perm.trans (perm_insertionSort SizeLe _).symm
  apply hperm.eq_of_pairwise _ h.sorted (sorted_allocatableBySize _)
  intro r s hr hs h1 h2
  have hpos := h.consistent.separated.pos
  have hr' := hpos r (h.perm.mem_iff.1 hr)
  have hs' := hpos s (mem_allocatableBySize.1 hs)
  have h1' := rangesizeCompare_ne_gt.1 h1
  have h2' := rangesizeCompare_ne_gt.1 h2
  apply eq_of_rangesizeCompare hr' hs'
  rw [rangesizeCompare_eq]
  omega

lemma Mirror.strict (h : a.Mirror) : a.msAllocatableBySize.Pairwise fun r s => metaslabRangesizeCompare r s = .lt := by
  have hnodup : a.msAllocatableBySize.Nodup := h.perm.nodup_iff.2 (separated_nodup h.consistent.separated)
  apply (h.sorted.and hnodup).imp_of_mem
  rintro r s hr hs ⟨hle, hne⟩
  have hpos := fun x hx => h.consistent.separated.pos x (h.perm.mem_iff.1 hx)
  have hle' := rangesizeCompare_ne_gt.1 hle
  rw [rangesizeCompare_lt]
  by_contra hnot
  apply hne
  apply eq_of_rangesizeCompare (hpos r hr) (hpos s hs)
  rw [rangesizeCompare_eq]
  omega

end AllocatableTrees

end Unleashed.Zfs
