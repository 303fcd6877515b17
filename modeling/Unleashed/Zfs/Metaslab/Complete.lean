import Unleashed.Zfs.Metaslab.BySize
import Unleashed.Zfs.Metaslab.Partition

/-!
# The allocators miss no free space

A search by offset may skip segments that overlap the searched range. What saves the allocators is that they start
over from offset 0: there a skipped segment ends before the size that is asked for.
-/

namespace Unleashed.Zfs

open Lib Lib.Segs List

/-! ## The picker -/

section
variable {hit : Nat → Nat} {size align : Nat}

lemma metaslabBlockScan_none (halign : 0 < align) (hle : align ≤ size) {l : List Seg} (hno : NoWrap l size)
    (h : metaslabBlockScan size align l = none) :
    ∀ rs ∈ l, ¬ p2roundup rs.lo align + size ≤ rs.hi := by
  induction l with
  | nil => exact fun _ h => absurd h not_mem_nil
  | cons rs l ih =>
    rw [metaslabBlockScan_cons halign hle (hno rs mem_cons_self)] at h
    by_cases hfit : p2roundup rs.lo align + size ≤ rs.hi
    · rw [if_pos hfit] at h
      cases h
    · rw [if_neg hfit] at h
      intro s hs
      rcases mem_cons.1 hs with rfl | hs
      · exact hfit
      · exact ih (fun r hr => hno r (mem_cons_of_mem rs hr)) h s hs

variable {cursor : Nat} {t : List Seg}

/-- When the picker gives up it has scanned from the start of the tree. -/
lemma scan_zero_of_picker_none {compare : Seg → Seg → Ordering}
    (h : (metaslabBlockPicker compare hit t cursor size align).1 = none) :
    metaslabBlockScan size align (metaslabBlockFrom compare hit t 0 size) = none := by
  unfold metaslabBlockPicker at h
  cases h1 : metaslabBlockScan size align (metaslabBlockFrom compare hit t cursor size) with
  | some offset => rw [h1] at h; cases h
  | none =>
    rw [h1] at h
    by_cases hc : cursor = 0
    · rw [← hc, h1]
    · rw [if_neg hc] at h
      cases h2 : metaslabBlockScan size align (metaslabBlockFrom compare hit t 0 size) with
      | some offset => rw [h2] at h; cases h
      | none => rfl

variable {rs : Seg}

lemma mem_dropWhile_self (h : rs ∈ t) : ∃ l, t.dropWhile (fun s => s ≠ rs) = rs :: l := by
  induction t with
  | nil => exact absurd h not_mem_nil
  | cons s t ih =>
    by_cases hs : s = rs
    · subst hs
      exact ⟨t, by rw [dropWhile_cons_of_neg (by simp)]⟩
    · rw [dropWhile_cons_of_pos (by simpa using hs)]
      exact ih ((mem_cons.1 h).resolve_left fun heq => hs heq.symm)

/-- The scan from offset 0 leaves out only segments that end before `size`. -/
lemma mem_metaslabBlockFrom_zero (hsep : Separated t) (hsize : 0 < size) (hlt : size < 2 ^ 64) (hrs : rs ∈ t)
    (hlong : size ≤ rs.hi) : rs ∈ metaslabBlockFrom rangeTreeSegCompare hit t 0 size := by
  have hr : (⟨0, 0 + size⟩ : Seg).lo < (⟨0, 0 + size⟩ : Seg).hi := by dsimp only; omega
  unfold metaslabBlockFrom metaslabBlockFind avlFindOrAfter
  rw [Nat.mod_eq_of_lt (show 0 + size < 2 ^ 64 by omega)]
  cases hf : avlFindHit rangeTreeSegCompare (hit 0) t ⟨0, 0 + size⟩ with
  | some found =>
    obtain ⟨hmem, heq⟩ := findHit_some hf
    have hov := (compare_eq hr (hsep.pos found hmem)).1 heq
    dsimp only at hov ⊢
    by_contra hskip
    -- a skipped segment ends before the one that was found, which starts before `size`
    have hsplit : t.takeWhile (fun s => s ≠ found) ++ t.dropWhile (fun s => s ≠ found) = t := takeWhile_append_dropWhile
    obtain ⟨l, hl⟩ := mem_dropWhile_self hmem
    have hbefore : rs ∈ t.takeWhile fun s => s ≠ found := by
      rw [← hsplit] at hrs
      exact (mem_append.1 hrs).resolve_right hskip
    have hgap := (separated_append.1 (hsplit.symm ▸ hsep)).2.2 rs hbefore found (by rw [hl]; exact mem_cons_self)
    omega
  | none =>
    dsimp only
    -- nothing overlaps, so every segment comes after the searched range
    have hlt : ∀ s ∈ t, rangeTreeSegCompare ⟨0, 0 + size⟩ s = .lt := by
      intro s hs
      have hne := mt (compare_eq hr (hsep.pos s hs)).2 (findHit_none hf hs)
      have hpos := hsep.pos s hs
      have hgt := mt (compare_gt (r := ⟨0, 0 + size⟩) hpos).1 (by dsimp only; omega)
      have heq := findHit_none hf hs
      cases hc : rangeTreeSegCompare ⟨0, 0 + size⟩ s with
      | lt => rfl
      | eq => exact absurd hc heq
      | gt => exact absurd hc hgt
    cases t with
    | nil => exact absurd hrs not_mem_nil
    | cons s l =>
      rw [List.find?_cons_of_pos (by simpa using hlt s mem_cons_self)]
      dsimp only
      rw [dropWhile_cons_of_neg (by simp)]
      exact hrs

/-- **The picker by offset** gives up only if no segment has an aligned run. -/
theorem picker_root_none {rt : RangeTree} (halign : 0 < align) (hle : align ≤ size) (hlt : size < 2 ^ 64)
    (hno : NoWrap rt.rtRoot size)
    (h : (metaslabBlockPicker rangeTreeSegCompare hit rt.rtRoot cursor size align).1 = none) :
    ∀ rs ∈ rt.rtRoot, ¬ p2roundup rs.lo align + size ≤ rs.hi := by
  intro rs hrs hfit
  exact metaslabBlockScan_none halign hle (fun r hr => hno r (metaslabBlockFrom_subset hr)) (scan_zero_of_picker_none h) rs
    (mem_metaslabBlockFrom_zero rt.consistent.separated (by omega) hlt hrs (by omega)) hfit

/-- What a search by size finds is at least as long as what was searched for. -/
lemma bySize_find_len {n : Nat}
    (h : avlFindOrAfter metaslabRangesizeCompare hit t ⟨0, n⟩ = some rs) : rs ∈ t ∧ n ≤ len rs := by
  have hn : len ⟨0, n⟩ = n := rfl
  unfold avlFindOrAfter at h
  cases hf : avlFindHit metaslabRangesizeCompare (hit 0) t ⟨0, n⟩ with
  | some found =>
    rw [hf] at h
    obtain ⟨hmem, heq⟩ := findHit_some hf
    rw [rangesizeCompare_eq, hn] at heq
    cases h
    exact ⟨hmem, heq.1.le⟩
  | none =>
    rw [hf] at h
    have hfound := List.find?_some h
    have hlt := of_decide_eq_true hfound
    rw [rangesizeCompare_lt, hn] at hlt
    exact ⟨mem_of_find?_eq_some h, by omega⟩

lemma p2roundup_one (x : Nat) : p2roundup x 1 = x := by
  unfold p2roundup
  omega

/-- **The picker by size** gives up only if no segment is long enough. -/
theorem picker_bySize_none {rt : RangeTree} (hsize : 0 < size) (hlt : size < 2 ^ 64) (hno : NoWrap rt.rtRoot size)
    (h : (metaslabBlockPicker metaslabRangesizeCompare hit (allocatableBySize rt) 0 size 1).1 = none) :
    ∀ rs ∈ rt.rtRoot, len rs < size := by
  intro rs hrs
  by_contra hlong
  have hscan := scan_zero_of_picker_none h
  unfold metaslabBlockFrom metaslabBlockFind at hscan
  rw [Nat.zero_add, Nat.mod_eq_of_lt hlt] at hscan
  cases hf : avlFindOrAfter metaslabRangesizeCompare hit (allocatableBySize rt) ⟨0, size⟩ with
  | none =>
    refine avlFindOrAfter_ne_none (mem_allocatableBySize.2 hrs) ?_ hf
    rw [rangesizeCompare_ne_gt]
    have : len ⟨0, size⟩ = size := rfl
    dsimp only
    omega
  | some found =>
    rw [hf] at hscan
    obtain ⟨hmem, hlen⟩ := bySize_find_len hf
    obtain ⟨l, hl⟩ := mem_dropWhile_self hmem
    have hpos := rt.consistent.separated.pos found (mem_allocatableBySize.1 hmem)
    dsimp only at hscan
    rw [hl] at hscan
    have hno' : NoWrap (found :: l) size := fun r hr =>
      hno r (mem_allocatableBySize.1 ((dropWhile_suffix _).subset (hl ▸ hr)))
    apply metaslabBlockScan_none one_pos hsize hno' hscan found mem_cons_self
    rw [p2roundup_one]
    unfold len at hlen
    omega

end

/-! ## The allocators -/

section
variable {rt : RangeTree} {size : Nat} {lbas lbas' hit : Nat → Nat}

lemma p2roundup_le {x y align : Nat} (halign : 0 < align) (hdvd : align ∣ y) (h : x ≤ y) : p2roundup x align ≤ y := by
  obtain ⟨k, rfl⟩ := hdvd
  have hle : (x + align - 1) / align ≤ k := by
    rw [Nat.div_le_iff_le_mul_add_pred halign]
    omega
  unfold p2roundup
  rw [Nat.mul_comm align k]
  exact Nat.mul_le_mul_right align hle

/-- The range `[start, start + size)` lies in one free segment. -/
def InSegment (rt : RangeTree) (start size : Nat) : Prop := ∃ rs ∈ rt.rtRoot, rs.lo ≤ start ∧ start + size ≤ rs.hi

lemma inSegment_of_subset {start : Nat} (hsize : 0 < size) (h : Finset.Ico start (start + size) ⊆ rt.cover) :
    InSegment rt start size :=
  rt.consistent.separated.exists_of_subset (by omega) h

/-- **First fit.** -/
theorem metaslabFfAlloc_complete (hsize : 0 < size) (hlt : size < 2 ^ 64) (hno : NoWrap rt.rtRoot size) :
    (∀ start, (metaslabFfAlloc rt hit lbas size).1 = some start → sizeAlign size ∣ start) ∧
    ((metaslabFfAlloc rt hit lbas size).1 = none → ¬ ∃ start, sizeAlign size ∣ start ∧ InSegment rt start size) := by
  have halign := sizeAlign_pos hsize hlt
  unfold metaslabFfAlloc
  constructor
  · intro start h
    obtain ⟨rs, -, rfl, -⟩ := metaslabBlockPicker_some halign (sizeAlign_le size) hno h
    exact Dvd.intro_left _ rfl
  · rintro h ⟨start, hdvd, rs, hrs, hlo, hhi⟩
    have := p2roundup_le halign hdvd hlo
    exact picker_root_none halign (sizeAlign_le size) hlt hno h rs hrs (by omega)

variable {tun : MetaslabTunables}

/-- **Dynamic fit.** -/
theorem metaslabDfAlloc_complete {msSize : Nat} (hsize : 0 < size) (hlt : size < 2 ^ 64) (hno : NoWrap rt.rtRoot size)
    (h : (metaslabDfAlloc tun msSize rt hit lbas size).1 = none) : ∀ rs ∈ rt.rtRoot, rs.hi - rs.lo < size := by
  intro rs hrs
  unfold metaslabDfAlloc at h
  by_cases hmax : metaslabBlockMaxsize rt < size
  · exact (len_le_maxsize rt hrs).trans_lt hmax
  · rw [if_neg hmax] at h
    split_ifs at h with hbest
    · exact picker_bySize_none hsize hlt hno h rs hrs
    · have hfit := picker_root_none one_pos hsize hlt hno h rs hrs
      rw [p2roundup_one] at hfit
      omega

/-- **Cursor fit.** -/
theorem metaslabCfAlloc_complete (h : metaslabCfAlloc rt lbas size = .ok (none, lbas')) :
    ∀ rs ∈ rt.rtRoot, rs.hi - rs.lo < size := by
  intro rs hrs
  unfold metaslabCfAlloc at h
  obtain ⟨-, -, h⟩ := bind_returns.1 h
  by_cases hend : lbas 1 < (lbas 0 + size) % 2 ^ 64
  · rw [if_pos hend] at h
    cases hlast : (allocatableBySize rt).getLast? with
    | none =>
      rw [List.getLast?_eq_none_iff] at hlast
      have := mem_allocatableBySize.2 hrs
      rw [hlast] at this
      exact absurd this not_mem_nil
    | some last =>
      rw [hlast] at h
      dsimp only at h
      by_cases hlen : last.hi - last.lo < size
      · exact (len_le_getLast hlast hrs).trans_lt hlen
      · rw [if_neg hlen] at h
        cases h
  · rw [if_neg hend] at h
    cases h

lemma lt_two_pow_highbit64 (n k : Nat) : n < 1 <<< (highbit64 n + k) := by
  rw [Nat.one_shiftLeft]
  refine lt_of_lt_of_le ?_ (Nat.pow_le_pow_right (by decide) (Nat.le_add_right _ k))
  unfold highbit64
  split_ifs with h
  · rw [h]
    decide
  · exact Nat.lt_log2_self

/-- **New dynamic fit.** -/
theorem metaslabNdfAlloc_complete (hshift : highbit64 size + tun.metaslabNdfClumpShift < 64)
    (h : metaslabNdfAlloc tun rt hit lbas size = .ok (none, lbas')) :
    ∀ rs ∈ rt.rtRoot, rs.hi - rs.lo < size := by
  intro rs hrs
  unfold metaslabNdfAlloc at h
  dsimp only at h
  by_cases hmax : metaslabBlockMaxsize rt < size
  · exact (len_le_maxsize rt hrs).trans_lt hmax
  · -- either search ends at a segment that is long enough
    exfalso
    rw [if_neg hmax] at h
    generalize hfirst : Option.filter _ _ = first at h
    cases first with
    | some found =>
      obtain ⟨-, hlen⟩ := Option.filter_eq_some_iff.1 hfirst
      dsimp only at h
      rw [ok_bind] at h
      dsimp only at h
      rw [if_pos (of_decide_eq_true hlen)] at h
      cases h
    | none =>
      dsimp only at h
      rw [if_neg (Nat.not_le.2 hshift), ok_bind] at h
      generalize hafter : avlFindOrAfter _ _ _ _ = second at h
      cases second with
      | none => cases h
      | some found =>
        obtain ⟨-, hlen⟩ := bySize_find_len hafter
        have := lt_two_pow_highbit64 size tun.metaslabNdfClumpShift
        unfold len at hlen
        dsimp only at h
        rw [if_pos (by omega)] at h
        cases h

end

/-- What an allocator answers: a range in one free segment, aligned for first fit, or nothing if none is. -/
structure Exact (ops : MetaslabOps) (rt : RangeTree) (size : Nat) (offset : Option Nat) : Prop where
  free : ∀ start, offset = some start → InSegment rt start size
  aligned : ∀ start, offset = some start → ops = .ff → sizeAlign size ∣ start
  complete : offset = none → ops ≠ .ff → ∀ rs ∈ rt.rtRoot, rs.hi - rs.lo < size
  complete_ff : offset = none → ops = .ff → ¬ ∃ start, sizeAlign size ∣ start ∧ InSegment rt start size

lemma msopAlloc_exact {rt : RangeTree} {k size : Nat} (hw : Whole (2 ^ k) rt.cover) (hk : k ≤ 64) {ops : MetaslabOps}
    {top : Nat} (htop : ∀ rs ∈ rt.rtRoot, rs.hi ≤ top) (tun : MetaslabTunables) (msSize : Nat) (hit : Nat → Nat)
    {lbas : Nat → Nat} (hsize : 0 < size) (hsums : top + 2 * size ≤ 2 ^ 64)
    (hshift : ops = .ndf → highbit64 size + tun.metaslabNdfClumpShift < 64) (hdvd : 2 ^ k ∣ size)
    (hcur : CursorFree ops (2 ^ k) top lbas rt.cover) :
    ∃ offset lbas', msopAlloc tun msSize rt hit lbas size ops = .ok (offset, lbas') ∧ Exact ops rt size offset := by
  have hlt : size < 2 ^ 64 := by omega
  have hno : NoWrap rt.rtRoot size := noWrap_of_le htop hsums
  obtain ⟨offset, lbas', heq, hgrants, -⟩ := msopAlloc_spec hw hk rfl htop tun msSize hit hsize hsums hshift hdvd hcur
  refine ⟨offset, lbas', heq, ?_, ?_, ?_, ?_⟩
  · rintro start rfl
    exact inSegment_of_subset hsize hgrants.1
  · rintro start rfl rfl
    exact (metaslabFfAlloc_complete hsize hlt hno).1 start (congrArg Prod.fst (Except.ok.inj heq))
  · rintro rfl hff
    cases ops with
    | ff => exact absurd rfl hff
    | df => exact metaslabDfAlloc_complete hsize hlt hno (congrArg Prod.fst (Except.ok.inj heq))
    | cf => exact metaslabCfAlloc_complete heq
    | ndf => exact metaslabNdfAlloc_complete (hshift rfl) heq
  · rintro rfl rfl
    exact (metaslabFfAlloc_complete hsize hlt hno).2 (congrArg Prod.fst (Except.ok.inj heq))

/-- **The allocators** hand out only free space and miss none, whatever happened before. -/
theorem metaslab_alloc_exact {c : MetaslabConfig} {s : MetaslabRun} (hr : MetaslabRun.Reachable c s) :
    (s.ms.msLoaded = true → ∀ size, Request c size → ∀ hit, ∃ offset lbas',
      msopAlloc c.tun c.smSize s.ms.msAllocatable hit s.ms.msLbas size c.mcOps = .ok (offset, lbas') ∧
      Exact c.mcOps s.ms.msAllocatable size offset) ∧ (∀ a : AllocatableTrees, a.Reachable →
      a.msAllocatableBySize.Perm a.msAllocatable.rtRoot ∧
      a.msAllocatableBySize.Pairwise (fun r s => metaslabRangesizeCompare r s = .lt) ∧
      (a.msAllocatable = s.ms.msAllocatable.toRangeTreeRep → a.msAllocatableBySize = allocatableBySize s.ms.msAllocatable) ∧
      (∀ start size rt, rangeTreeAddRep a.msAllocatable start size = .ok rt →
        ∃ a', a.add start size = .ok a' ∧ a'.msAllocatable = rt) ∧
      ∀ start size rt, rangeTreeRemoveRep a.msAllocatable start size = .ok rt →
        ∃ a', a.remove start size = .ok a' ∧ a'.msAllocatable = rt) := by
  refine ⟨fun hloaded size hrange hit => ?_, fun a ha => ⟨ha.mirror.perm, ha.mirror.strict, ?_, ?_, ?_⟩⟩
  · obtain ⟨owner, h⟩ := hr.inv
    have hcov := h.allocatable hloaded
    exact msopAlloc_exact (hcov ▸ h.whole_sector .free) c.shift_lt.le
      (hi_le_of_subset (hcov.trans_subset (Labels.part_subset _ _ _))) c.tun c.smSize hit hrange.pos hrange.sums hrange.clump
      hrange.size_dvd (hcov ▸ h.cursor)
  · intro heq
    rw [ha.mirror.bySize_eq]
    unfold allocatableBySize
    dsimp only
    rw [heq]
  · intro start size rt h
    obtain ⟨hsize, hd⟩ := disjoint_of_rangeTreeAddRep ha.mirror.consistent h
    obtain ⟨a', heq, -⟩ := ha.mirror.add hsize hd
    refine ⟨a', heq, ?_⟩
    rw [AllocatableTrees.add, h, ok_bind] at heq
    obtain ⟨bySize, -, heq⟩ := bind_returns.1 heq
    cases heq
    rfl
  · intro start size rt h
    obtain ⟨hsize, hsub⟩ := subset_of_rangeTreeRemoveRep h
    obtain ⟨a', heq, -⟩ := ha.mirror.remove hsize hsub
    refine ⟨a', heq, ?_⟩
    rw [AllocatableTrees.remove, h, ok_bind] at heq
    obtain ⟨bySize, -, heq⟩ := bind_returns.1 heq
    cases heq
    rfl

/-- The next sector is found in a metaslab of which one sector is allocated. -/
theorem metaslab_alloc_exact_sector : ∃ s, MetaslabRun.Reachable sectorConfig s ∧ s.ms.msLoaded = true ∧
    ∃ offset lbas', msopAlloc sectorConfig.tun sectorConfig.smSize s.ms.msAllocatable (fun _ => 0) s.ms.msLbas 512
      .df = .ok (offset, lbas') ∧ Exact .df s.ms.msAllocatable 512 offset := by
  obtain ⟨s, hr, hloaded, -⟩ := exists_allocated_run
  exact ⟨s, hr, hloaded, (metaslab_alloc_exact hr).1 hloaded 512
    ⟨⟨by decide, by decide, by decide, by decide⟩, by decide, MetaslabOps.noConfusion⟩ fun _ => 0⟩

/-- The metaslab of eight sectors with the first-fit allocator. -/
def firstFitConfig : MetaslabConfig := { sectorConfig with mcOps := .ff }

/-- For a size that wraps around, first fit returns the start of a segment that is too short. -/
theorem metaslab_ff_alloc_wraps : ∃ s, MetaslabRun.Reachable firstFitConfig s ∧ s.ms.msLoaded = true ∧
    UnitRange firstFitConfig 0 (2 ^ 64 - 512) ∧
    (∃ lbas', msopAlloc firstFitConfig.tun firstFitConfig.smSize s.ms.msAllocatable (fun _ => 0) s.ms.msLbas (2 ^ 64 - 512) .ff =
      .ok (some 4096, lbas')) ∧ ¬ InSegment s.ms.msAllocatable 4096 (2 ^ 64 - 512) := by
  have h0 : MetaslabRun.Reachable firstFitConfig newMetaslabRun := .init (newMetaslabRun_initial _)
  have h1 := h0.step .loadBegin ⟨rfl, rfl⟩ rfl
  have h2 := h1.step (.loadRead fun _ => 0) rfl rfl
  have h3 := h2.step .loadEnd ⟨0, rfl⟩ rfl
  refine ⟨_, h3, rfl, ⟨by decide, by decide, by decide, by decide⟩, ⟨_, rfl⟩, ?_⟩
  rintro ⟨rs, hrs, -, hhi⟩
  have hroot : rs ∈ [(⟨4096, 8192⟩ : Seg)] := hrs
  rw [mem_singleton.1 hroot] at hhi
  exact absurd hhi (by decide)

end Unleashed.Zfs
