import Unleashed.Zfs.Metaslab.Steps

/-!
# Syncing keeps the space partition

The passes of `metaslab_sync`, with and without condensing, and `metaslab_sync_done`.
-/

namespace Unleashed.Zfs

open Lib Lib.Segs Lib.Labels Function Finset MetaslabConfig MetaslabRun RangeTree SpaPhase Option

variable {c : MetaslabConfig} {s : MetaslabRun} {owner : Nat → SpaceState}

/-! ## Steps of the SPA -/

lemma MetaslabRun.Inv.exec_condenseWanted (h : s.Inv c owner) : Keeps c (s.exec c .condenseWanted) :=
  ⟨{ s with ms := { s.ms with msCondenseWanted := true } }, rfl, owner, { h with }⟩

lemma MetaslabRun.Inv.exec_preload (h : s.Inv c owner) : Keeps c (s.exec c .preload) := by
  refine ⟨_, rfl, owner, h.select _ h.cursor ?_⟩
  unfold spaSyncingTxg
  split <;> omega

lemma MetaslabRun.Inv.exec_spaSync (h : s.Inv c owner) (hen : s.Enabled c .spaSync) : Keeps c (s.exec c .spaSync) := by
  have hphase : s.phase = .idle := hen
  have hfresh := h.fresh (by rw [hphase]; trivial)
  refine ⟨_, rfl, owner, { h with
    fresh := fun _ => hfresh
    passNumber := by simp [SpaPhase.passNumber]
    noSm := fun hs => ⟨(h.noSm hs).1, hfresh, (h.noSm hs).2.2.1, by simp⟩
    sm := fun sm hs => by
      have := h.sm sm hs
      simp only [onDisk, hphase] at this ⊢
      exact this
    condensing := by
      have := h.condensing
      rwa [hphase] at this
    condenseTree := fun t ht => by simp [SpaPhase.condensing] at ht }⟩

variable {n : Nat}

/-- Between two calls of `metaslab_sync` the pass number counts on. -/
lemma MetaslabRun.Inv.nextPass (h : s.Inv c owner) {listed : Bool}
    (hphase : s.phase = .pass n listed) (listed' : Bool) (hlisted : listed' = false → listed = false) :
    Inv c { s with phase := .pass (n + 1) listed' } owner :=
  { h with
    fresh := fun hf => by
      have hn := h.passNumber
      rw [hphase] at hn
      simp only [SpaPhase.passNumber, ne_eq, some.injEq] at hn
      apply h.fresh
      rw [hphase]
      rcases hf with hf | hf
      · omega
      · exact .inr (hlisted hf)
    passNumber := by simp [SpaPhase.passNumber]
    noSm := fun hs => ⟨(h.noSm hs).1, (h.noSm hs).2.1, (h.noSm hs).2.2.1, by simp⟩
    sm := fun sm hs => by
      have := h.sm sm hs
      simp only [onDisk, hphase] at this ⊢
      exact this
    condensing := by
      have := h.condensing
      rwa [hphase] at this
    condenseTree := fun t ht => by simp [SpaPhase.condensing] at ht }

lemma MetaslabRun.Inv.exec_nextPass (h : s.Inv c owner) (hen : s.Enabled c .nextPass) : Keeps c (s.exec c .nextPass) := by
  obtain ⟨n, listed, hphase⟩ := hen
  refine ⟨_, ?_, owner, h.nextPass hphase _ id⟩
  simp only [exec, hphase]

/-! ## Entering `metaslab_sync` -/

lemma metaslabSyncBegin_cases (c : MetaslabConfig) (ms : Metaslab) (txg : Nat) :
    metaslabSyncBegin c ms txg = (ms, false) ∨ (∃ sm, ms.msSm = some sm ∧ metaslabSyncBegin c ms txg = (ms, true)) ∨
    ms.msSm = none ∧ metaslabSyncBegin c ms txg = ({ ms with
      msSm := some (.empty c.toSpaceMapRegion c.zfsMetaslabSmBlksz c.blksz_ge c.blksz_dvd) }, true) := by
  unfold metaslabSyncBegin
  by_cases hready : ms.msReady = false
  · exact .inl (if_pos hready)
  rw [if_neg hready]
  split_ifs
  · exact .inl rfl
  · cases hsm : ms.msSm with
    | some sm => exact .inr (.inl ⟨sm, rfl, rfl⟩)
    | none => exact .inr (.inr ⟨rfl, rfl⟩)

lemma MetaslabRun.Inv.exec_syncBegin (h : s.Inv c owner) (hen : s.Enabled c .syncBegin) : Keeps c (s.exec c .syncBegin) := by
  obtain ⟨n, listed, hphase⟩ := hen
  have hexec : s.exec c .syncBegin = .ok { s with
      ms := (metaslabSyncBegin c s.ms (s.lastSynced + 1)).1
      phase := if (metaslabSyncBegin c s.ms (s.lastSynced + 1)).2 then .metaslabSync n .branch
        else .pass (n + 1) true } := by
    simp only [exec, hphase]
  -- the pass begins with a space map that records the allocated offsets
  have hbranch : ∀ sm, sm.toSpaceMapRegion = c.toSpaceMapRegion → sm.Allocates (c.sector owner .allocated) →
      (s.ms.msLoaded = false → sm.Synced (c.sector owner .allocated ∪ c.sector owner .freed)) →
      Inv c { s with ms := { s.ms with msSm := some sm }, phase := .metaslabSync n .branch } owner :=
    fun sm hreg halloc hsync => { h with
      fresh := fun hf => h.fresh (by rw [hphase]; exact .inl hf)
      passNumber := by
        have := h.passNumber
        rwa [hphase] at this
      noSm := by simp
      sm := fun sm' hs => by cases hs; exact ⟨hreg, halloc, hsync⟩
      condensing := by
        have := h.condensing
        rwa [hphase] at this
      condenseTree := fun t ht => by simp [SpaPhase.condensing] at ht }
  refine ⟨_, hexec, owner, ?_⟩
  rcases metaslabSyncBegin_cases c s.ms (s.lastSynced + 1) with hb | ⟨sm, hsm, hb⟩ | ⟨hsm, hb⟩
  · rw [hb]
    exact h.nextPass hphase true (by simp)
  · rw [hb]
    obtain ⟨hreg, halloc, hsync⟩ := h.sm sm hsm
    have := hbranch sm hreg (by simpa only [onDisk, hphase] using halloc) hsync
    rw [← hsm] at this
    exact this
  · rw [hb]
    obtain ⟨ha, hf, -⟩ := h.noSm hsm
    exact hbranch (.empty c.toSpaceMapRegion c.zfsMetaslabSmBlksz c.blksz_ge c.blksz_dvd) rfl
      (ha ▸ allocates_empty _ _ _ _) (fun _ => by rw [ha, hf]; exact synced_empty _ _ _ _)

/-! ## The two ways to write a pass -/

/-- Removing a further tree from what is left of the region. -/
lemma rangeTreeWalk_remove_span (src : RangeTree) {dst : RangeTree} {X : Finset Nat} (hdst : dst.cover = c.span \ X)
    (hsub : src.cover ⊆ c.span) (hdis : Disjoint src.cover X) :
    ∃ rt, rangeTreeWalk src rangeTreeRemove dst = .ok rt ∧ rt.cover = c.span \ (X ∪ src.cover) := by
  obtain ⟨rt, hw, hc⟩ := rangeTreeWalk_remove src dst (hdst ▸ subset_sdiff.2 ⟨hsub, hdis⟩)
  exact ⟨rt, hw, by rw [hc, hdst, sdiff_sdiff_left, sup_eq_union]⟩

/-- **The condense tree** is what is not freed, deferred or allocated for a later txg. -/
theorem MetaslabRun.Inv.condenseTree_eq (h : s.Inv c owner) (hloaded : s.ms.msLoaded = true) :
    ∃ rt, metaslabCondenseTree c s.ms (s.lastSynced + 1) = .ok rt ∧ rt.cover = s.condenseSet c owner := by
  have hsub : ∀ p, c.sector owner p ⊆ c.span := fun p => part_subset _ _ _
  have hF := (union_subset_iff.1 h.pending).1
  have hFspan : s.ms.msFreeing.cover ⊆ c.span := hF.trans (union_subset (hsub _) (hsub _))
  -- a later part is disjoint from what is being freed
  have hFdis : ∀ p, p ≠ .allocated → p ≠ .allocating (txgSlot (s.lastSynced + 1)) →
      Disjoint (c.sector owner p) s.ms.msFreeing.cover := by
    intro p hp hp'
    apply disjoint_of_subset_right hF
    exact disjoint_union_right.2 ⟨part_disjoint _ _ hp, part_disjoint _ _ hp'⟩
  have hslot : ∀ k, 2 ≤ k → k ≤ 3 → txgSlot (s.lastSynced + k) ≠ txgSlot (s.lastSynced + 1) := by
    intro k h2 h3
    rw [Ne, txgSlot_inj]
    omega
  have hslots : txgSlot (s.lastSynced + 3) ≠ txgSlot (s.lastSynced + 2) := by
    rw [Ne, txgSlot_inj]
    omega
  have hd : ∀ {p q : SpaceState}, p ≠ q → Disjoint (c.sector owner p) (c.sector owner q) :=
    fun hpq => part_disjoint _ _ hpq
  obtain ⟨rt0, h0, hc0⟩ := rangeTreeAdd_of_disjoint .create c.smStart (by have := c.pos; omega : c.smSize ≠ 0) (by simp)
  have hc0' : rt0.cover = c.span \ ∅ := by simpa [SpaceMapRegion.span] using hc0
  obtain ⟨rt1, h1, hc1⟩ := rangeTreeWalk_remove_span s.ms.msFreeing hc0' hFspan (by simp)
  obtain ⟨rt2, h₂, hc2⟩ := rangeTreeWalk_remove_span s.ms.msFreed hc1 (by rw [h.freed]; exact hsub _)
    (by rw [h.freed, empty_union]; exact hFdis _ (by simp) (by simp))
  obtain ⟨rt3, h₃, hc3⟩ := rangeTreeWalk_remove_span (s.ms.msDefer 0) hc2 (by rw [h.defer]; exact hsub _) (by
      simp only [h.defer, h.freed, empty_union, disjoint_union_right]
      exact ⟨hFdis _ (by simp) (by simp), hd (by simp)⟩)
  obtain ⟨rt4, h4, hc4⟩ := rangeTreeWalk_remove_span (s.ms.msDefer 1) hc3 (by rw [h.defer]; exact hsub _) (by
      simp only [h.defer, h.freed, empty_union, disjoint_union_right]
      exact ⟨⟨hFdis _ (by simp) (by simp), hd (by simp)⟩, hd (by simp)⟩)
  obtain ⟨rt5, h5, hc5⟩ := rangeTreeWalk_remove_span (s.ms.msAllocating (txgSlot (s.lastSynced + 2))) hc4
    (by rw [h.allocating]; exact hsub _)
    (by
      have := hslot 2 (by omega) (by omega)
      simp only [h.allocating, h.defer, h.freed, empty_union, disjoint_union_right]
      exact ⟨⟨⟨hFdis _ (by simp) (by simpa using this), hd (by simp)⟩, hd (by simp)⟩, hd (by simp)⟩)
  obtain ⟨rt6, h6, hc6⟩ := rangeTreeWalk_remove_span (s.ms.msAllocating (txgSlot (s.lastSynced + 3))) hc5
    (by rw [h.allocating]; exact hsub _)
    (by
      have := hslot 3 (by omega) (by omega)
      simp only [h.allocating, h.defer, h.freed, empty_union, disjoint_union_right]
      exact ⟨⟨⟨⟨hFdis _ (by simp) (by simpa using this), hd (by simp)⟩, hd (by simp)⟩, hd (by simp)⟩,
        hd (by simpa using hslots)⟩)
  refine ⟨rt6, ?_, ?_⟩
  · unfold metaslabCondenseTree
    rw [ASSERT_bind hloaded, h0, ok_bind, h1, ok_bind, h₂, ok_bind, h₃, ok_bind, h4, ok_bind, h5, ok_bind, h6]
  · rw [hc6, condenseSet, empty_union, h.freed, h.defer, h.defer, h.allocating, h.allocating]

variable {at_ : SyncPoint}

/-- `metaslab_sync` goes on to its next point, with the space map written. -/
lemma MetaslabRun.Inv.advance (h : s.Inv c owner)
    (hphase : s.phase = .metaslabSync n at_) (at' : SyncPoint) (condensing wanted : Bool) {sm' : SpaceMap}
    (hreg : sm'.toSpaceMapRegion = c.toSpaceMapRegion)
    (halloc : sm'.Allocates (onDisk c { s with phase := .metaslabSync n at' } owner))
    (hsync : s.ms.msLoaded = false → sm'.Synced (c.sector owner .allocated ∪ c.sector owner .freed))
    (hcond : condensing = (metaslabSync n at').condensing.isSome) (hloaded : condensing = true → s.ms.msLoaded = true)
    (htree : ∀ rt, (metaslabSync n at').condensing = some (some rt) → rt.cover = s.condenseSet c owner) : Inv c { s with
      ms := { s.ms with msSm := some sm', msCondensing := condensing, msCondenseWanted := wanted }
      phase := .metaslabSync n at' } owner :=
  { h with
    fresh := fun hf => h.fresh (by rw [hphase]; exact hf)
    passNumber := by
      have := h.passNumber
      rwa [hphase] at this
    noSm := by simp
    sm := fun sm hs => by cases hs; exact ⟨hreg, halloc, hsync⟩
    condensing := hcond
    condensing_loaded := hloaded
    condenseTree := htree }

/-- While `metaslab_sync` runs, the metaslab has a space map. -/
lemma MetaslabRun.Inv.exists_sm (h : s.Inv c owner)
    (hphase : s.phase = .metaslabSync n at_) : ∃ sm, s.ms.msSm = some sm := by
  cases hsm : s.ms.msSm with
  | none => exact absurd hphase ((h.noSm hsm).2.2.2 n at_)
  | some sm => exact ⟨sm, rfl⟩

lemma MetaslabRun.Inv.exec_syncBranch (h : s.Inv c owner) {shouldCondense : Bool}
    (hen : s.Enabled c (.syncBranch shouldCondense)) : Keeps c (s.exec c (.syncBranch shouldCondense)) := by
  obtain ⟨n, hphase⟩ := hen
  obtain ⟨sm, hsm⟩ := h.exists_sm hphase
  obtain ⟨hreg, halloc, hsync⟩ := h.sm sm hsm
  have halloc' : sm.Allocates (c.sector owner .allocated) := by
    simpa only [onDisk, hphase] using halloc
  have hcond : s.ms.msCondensing = false := by rw [h.condensing, hphase]; rfl
  by_cases hb : s.ms.msLoaded ∧ shouldCondense
  · obtain ⟨rt, hrt, hcov⟩ := h.condenseTree_eq hb.1
    refine ⟨_, ?_, owner, h.advance hphase (.truncate rt) true false hreg halloc' hsync rfl (fun _ => hb.1) fun rt' ht => ?_⟩
    · simp only [exec, hphase, if_pos hb, hrt, ok_bind, ← hsm]
    · simp only [SpaPhase.condensing, some.injEq] at ht
      exact ht ▸ hcov
  · have hinv := h.advance hphase .writeAlloc s.ms.msCondensing s.ms.msCondenseWanted hreg halloc' hsync
      (by rw [hcond]; rfl) h.condensing_loaded fun rt' ht => by simp [SpaPhase.condensing] at ht
    rw [← hsm] at hinv
    refine ⟨_, ?_, owner, hinv⟩
    simp only [exec, hphase, if_neg hb]

/-! ## Writing the space map -/

variable {rt : RangeTree}

/-- A tree of whole units of the metaslab can be written to its space map. -/
lemma writable_of_whole (hw : Whole (2 ^ c.smShift) rt.cover) (hsub : rt.cover ⊆ c.span) :
    Writable c.toSpaceMapRegion rt := by
  intro seg hseg
  obtain ⟨hlo, hhi⟩ := rt.consistent.separated.dvd_of_whole (Nat.two_pow_pos _) hw hseg
  have hpos := rt.consistent.separated.pos seg hseg
  have hin : Ico seg.lo seg.hi ⊆ c.span :=
    fun x hx => hsub (mem_cover.2 ⟨seg, hseg, mem_Ico.1 hx⟩)
  obtain ⟨h1, h2⟩ := (Ico_subset_Ico_iff hpos).1 hin
  exact ⟨h1, h2, hlo, hhi⟩

lemma addressable_of_writable (h : Writable c.toSpaceMapRegion rt) (v2Active : Bool) :
    Addressable c.toSpaceMapRegion v2Active rt := by
  intro seg hseg
  have h1 := (h seg hseg).2.1
  have h2 : (seg.hi - c.smStart) >>> c.smShift ≤ 2 ^ 47 := by
    refine le_trans ?_ c.addressable
    rw [Nat.shiftRight_eq_div_pow, Nat.shiftRight_eq_div_pow]
    exact Nat.div_le_div_right (by omega)
  unfold SegAddressable
  split
  · exact h2.trans (by norm_num)
  · exact h2

/-- Writing a tree of whole units whose record the space map admits. -/
lemma metaslabWrite_eq (ms : Metaslab) {sm : SpaceMap} (hsm : ms.msSm = some sm)
    (hreg : sm.toSpaceMapRegion = c.toSpaceMapRegion) {A : Finset Nat} (halloc : sm.Allocates A)
    (rt : RangeTree) (t : MapType) (env : WriteEnv) (hw : Whole (2 ^ c.smShift) rt.cover)
    (hsub : rt.cover ⊆ c.span) (hrep : Replayable [(t, rt)] A) :
    ∃ sm', metaslabWrite ms rt t env = .ok { ms with msSm := some sm' } ∧
      sm'.toSpaceMapRegion = c.toSpaceMapRegion ∧ sm'.Allocates (replay [(t, rt)] A) ∧
      ∀ B, sm.Synced B → sm'.Synced B := by
  have hwr := writable_of_whole hw hsub
  obtain ⟨sm', heq, halloc', hreg', hkeep⟩ := halloc.write hrep env (hreg ▸ hwr) (hreg ▸ addressable_of_writable hwr _)
  refine ⟨sm', ?_, hreg'.trans hreg, halloc', hkeep⟩
  simp only [metaslabWrite, hsm, heq, ok_bind]

lemma MetaslabRun.Inv.write (h : s.Inv c owner)
    (hphase : s.phase = .metaslabSync n at_) (rt : RangeTree) (t : MapType) (env : WriteEnv)
    (hw : Whole (2 ^ c.smShift) rt.cover) (hsub : rt.cover ⊆ c.span) (hrep : Replayable [(t, rt)] (s.onDisk c owner)) :
    ∃ sm', metaslabWrite s.ms rt t env = .ok { s.ms with msSm := some sm' } ∧
      sm'.toSpaceMapRegion = c.toSpaceMapRegion ∧ sm'.Allocates (replay [(t, rt)] (s.onDisk c owner)) ∧
      (s.ms.msLoaded = false → sm'.Synced (c.sector owner .allocated ∪ c.sector owner .freed)) := by
  obtain ⟨sm, hsm⟩ := h.exists_sm hphase
  obtain ⟨hreg, halloc, hsync⟩ := h.sm sm hsm
  obtain ⟨sm', heq, hreg', halloc', hkeep⟩ := metaslabWrite_eq s.ms hsm hreg halloc rt t env hw hsub hrep
  exact ⟨sm', heq, hreg', halloc', fun hl => hkeep _ (hsync hl)⟩

lemma txgSlot_cases (txg : Nat) (t : Fin 4) :
    t = txgSlot txg ∨ t = txgSlot (txg + 1) ∨ t = txgSlot (txg + 2) ∨ t = txgSlot (txg + 3) := by
  simp only [txgSlot, Fin.ext_iff, Fin.ofNat]
  omega

/-- **What condensing leaves allocated** is what appending to the space map would. -/
theorem MetaslabRun.Inv.condenseSet_sdiff (h : s.Inv c owner) : s.condenseSet c owner \ c.sector owner .free =
      (c.sector owner .allocated ∪ c.sector owner (.allocating (txgSlot (s.lastSynced + 1)))) \ s.ms.msFreeing.cover := by
  have hclean : ∀ x ∈ c.span, owner x ≠ .allocating (txgSlot s.lastSynced) := fun x hx ho =>
    notMem_empty x (h.clean ▸ mem_part.2 ⟨hx, ho⟩)
  unfold condenseSet
  apply Finset.ext
  intro x
  by_cases hx : x ∈ c.span
  · have h2 : txgSlot (s.lastSynced + 2) ≠ txgSlot (s.lastSynced + 1) := by rw [Ne, txgSlot_inj]; omega
    have h3 : txgSlot (s.lastSynced + 3) ≠ txgSlot (s.lastSynced + 1) := by rw [Ne, txgSlot_inj]; omega
    cases ho : owner x with
    | allocating t =>
      rcases txgSlot_cases s.lastSynced t with rfl | rfl | rfl | rfl
      · exact absurd ho (hclean x hx)
      · simp [hx, ho, h2.symm, h3.symm]
      · simp [hx, ho, h2]
      · simp [hx, ho, h3]
    | deferred t => rcases (by decide : ∀ t : Fin 2, t = 0 ∨ t = 1) t with rfl | rfl <;> simp [hx, ho]
    | free => simp [hx, ho]
    | freed => simp [hx, ho]
    | allocated => simp [hx, ho]
  · simp [hx]

lemma MetaslabRun.Inv.free_subset_condenseSet (h : s.Inv c owner) : c.sector owner .free ⊆ s.condenseSet c owner := by
  have hF := (union_subset_iff.1 h.pending).1
  intro x hx
  have hxF : x ∉ s.ms.msFreeing.cover := fun hf => by
    grind
  grind [condenseSet]

lemma MetaslabRun.Inv.whole_condenseSet (h : s.Inv c owner) : Whole (2 ^ c.smShift) (s.condenseSet c owner) := by
  have hw := h.whole_sector
  apply (whole_span c).sdiff
  exact ((((h.freeing_whole.union (hw _)).union (hw _)).union (hw _)).union (hw _)).union (hw _)

variable {env : WriteEnv}

/-- A step of `metaslab_sync` without the lock, other than its last. -/
lemma MetaslabRun.Inv.exec_write (h : s.Inv c owner)
    (hphase : s.phase = .metaslabSync n at_) (hfinish : at_ ≠ .finish) : Keeps c (execSyncWrite c s n env at_) := by
  have hsub : ∀ p, c.sector owner p ⊆ c.span := fun p => part_subset _ _ _
  have hF := (union_subset_iff.1 h.pending).1
  have hon : s.onDisk c owner = onDisk c { s with phase := .metaslabSync n at_ } owner := by
    rw [← hphase]
  have hcond := h.condensing
  rw [hphase] at hcond
  have htree := h.condenseTree
  rw [hphase] at htree
  cases at_ with
  | branch => exact ⟨s, rfl, owner, h⟩
  | finish => exact absurd rfl hfinish
  | writeAlloc =>
    obtain ⟨sm', heq, hreg, halloc, hsync⟩ := h.write hphase
      (s.ms.msAllocating (txgSlot (s.lastSynced + 1))) .alloc env (by rw [h.allocating]; exact h.whole_sector _)
      (by rw [h.allocating]; exact hsub _)
      ⟨by rw [hon, h.allocating]; exact part_disjoint _ _ (by simp), trivial⟩
    rw [replay, replay, hon, h.allocating] at halloc
    refine ⟨_, ?_, owner, h.advance hphase .writeFree s.ms.msCondensing s.ms.msCondenseWanted hreg
      halloc hsync hcond h.condensing_loaded (by simp [SpaPhase.condensing])⟩
    simp only [execSyncWrite, heq, ok_bind]
  | writeFree =>
    obtain ⟨sm', heq, hreg, halloc, hsync⟩ := h.write hphase s.ms.msFreeing .free env
      h.freeing_whole (hF.trans (union_subset (hsub _) (hsub _))) ⟨by rw [hon]; exact hF, trivial⟩
    rw [replay, replay, hon] at halloc
    refine ⟨_, ?_, owner, h.advance hphase .finish s.ms.msCondensing s.ms.msCondenseWanted hreg
      halloc hsync hcond h.condensing_loaded (by simp [SpaPhase.condensing])⟩
    simp only [execSyncWrite, heq, ok_bind]
  | truncate rt =>
    obtain ⟨sm, hsm⟩ := h.exists_sm hphase
    have hloaded := h.condensing_loaded hcond
    have hreg : (spaceMapTruncate sm c.zfsMetaslabSmBlksz c.blksz_ge c.blksz_dvd).toSpaceMapRegion =
        c.toSpaceMapRegion := (h.sm sm hsm).1
    refine ⟨_, ?_, owner, h.advance hphase (.writeCondensed rt) s.ms.msCondensing s.ms.msCondenseWanted hreg
      (allocates_truncate _ _ _ _) (fun hl => absurd (hl.symm.trans hloaded) (by simp)) hcond
      h.condensing_loaded htree⟩
    simp only [execSyncWrite, metaslabTruncate, hsm, map_some]
  | writeCondensed rt =>
    have hcov := htree rt rfl
    obtain ⟨sm', heq, hreg, halloc, hsync⟩ := h.write hphase rt .alloc env (hcov ▸ h.whole_condenseSet) (hcov ▸ sdiff_subset)
      ⟨by rw [hon]; exact disjoint_empty_left _, trivial⟩
    rw [replay, replay, hon, onDisk, empty_union, hcov] at halloc
    refine ⟨_, ?_, owner, h.advance hphase .writeAllocatable s.ms.msCondensing s.ms.msCondenseWanted
      hreg halloc hsync hcond h.condensing_loaded (by simp [SpaPhase.condensing])⟩
    simp only [execSyncWrite, heq, ok_bind]
  | writeAllocatable =>
    have hloaded := h.condensing_loaded hcond
    have hcov := h.allocatable hloaded
    obtain ⟨sm', heq, hreg, halloc, hsync⟩ := h.write hphase s.ms.msAllocatable .free env
      (hcov ▸ h.whole_sector _) (hcov ▸ hsub _)
      ⟨by rw [hon, hcov]; exact h.free_subset_condenseSet, trivial⟩
    rw [replay, replay, hon, hcov] at halloc
    refine ⟨_, ?_, owner, h.advance hphase .finish false s.ms.msCondenseWanted hreg ?_ hsync rfl (by simp) (by simp [SpaPhase.condensing])⟩
    · simp only [execSyncWrite, heq, ok_bind]
    · rw [onDisk] at halloc ⊢
      rw [← Inv.condenseSet_sdiff h]
      exact halloc

/-! ## The end of a pass -/

/-- The states after a pass: the allocations are on disk, and what was being freed is freed. -/
def passOwner (c : MetaslabConfig) (s : MetaslabRun) (owner : Nat → SpaceState) : Nat → SpaceState :=
  relabel s.ms.msFreeing.cover .freed (relabel (c.sector owner (.allocating (txgSlot (s.lastSynced + 1)))) .allocated owner)

lemma passOwner_allocated : c.sector (passOwner c s owner) .allocated =
    (c.sector owner .allocated ∪ c.sector owner (.allocating (txgSlot (s.lastSynced + 1)))) \ s.ms.msFreeing.cover := by
  rw [passOwner, sector, part_relabel_ne (by simp), part_relabel_to (part_subset _ _ _)]

lemma passOwner_allocating_current : c.sector (passOwner c s owner) (.allocating (txgSlot (s.lastSynced + 1))) = ∅ := by
  rw [passOwner, sector, part_relabel_ne (by simp), part_relabel_ne (by simp), Finset.sdiff_self, Finset.empty_sdiff]

variable {p : SpaceState}

section
variable (h : s.Inv c owner)
include h

lemma freeing_subset :
    s.ms.msFreeing.cover ⊆ c.sector owner .allocated ∪ c.sector owner (.allocating (txgSlot (s.lastSynced + 1))) :=
  (union_subset_iff.1 h.pending).1

lemma passOwner_freed : c.sector (passOwner c s owner) .freed = c.sector owner .freed ∪ s.ms.msFreeing.cover := by
  rw [passOwner, sector, part_relabel_to ((freeing_subset h).trans (union_subset (part_subset _ _ _) (part_subset _ _ _))),
    part_relabel_other (Finset.Subset.refl _) (by simp) (by simp)]

lemma passOwner_other (h1 : p ≠ .allocated) (h2 : p ≠ .freed) (h3 : p ≠ .allocating (txgSlot (s.lastSynced + 1))) :
    c.sector (passOwner c s owner) p = c.sector owner p := by
  rw [passOwner, sector, part_relabel_ne h2, part_relabel_other (Finset.Subset.refl _) h3 h1]
  apply sdiff_eq_self_of_disjoint
  apply disjoint_of_subset_right (freeing_subset h)
  exact disjoint_union_right.2 ⟨part_disjoint _ _ h1, part_disjoint _ _ h3⟩

/-- What is allocated or freed does not change while nothing is being allocated. -/
lemma passOwner_union (hl : s.ms.msLoaded = false) :
    c.sector (passOwner c s owner) .allocated ∪ c.sector (passOwner c s owner) .freed =
      c.sector owner .allocated ∪ c.sector owner .freed := by
  have hF := freeing_subset h
  rw [passOwner_allocated, passOwner_freed h]
  rw [h.unallocated hl, union_empty] at hF ⊢
  rw [union_comm (c.sector owner .freed), ← union_assoc, sdiff_union_of_subset hF]

lemma passOwner_allocating_subset (t : Fin 4) :
    c.sector (passOwner c s owner) (.allocating t) ⊆ c.sector owner (.allocating t) := by
  by_cases ht : t = txgSlot (s.lastSynced + 1)
  · rw [ht, passOwner_allocating_current]
    exact empty_subset _
  · exact (passOwner_other h (by simp) (by simp) (by simpa using ht)).le

lemma metaslabSyncEnd_eq (hphase : s.phase = .metaslabSync n .finish) :
    ∃ freed, metaslabSyncEnd s.ms (s.lastSynced + 1) n = .ok { s.ms with
        msFreeing := .create
        msFreed := freed
        msCheckpointing := .create
        msAllocating := update s.ms.msAllocating (txgSlot (s.lastSynced + 1)) .create } ∧
      freed.cover = c.sector (passOwner c s owner) .freed := by
  have hclean : rangeTreeSpace
      (update s.ms.msAllocating (txgSlot (s.lastSynced + 1)) .create (txgSlot (s.lastSynced + 1 + 3))) = 0 := by
    have hs : txgSlot (s.lastSynced + 1 + 3) = txgSlot s.lastSynced := txgSlot_inj.2 (by omega)
    have hne : txgSlot s.lastSynced ≠ txgSlot (s.lastSynced + 1) := by rw [Ne, txgSlot_inj]; omega
    rw [hs, update_of_ne hne]
    exact space_eq_zero.2 ((h.allocating _).trans h.clean)
  have hcur : rangeTreeSpace
      (update s.ms.msAllocating (txgSlot (s.lastSynced + 1)) .create (txgSlot (s.lastSynced + 1))) = 0 := by
    rw [update_self]
    rfl
  rw [passOwner_freed h]
  unfold metaslabSyncEnd
  by_cases hn : n = 1
  · -- in the first pass the freed tree is empty, and the trees are swapped
    have hempty := h.fresh (by rw [hphase]; exact hn)
    have hcreate : s.ms.msFreed = .create := ext_cover (h.freed.trans hempty)
    refine ⟨s.ms.msFreeing, ?_, by rw [hempty, empty_union]⟩
    rw [if_pos hn, rangeTreeSwap_of_empty (h.freed.trans hempty), ok_bind]
    dsimp only
    rw [ASSERT_bind hcur, ASSERT_bind hclean, hcreate, ASSERT_bind rangeTreeSpace_create]
  · obtain ⟨freed, hv, hcov⟩ := rangeTreeVacate_add s.ms.msFreeing s.ms.msFreed (by
      rw [h.freed]
      apply disjoint_of_subset_right (freeing_subset h)
      exact disjoint_union_right.2 ⟨part_disjoint _ _ (by simp), part_disjoint _ _ (by simp)⟩)
    refine ⟨freed, ?_, hcov.trans (by rw [h.freed])⟩
    rw [if_neg hn, hv, ok_bind]
    dsimp only
    rw [ASSERT_bind hcur, ASSERT_bind hclean, ASSERT_bind rangeTreeSpace_create]

lemma MetaslabRun.Inv.exec_finish (hphase : s.phase = .metaslabSync n .finish) :
    Keeps c (execSyncWrite c s n env .finish) := by
  obtain ⟨freed, heq, hfreed⟩ := metaslabSyncEnd_eq h hphase
  refine ⟨_, by rw [execSyncWrite, heq, ok_bind], passOwner c s owner, ?_⟩
  have hloading : ∀ {e : Nat}, s.ms.msLoading = .read e → s.ms.msLoaded = false := by
    intro e hr
    by_contra hl
    exact absurd ((h.loading (by simpa using hl)).symm.trans hr) (by simp)
  constructor
  case whole =>
    intro x y hxy
    have hcur := h.whole_sector (.allocating (txgSlot (s.lastSynced + 1))) x y hxy
    simp only [passOwner, relabel, h.freeing_whole x y hxy, hcur, h.whole x y hxy]
  case allocating =>
    intro t
    by_cases ht : t = txgSlot (s.lastSynced + 1)
    · subst ht
      simp only [update_self, passOwner_allocating_current, cover_create]
    · simp only [update_of_ne ht, h.allocating]
      exact (passOwner_other h (by simp) (by simp) (by simpa using ht)).symm
  case freed => exact hfreed
  case defer => intro t; exact (h.defer t).trans (passOwner_other h (by simp) (by simp) (by simp)).symm
  case allocatable =>
    intro hl
    exact (h.allocatable hl).trans (passOwner_other h (by simp) (by simp) (by simp)).symm
  case unallocated =>
    intro hl t
    apply subset_empty.1
    rw [← h.unallocated hl t]
    exact passOwner_allocating_subset h t
  case loading => exact h.loading
  case notRead => exact h.notRead
  case read =>
    intro hr
    rw [passOwner_union h (hloading hr)]
    exact h.read hr
  case pending => simp
  case pending_disjoint => simp
  case freeing_whole => exact whole_empty _
  case checkpointing_whole => exact whole_empty _
  case clean =>
    apply subset_empty.1
    rw [← h.clean]
    exact passOwner_allocating_subset h _
  case fresh =>
    intro hf
    have hn := h.passNumber
    rw [hphase] at hn
    simp only [SpaPhase.passNumber, ne_eq, some.injEq] at hn
    rcases hf with hf | hf
    · omega
    · simp at hf
  case passNumber => simp [SpaPhase.passNumber]
  case deferspace =>
    rw [passOwner_other h (by simp) (by simp) (by simp), passOwner_other h (by simp) (by simp) (by simp)]
    exact h.deferspace
  case noSm =>
    intro hs
    exact absurd hphase ((h.noSm hs).2.2.2 n .finish)
  case sm =>
    intro sm hs
    obtain ⟨hreg, halloc, hsync⟩ := h.sm sm hs
    refine ⟨hreg, ?_, fun hl => by rw [passOwner_union h hl]; exact hsync hl⟩
    rw [onDisk, hphase] at halloc
    rw [onDisk, passOwner_allocated]
    exact halloc
  case condensing =>
    have := h.condensing
    rwa [hphase] at this
  case condensing_loaded => exact h.condensing_loaded
  case condenseTree => intro t ht; simp [SpaPhase.condensing] at ht
  case cursor =>
    rw [passOwner_other h (by simp) (by simp) (by simp)]
    exact h.cursor
  case selected =>
    intro txg h1 h2 hne
    apply h.selected txg h1 h2
    intro he
    apply hne
    apply subset_empty.1
    rw [← he]
    exact passOwner_allocating_subset h _

end

lemma MetaslabRun.Inv.exec_syncWrite (h : s.Inv c owner) (hen : s.Enabled c (.syncWrite env)) :
    Keeps c (s.exec c (.syncWrite env)) := by
  obtain ⟨n, at_, hphase⟩ := hen
  have hexec : s.exec c (.syncWrite env) = execSyncWrite c s n env at_ := by
    simp only [exec, hphase]
  rw [hexec]
  by_cases hf : at_ = .finish
  · subst hf
    exact h.exec_finish hphase
  · exact h.exec_write hphase hf

/-! ## The end of a txg -/

/-- The states after the txg: what was deferred is free, what was freed is deferred or free. -/
def doneOwner (c : MetaslabConfig) (owner : Nat → SpaceState) (t : Fin 2) (deferAllowed : Bool) :
    Nat → SpaceState :=
  relabel (c.sector owner .freed) (if deferAllowed then .deferred t else .free)
    (relabel (c.sector owner (.deferred t)) .free owner)

section
variable {t : Fin 2} {deferAllowed : Bool}

lemma doneOwner_freed : c.sector (doneOwner c owner t deferAllowed) .freed = ∅ := by
  rw [doneOwner, sector, part_relabel_ne (by split <;> simp), part_relabel_ne (by simp)]
  exact sdiff_eq_empty_iff_subset.2 sdiff_subset

lemma doneOwner_other (h1 : p ≠ .free) (h2 : p ≠ .freed) (h3 : p ≠ .deferred t) :
    c.sector (doneOwner c owner t deferAllowed) p = c.sector owner p := by
  have hfreed : c.sector owner .freed ⊆ part c.span (relabel (c.sector owner (.deferred t)) .free owner) .freed := by
    rw [part_relabel_other (Finset.Subset.refl _) (by simp) (by simp)]
  rw [doneOwner, sector, part_relabel_other hfreed h2 (by split <;> assumption),
    part_relabel_other (Finset.Subset.refl _) h3 h1]

lemma doneOwner_deferred : c.sector (doneOwner c owner t deferAllowed) (.deferred t) =
    if deferAllowed then c.sector owner .freed else ∅ := by
  rw [doneOwner, sector]
  cases deferAllowed with
  | true =>
    rw [if_pos rfl, if_pos rfl, part_relabel_to (part_subset _ _ _), part_relabel_ne (by simp),
      Finset.sdiff_self, Finset.empty_union]
  | false =>
    rw [if_neg (by simp), if_neg (by simp), part_relabel_ne (by simp), part_relabel_ne (by simp),
      Finset.sdiff_self, Finset.empty_sdiff]

lemma doneOwner_free : c.sector (doneOwner c owner t deferAllowed) .free =
    c.sector owner .free ∪ c.sector owner (.deferred t) ∪ if deferAllowed then ∅ else c.sector owner .freed := by
  rw [doneOwner, sector]
  cases deferAllowed with
  | true =>
    rw [if_pos rfl, if_pos rfl, part_relabel_ne (by simp), part_relabel_to (part_subset _ _ _), union_empty]
    apply sdiff_eq_self_of_disjoint
    exact disjoint_union_left.2 ⟨part_disjoint _ _ (by simp), part_disjoint _ _ (by simp)⟩
  | false =>
    rw [if_neg (by simp), if_neg (by simp), part_relabel_to (part_subset _ _ _), part_relabel_to (part_subset _ _ _)]

lemma vacateToAllocatable_eq (ms : Metaslab) (rt : RangeTree) {F : Finset Nat}
    (hcond : ms.msCondensing = false) (hcov : ms.msLoaded = true → ms.msAllocatable.cover = F) (hdis : Disjoint F rt.cover) :
    ∃ rt', vacateToAllocatable ms rt = .ok rt' ∧ (ms.msLoaded = true → rt'.cover = F ∪ rt.cover) ∧
      (ms.msLoaded = false → rt' = ms.msAllocatable) := by
  unfold vacateToAllocatable
  cases hl : ms.msLoaded with
  | true =>
    obtain ⟨rt', hw, hc⟩ := rangeTreeWalk_add rt ms.msAllocatable (by rwa [hcov hl])
    refine ⟨rt', ?_, fun _ => by rw [hc, hcov hl], by simp⟩
    rw [if_pos rfl, hcond, metaslabRtAdd_false, hw]
  | false => exact ⟨_, rfl, by simp, fun _ => rfl⟩

variable (t deferAllowed) in
lemma metaslabDefer_eq (h : s.Inv c owner) (hcond : s.ms.msCondensing = false) :
    ∃ (allocatable : RangeTree) (defer : Fin 2 → RangeTree), metaslabDefer s.ms t deferAllowed =
        .ok { s.ms with msAllocatable := allocatable, msDefer := defer, msFreed := .create } ∧
      (s.ms.msLoaded = true → allocatable.cover = c.sector (doneOwner c owner t deferAllowed) .free) ∧
      (s.ms.msLoaded = false → allocatable = s.ms.msAllocatable) ∧
      ∀ t', (defer t').cover = c.sector (doneOwner c owner t deferAllowed) (.deferred t') := by
  obtain ⟨rt1, hv1, hl1, hu1⟩ := vacateToAllocatable_eq s.ms (s.ms.msDefer t)
    (F := c.sector owner .free) hcond h.allocatable (by rw [h.defer]; exact part_disjoint _ _ (by simp))
  rw [h.defer] at hl1
  have hother : ∀ t', t' ≠ t → c.sector owner (.deferred t') = c.sector (doneOwner c owner t deferAllowed) (.deferred t') :=
    fun t' hne => (doneOwner_other (by simp) (by simp) (by simpa using hne)).symm
  unfold metaslabDefer
  rw [hv1, ok_bind]
  cases deferAllowed with
  | true =>
    refine ⟨rt1, update s.ms.msDefer t s.ms.msFreed, ?_, fun hl => ?_, hu1, fun t' => ?_⟩
    · dsimp only
      rw [if_pos rfl, update_self, rangeTreeSwap_of_empty cover_create, ok_bind, update_idem]
    · rw [hl1 hl, doneOwner_free, if_pos rfl, union_empty]
    · by_cases ht : t' = t
      · rw [ht, update_self, doneOwner_deferred, if_pos rfl, h.freed]
      · rw [update_of_ne ht, h.defer, hother t' ht]
  | false =>
    obtain ⟨rt2, hv2, hl2, hu2⟩ := vacateToAllocatable_eq
      { s.ms with msAllocatable := rt1, msDefer := update s.ms.msDefer t .create } s.ms.msFreed
      (F := c.sector owner .free ∪ c.sector owner (.deferred t)) hcond hl1 (by
        rw [h.freed]
        exact disjoint_union_left.2 ⟨part_disjoint _ _ (by simp), part_disjoint _ _ (by simp)⟩)
    refine ⟨rt2, update s.ms.msDefer t .create, ?_, fun hl => ?_, fun hl => ?_, fun t' => ?_⟩
    · rw [if_neg (by simp), hv2, ok_bind]
    · rw [hl2 hl, doneOwner_free, if_neg (by simp), h.freed]
    · rw [hu2 hl, hu1 hl]
    · by_cases ht : t' = t
      · rw [ht, update_self, doneOwner_deferred, if_neg (by simp), cover_create]
      · rw [update_of_ne ht, h.defer, hother t' ht]

variable (t deferAllowed) in
lemma deferspace_add_delta (h : s.Inv c owner) : s.ms.msDeferspace + metaslabDeferDelta s.ms t deferAllowed =
      ((c.sector (doneOwner c owner t deferAllowed) (.deferred 0)).card +
        (c.sector (doneOwner c owner t deferAllowed) (.deferred 1)).card : Nat) := by
  have hother : ∀ t', t' ≠ t → c.sector (doneOwner c owner t deferAllowed) (.deferred t') = c.sector owner (.deferred t') :=
    fun t' hne => doneOwner_other (by simp) (by simp) (by simpa using hne)
  have hcard : ((c.sector (doneOwner c owner t deferAllowed) (.deferred t)).card : Int) =
      if deferAllowed = true then ((c.sector owner .freed).card : Int) else 0 := by
    rw [doneOwner_deferred]
    split <;> simp
  rw [h.deferspace]
  simp only [metaslabDeferDelta, rangeTreeSpace, space_eq_card, h.freed, h.defer]
  rcases (by decide : ∀ t : Fin 2, t = 0 ∨ t = 1) t with rfl | rfl
  · rw [hother 1 (by simp)]
    push_cast
    rw [hcard]
    split <;> omega
  · rw [hother 0 (by simp)]
    push_cast
    rw [hcard]
    split <;> omega

/-- Unloading an idle metaslab, which has no allocations. -/
lemma MetaslabRun.Inv.unloadIdle (h : s.Inv c owner) (hphase : s.phase = .idle)
    (hsync : ∀ sm, s.ms.msSm = some sm → sm.Synced (c.sector owner .allocated ∪ c.sector owner .freed)) :
    ∃ ms', metaslabUnloadIdle c s.ms s.lastSynced = .ok ms' ∧ Inv c { s with ms := ms' } owner ∧
      ms'.msAllocating = s.ms.msAllocating ∧ ms'.msFreed = s.ms.msFreed := by
  unfold metaslabUnloadIdle
  by_cases hidle : s.ms.msLoaded = true ∧ s.ms.msSelectedTxg + metaslabUnloadDelay < s.lastSynced
  · obtain ⟨hloaded, hdelay⟩ := hidle
    simp only [metaslabUnloadDelay, txgSize] at hdelay
    have hempty : ∀ t, c.sector owner (.allocating t) = ∅ := by
      intro t
      by_contra hne
      rcases txgSlot_cases s.lastSynced t with rfl | rfl | rfl | rfl
      · exact hne h.clean
      · have := h.selected _ (by omega) (by omega) hne; omega
      · have := h.selected _ (by omega) (by omega) hne; omega
      · have := h.selected _ (by omega) (by omega) hne; omega
    have hspace : ∀ t, rangeTreeSpace (s.ms.msAllocating t) = 0 :=
      fun t => rangeTreeSpace_eq_zero.2 ((h.allocating t).trans (hempty t))
    rw [if_pos ⟨hloaded, by simpa only [metaslabUnloadDelay, txgSize] using hdelay⟩,
      VERIFY_bind (hspace _), VERIFY_bind (hspace _)]
    cases c.metaslabDebugUnload with
    | true => exact ⟨s.ms, rfl, h, rfl, rfl⟩
    | false =>
      refine ⟨metaslabUnload s.ms, rfl, { h with
        allocatable := fun hl => by simp [metaslabUnload] at hl
        unallocated := fun _ => hempty
        loading := fun hl => by simp [metaslabUnload] at hl
        notRead := fun _ _ => RangeTree.cover_create
        read := fun hr => absurd ((h.loading hloaded).symm.trans hr) (by simp)
        sm := fun sm hs => ⟨(h.sm sm hs).1, (h.sm sm hs).2.1, fun _ => hsync sm hs⟩
        condensing_loaded := fun hc => by
          have := h.condensing
          rw [hphase] at this
          exact absurd (this.symm.trans hc) (by simp [SpaPhase.condensing]) }, rfl, rfl⟩
  · rw [if_neg hidle]
    exact ⟨s.ms, rfl, h, rfl, rfl⟩

/-- The invariant at the end of a synced txg, before unloading. -/
lemma MetaslabRun.Inv.done (h : s.Inv c owner) {n : Nat} {listed : Bool}
    (hphase : s.phase = .pass n listed) (hloading : s.ms.msLoading = .no) (hempty : s.alloctree.cover = ∅)
    (hfreeing : s.ms.msFreeing.cover = ∅) (hcheckpointing : s.ms.msCheckpointing.cover = ∅)
    {allocatable : RangeTree} {defer : Fin 2 → RangeTree}
    (hloaded : s.ms.msLoaded = true → allocatable.cover = c.sector (doneOwner c owner t deferAllowed) .free)
    (hunloaded : s.ms.msLoaded = false → allocatable = s.ms.msAllocatable)
    (hdefer : ∀ t', (defer t').cover = c.sector (doneOwner c owner t deferAllowed) (.deferred t')) :
    Inv c
      { ms := { s.ms with
          msAllocatable := allocatable
          msDefer := defer
          msFreed := .create
          msReady := true
          msSm := s.ms.msSm.map spaceMapUpdate
          msDeferspace := s.ms.msDeferspace + metaslabDeferDelta s.ms t deferAllowed }
        lastSynced := s.lastSynced + 1
        phase := .idle } (doneOwner c owner t deferAllowed) ∧
      ∀ sm, s.ms.msSm.map spaceMapUpdate = some sm → sm.Synced (c.sector (doneOwner c owner t deferAllowed) .allocated ∪
          c.sector (doneOwner c owner t deferAllowed) .freed) := by
  have hcur : c.sector owner (.allocating (txgSlot (s.lastSynced + 1))) = ∅ := (h.allocating _).symm.trans hempty
  have hallocating : ∀ t', c.sector (doneOwner c owner t deferAllowed) (.allocating t') =
      c.sector owner (.allocating t') := fun t' => doneOwner_other (by simp) (by simp) (by simp)
  have hallocated : c.sector (doneOwner c owner t deferAllowed) .allocated = c.sector owner .allocated :=
    doneOwner_other (by simp) (by simp) (by simp)
  -- the update makes the recorded set the synced one
  have hupdate : ∀ sm, s.ms.msSm.map spaceMapUpdate = some sm → sm.toSpaceMapRegion = c.toSpaceMapRegion ∧
      sm.Allocates (c.sector owner .allocated) ∧ sm.Synced (c.sector owner .allocated) := by
    intro sm hs
    obtain ⟨sm0, hs0, rfl⟩ := map_eq_some_iff.1 hs
    obtain ⟨hreg, halloc, -⟩ := h.sm sm0 hs0
    rw [onDisk, hphase] at halloc
    exact ⟨hreg, halloc.update⟩
  refine ⟨?_, fun sm hs => ?_⟩
  · constructor
    case whole =>
      intro x y hxy
      simp only [doneOwner, relabel, h.whole_sector _ x y hxy, h.whole x y hxy]
    case allocating => intro t'; exact (h.allocating t').trans (hallocating t').symm
    case freed => exact doneOwner_freed.symm
    case defer => exact hdefer
    case allocatable => exact hloaded
    case unallocated => intro hl t'; exact (hallocating t').trans (h.unallocated hl t')
    case loading => exact h.loading
    case notRead =>
      intro hl hne
      simp only [hunloaded hl]
      exact h.notRead hl hne
    case read => intro hr; exact absurd (hloading.symm.trans hr) (by simp)
    case pending => simp [hfreeing, hcheckpointing]
    case pending_disjoint => exact h.pending_disjoint
    case freeing_whole => exact h.freeing_whole
    case checkpointing_whole => exact h.checkpointing_whole
    case clean => exact (hallocating _).trans hcur
    case fresh => intro _; exact doneOwner_freed
    case passNumber => simp [SpaPhase.passNumber]
    case deferspace => exact deferspace_add_delta _ _ h
    case noSm =>
      intro hs
      obtain ⟨ha, hf, hd, -⟩ := h.noSm (map_eq_none_iff.1 hs)
      refine ⟨hallocated.trans ha, doneOwner_freed, fun t' => ?_, by simp⟩
      by_cases ht : t' = t
      · rw [ht, doneOwner_deferred, hf, ite_self]
      · exact (doneOwner_other (by simp) (by simp) (by simpa using ht)).trans (hd t')
    case sm =>
      intro sm hs
      obtain ⟨hreg, halloc, hsync⟩ := hupdate sm hs
      rw [onDisk, hallocated, doneOwner_freed, union_empty]
      exact ⟨hreg, halloc, fun _ => hsync⟩
    case condensing =>
      have := h.condensing
      rwa [hphase] at this
    case condensing_loaded => exact h.condensing_loaded
    case condenseTree => intro t ht; simp [SpaPhase.condensing] at ht
    case cursor =>
      intro hcf
      obtain ⟨h1, h2, h3⟩ := h.cursor hcf
      refine ⟨h1, h2, h3.trans ?_⟩
      rw [doneOwner_free, union_assoc]
      exact subset_union_left
    case selected =>
      intro txg h1 h2 hne
      simp only at h1 h2
      rw [hallocating] at hne
      by_cases hlast : txg = s.lastSynced + 4
      · -- the slot of the txg that comes into reach is that of the last synced one
        rw [show txgSlot txg = txgSlot s.lastSynced from txgSlot_inj.2 (by omega)] at hne
        exact absurd h.clean hne
      · exact h.selected txg (by omega) (by omega) hne
  · rw [hallocated, doneOwner_freed, union_empty]
    exact (hupdate sm hs).2.2

end

/-- A txg in which `metaslab_sync` was not called for the metaslab. -/
lemma MetaslabRun.Inv.skip (h : s.Inv c owner) (hphase : s.phase = .pass n false)
    (hempty : s.alloctree.cover = ∅) (hfreeing : s.ms.msFreeing.cover = ∅) (hcheckpointing : s.ms.msCheckpointing.cover = ∅) :
    Inv c { s with lastSynced := s.lastSynced + 1, phase := .idle } owner :=
  { h with
    pending := by simp [hfreeing, hcheckpointing]
    clean := (h.allocating _).symm.trans hempty
    fresh := fun _ => h.fresh (by rw [hphase]; exact .inr rfl)
    passNumber := by simp [SpaPhase.passNumber]
    noSm := fun hs => ⟨(h.noSm hs).1, (h.noSm hs).2.1, (h.noSm hs).2.2.1, by simp⟩
    sm := fun sm hs => by
      have := h.sm sm hs
      simp only [onDisk, hphase] at this ⊢
      exact this
    condensing := by
      have := h.condensing
      rwa [hphase] at this
    condenseTree := fun t ht => by simp [SpaPhase.condensing] at ht
    selected := fun txg h1 h2 hne => by
      simp only at h1 h2
      by_cases hlast : txg = s.lastSynced + 4
      · rw [show txgSlot txg = txgSlot s.lastSynced from txgSlot_inj.2 (by omega)] at hne
        exact absurd h.clean hne
      · exact h.selected txg (by omega) (by omega) hne }

lemma MetaslabRun.Inv.exec_syncDone (h : s.Inv c owner) {deferAllowed : Bool}
    (hen : s.Enabled c (.syncDone deferAllowed)) : Keeps c (s.exec c (.syncDone deferAllowed)) := by
  obtain ⟨⟨n, listed, hphase⟩, hloading, hempty, hfreeing, hcheckpointing⟩ := hen
  cases listed with
  | false =>
    refine ⟨_, ?_, owner, h.skip hphase hempty hfreeing hcheckpointing⟩
    simp only [exec, hphase]
  | true =>
    have hcond : s.ms.msCondensing = false := by rw [h.condensing, hphase]; rfl
    obtain ⟨allocatable, defer, heq, hloaded, hunloaded, hdefer⟩ :=
      metaslabDefer_eq (deferSlot (s.lastSynced + 1)) deferAllowed h hcond
    obtain ⟨hinv, hsync⟩ := h.done hphase hloading hempty hfreeing hcheckpointing hloaded hunloaded hdefer
    obtain ⟨ms', hidle, hinv', hallocating, hfreed⟩ := hinv.unloadIdle rfl hsync
    have hspace := deferspace_add_delta (deferSlot (s.lastSynced + 1)) deferAllowed h
    have hbound := sum_card_sector c (doneOwner c owner (deferSlot (s.lastSynced + 1)) deferAllowed)
    refine ⟨_, ?_, _, hinv'⟩
    simp only [exec, hphase, metaslabSyncDone]
    rw [ASSERT_bind (rangeTreeSpace_eq_zero.2 hfreeing), ASSERT_bind (rangeTreeSpace_eq_zero.2 hcheckpointing), heq, ok_bind]
    rw [ASSERT_bind (by rw [hspace]; exact Int.natCast_nonneg _), ASSERT_bind (by rw [hspace]; omega)]
    rw [hidle, ok_bind, ASSERT_bind (by rw [hallocating]; exact rangeTreeSpace_eq_zero.2 hempty),
      ASSERT_bind (by rw [hfreed]; exact rangeTreeSpace_create), ok_bind]

end Unleashed.Zfs
