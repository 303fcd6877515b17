import Unleashed.Zfs.Metaslab.Invariant

/-!
# Every operation keeps the space partition

Each operation that the SPA lets happen does not fail, and moves offsets from state to state as the abstract model has
it.
-/

namespace Unleashed.Zfs

open Lib Lib.Segs Lib.Labels Function Finset MetaslabRun Nat Option RangeTree SpaPhase SpaceMapRegion

variable {c : MetaslabConfig} {s : MetaslabRun} {owner : Nat → SpaceState}

lemma unitAligned_iff {x : Nat} : unitAligned c x ↔ 2 ^ c.smShift ∣ x := by
  rw [unitAligned, BitField.phase_eq, dvd_iff_mod_eq_zero]

lemma metaslabRtAdd_false : metaslabRtAdd false = rangeTreeAdd := by
  funext rt start size
  unfold metaslabRtAdd
  cases rangeTreeAdd rt start size with
  | error e => rfl
  | ok rt' => rw [ok_bind, VERIFY_bind rfl]

lemma metaslabRtRemove_false : metaslabRtRemove false = rangeTreeRemove := by
  funext rt start size
  unfold metaslabRtRemove
  cases rangeTreeRemove rt start size with
  | error e => rfl
  | ok rt' => rw [ok_bind, VERIFY_bind rfl]

/-- The operation does not fail, and it keeps the invariant. -/
abbrev Keeps (c : MetaslabConfig) (r : Except Fault MetaslabRun) : Prop := ∃ s, r = .ok s ∧ ∃ owner, s.Inv c owner

variable {start size : Nat}

lemma UnitRange.whole (h : UnitRange c start size) : Whole (2 ^ c.smShift) (Ico start (start + size)) :=
  whole_Ico (Nat.two_pow_pos _) h.start_dvd (h.start_dvd.add h.size_dvd)

lemma space_le_of_subset {rt : RangeTree} (h : rt.cover ⊆ c.span) : rangeTreeSpace rt ≤ c.smSize := by
  have := card_le_card h
  rwa [← space_eq_card, span, Nat.card_Ico, Nat.add_sub_cancel_left] at this

lemma hi_le_of_subset {rt : RangeTree} (h : rt.cover ⊆ c.span) : ∀ rs ∈ rt.rtRoot, rs.hi ≤ c.smStart + c.smSize := by
  intro rs hrs
  have hpos := rt.consistent.separated.pos rs hrs
  have hlast : rs.hi - 1 ∈ rt.cover := mem_cover.2 ⟨rs, hrs, by omega⟩
  have := mem_Ico.1 (h hlast)
  omega

/-! ## Allocating and taking an allocation back -/

variable {n offset : Nat}

section
variable {txg : Nat}

/-- A slot other than that of the txg that `metaslab_sync` works on. -/
lemma MetaslabRun.TxgOpen.slot_ne (h : s.TxgOpen txg) {at_ : SyncPoint}
    (hphase : s.phase = .metaslabSync n at_) : txgSlot (s.lastSynced + 1) ≠ txgSlot txg := by
  have h1 := h.gt
  have h2 := h.le
  have h3 := h.quiet n at_ hphase
  unfold txgConcurrentStates at h2
  rw [Ne, txgSlot_inj]
  omega

/-- The space map stays when offsets move between the free ones and an open txg. -/
lemma MetaslabRun.TxgOpen.onDisk_relabel (h : s.TxgOpen txg) (hnc : s.phase.condensing = none)
    {owner' : Nat → SpaceState} {ms' : Metaslab} (hfreeing : ms'.msFreeing = s.ms.msFreeing)
    (hother : ∀ p, p ≠ .free → p ≠ .allocating (txgSlot txg) → c.sector owner' p = c.sector owner p) :
    ({ s with ms := ms' } : MetaslabRun).onDisk c owner' = s.onDisk c owner := by
  have hall := hother .allocated (by simp) (by simp)
  unfold onDisk
  cases hphase : s.phase with
  | idle => exact hall
  | pass n listed => exact hall
  | metaslabSync n at_ =>
    have hcur := hother (.allocating (txgSlot (s.lastSynced + 1))) (by simp) (by simpa using h.slot_ne hphase)
    cases at_ <;> simp only [hall, hcur, hfreeing]
    simp [hphase, condensing] at hnc

lemma MetaslabRun.Inv.not_condensing (h : s.Inv c owner) (hcond : s.ms.msCondensing = false) :
    s.phase.condensing = none := by
  have := h.condensing
  rw [hcond] at this
  exact not_isSome_iff_eq_none.1 (by simp [← this])

variable {allocatable allocating : RangeTree} {lbas : Nat → Nat}

/-- Offsets move between the free ones and an open txg: what concerns the two. -/
lemma MetaslabRun.Inv.exchange (h : s.Inv c owner) (hopen : s.TxgOpen txg)
    (hcond : s.ms.msCondensing = false) (hloaded : s.ms.msLoaded = true) (owner' : Nat → SpaceState) (selected : Nat)
    (hwhole : ∀ x y, x / 2 ^ c.smShift = y / 2 ^ c.smShift → owner' x = owner' y)
    (hother : ∀ p, p ≠ .free → p ≠ .allocating (txgSlot txg) → c.sector owner' p = c.sector owner p)
    (hfree : allocatable.cover = c.sector owner' .free)
    (hto : allocating.cover = c.sector owner' (.allocating (txgSlot txg)))
    (hpending : s.ms.msFreeing.cover ∪ s.ms.msCheckpointing.cover ⊆
      c.sector owner' .allocated ∪ c.sector owner' (.allocating (txgSlot (s.lastSynced + 1))))
    (hcursor : CursorFree c.mcOps (2 ^ c.smShift) (c.smStart + c.smSize) lbas (c.sector owner' .free))
    (hselected : ∀ t, s.lastSynced < t → t ≤ s.lastSynced + 3 →
      c.sector owner' (.allocating (txgSlot t)) ≠ ∅ → t ≤ selected + 3) :
    Inv c { s with ms := { s.ms with
          msSelectedTxg := selected
          msLbas := lbas
          msAllocatable := allocatable
          msAllocating := update s.ms.msAllocating (txgSlot txg) allocating } } owner' := by
  have hgt := hopen.gt
  have hle := hopen.le
  unfold txgConcurrentStates at hle
  have hnc := h.not_condensing hcond
  have hallocated := hother .allocated (by simp) (by simp)
  have hfreed := hother .freed (by simp) (by simp)
  have hdeferred := fun t => hother (.deferred t) (by simp) (by simp)
  have habs : ∀ {P : Prop}, s.ms.msLoaded = false → P := fun hl => absurd (hl.symm.trans hloaded) (by simp)
  constructor
  case whole => exact hwhole
  case allocating =>
    intro t
    by_cases ht : t = txgSlot txg
    · subst ht
      simpa only [update_self] using hto
    · simp only [update_of_ne ht, h.allocating]
      exact (hother _ (by simp) (by simpa using ht)).symm
  case freed => exact h.freed.trans hfreed.symm
  case defer => intro t; exact (h.defer t).trans (hdeferred t).symm
  case allocatable => intro _; exact hfree
  case unallocated => exact habs
  case loading => exact h.loading
  case notRead => exact habs
  case read => intro hr; exact absurd ((h.loading hloaded).symm.trans hr) (by simp)
  case pending => exact hpending
  case pending_disjoint => exact h.pending_disjoint
  case freeing_whole => exact h.freeing_whole
  case checkpointing_whole => exact h.checkpointing_whole
  case clean =>
    rw [← h.clean]
    apply hother _ (by simp)
    simp only [ne_eq, SpaceState.allocating.injEq, txgSlot_inj]
    omega
  case fresh => intro hf; exact hfreed.trans (h.fresh hf)
  case passNumber => exact h.passNumber
  case deferspace => rw [hdeferred, hdeferred]; exact h.deferspace
  case noSm =>
    intro hs
    obtain ⟨ha, hf, hd, hp⟩ := h.noSm hs
    exact ⟨hallocated.trans ha, hfreed.trans hf, fun t => (hdeferred t).trans (hd t), hp⟩
  case sm =>
    intro sm hs
    obtain ⟨hreg, halloc, -⟩ := h.sm sm hs
    refine ⟨hreg, ?_, habs⟩
    rw [hopen.onDisk_relabel hnc (by rfl) hother]
    exact halloc
  case condensing => exact h.condensing
  case condensing_loaded => exact h.condensing_loaded
  case condenseTree => intro t ht; exact absurd (hnc.symm.trans ht) (by simp)
  case cursor => exact hcursor
  case selected => exact hselected

variable {hit : Nat → Nat}

lemma metaslabBlockAlloc_some (ms : Metaslab) (spaSyncingTxg : Nat) (hcond : ms.msCondensing = false)
    (hal : msopAlloc c.tun c.smSize ms.msAllocatable hit ms.msLbas size c.mcOps = .ok (some start, lbas))
    (hrange : UnitRange c start size)
    (hspace : (rangeTreeSpace ms.msAllocatable + 2 ^ 64 - size) % 2 ^ 64 ≤ c.smSize)
    (hrem : rangeTreeRemove ms.msAllocatable start size = .ok allocatable)
    (hadd : rangeTreeAdd (ms.msAllocating (txgSlot txg)) start size = .ok allocating)
    (hverify : metaslabVerifySpace c { ms with
        msLbas := lbas
        msAllocatable := allocatable
        msAllocating := update ms.msAllocating (txgSlot txg) allocating } txg spaSyncingTxg = .ok ()) :
    metaslabBlockAlloc c ms size txg spaSyncingTxg hit = .ok ({ ms with
        msLbas := lbas
        msAllocatable := allocatable
        msAllocating := update ms.msAllocating (txgSlot txg) allocating }, some start) := by
  unfold metaslabBlockAlloc
  rw [VERIFY_bind hcond, hal, ok_bind]
  dsimp only
  rw [VERIFY_bind (unitAligned_iff.2 hrange.start_dvd), VERIFY_bind (unitAligned_iff.2 hrange.size_dvd),
    VERIFY_bind hspace, hcond, metaslabRtRemove_false, hrem, ok_bind, hadd, ok_bind]
  rw [hcond] at hverify
  rw [hverify, ok_bind]

lemma MetaslabRun.Inv.select (h : s.Inv c owner) (selected : Nat)
    (hcursor : CursorFree c.mcOps (2 ^ c.smShift) (c.smStart + c.smSize) lbas (c.sector owner .free)) (hselected : s.lastSynced ≤ selected) :
    Inv c { s with ms := { s.ms with msSelectedTxg := selected, msLbas := lbas } } owner :=
  { h with
    cursor := hcursor
    selected := fun t _ ht _ => by simp only at ht ⊢; omega }

lemma MetaslabRun.Inv.exec_alloc (h : s.Inv c owner) (hen : s.Enabled c (.alloc size txg hit)) :
    Keeps c (s.exec c (.alloc size txg hit)) := by
  obtain ⟨-, hloaded, hcond, hrequest, hopen⟩ := hen
  have hrange := hrequest.toUnitRange
  have hgt := hopen.gt
  have hcov := h.allocatable hloaded
  have hwhole : Whole (2 ^ c.smShift) s.ms.msAllocatable.cover := hcov ▸ h.whole_sector .free
  obtain ⟨offset, lbas, hal, ⟨hsub, hdvd⟩, hcursor⟩ := msopAlloc_spec hwhole c.shift_lt.le rfl
    (hi_le_of_subset (hcov.trans_subset (part_subset _ _ _))) c.tun c.smSize hit hrange.pos hrequest.sums hrequest.clump
    hrange.size_dvd (hcov ▸ h.cursor)
  cases offset with
  | none =>
    rw [claimed, sdiff_empty, hcov] at hcursor
    refine ⟨_, ?_, owner, h.select txg hcursor (by omega)⟩
    unfold exec metaslabBlockAlloc
    simp only [VERIFY_bind hcond, hal, ok_bind]
  | some start =>
    simp only [claimed] at hsub hcursor
    have hstart := hdvd start rfl
    have hR : UnitRange c start size := ⟨hrange.pos, hrange.lt, hstart, hrange.size_dvd⟩
    have hR' : Ico start (start + size) ⊆ c.sector owner .free := hcov ▸ hsub
    obtain ⟨allocatable, hrem, hrem'⟩ := rangeTreeRemove_of_subset _ start (hrange.pos.ne') hsub
    obtain ⟨allocating, hadd, hadd'⟩ := rangeTreeAdd_of_disjoint (s.ms.msAllocating (txgSlot txg)) start hrange.pos.ne' (by
        rw [h.allocating]
        exact disjoint_of_subset_right hR' (part_disjoint _ _ (by simp)))
    have hspace : (rangeTreeSpace s.ms.msAllocatable + 2 ^ 64 - size) % 2 ^ 64 ≤ c.smSize := by
      have h1 := card_le_card hsub
      rw [card_Ico, ← space_eq_card] at h1
      have h2 := space_le_of_subset (c := c) (hcov.trans_subset (part_subset _ _ _))
      have h3 := c.bound
      unfold rangeTreeSpace at h2 ⊢
      omega
    have hto : c.sector (relabel (Ico start (start + size)) (.allocating (txgSlot txg)) owner) (.allocating (txgSlot txg)) =
        c.sector owner (.allocating (txgSlot txg)) ∪ Ico start (start + size) :=
      part_relabel_to (hR'.trans (part_subset _ _ _))
    have hfree : c.sector (relabel (Ico start (start + size)) (.allocating (txgSlot txg)) owner)
        .free = c.sector owner .free \ Ico start (start + size) := part_relabel_ne (by simp)
    have hinv := h.exchange hopen hcond hloaded (relabel (Ico start (start + size)) (.allocating (txgSlot txg)) owner) txg
      (fun x y hxy => by simp only [relabel, hR.whole x y hxy, h.whole x y hxy])
      (fun p hp hp' => part_relabel_other hR' hp hp') (by rw [hrem', hcov]; exact hfree.symm)
      (by rw [hadd', h.allocating]; exact hto.symm)
      (by
        refine h.pending.trans fun x hx => ?_
        have := @hR' x
        grind [relabel])
      (by rw [hcov, ← hfree] at hcursor; exact hcursor) (fun t _ _ _ => by omega)
    have hba := metaslabBlockAlloc_some { s.ms with msSelectedTxg := txg } s.spaSyncingTxg hcond hal hR hspace hrem hadd (hinv.verifySpace hgt hopen.quiet rfl)
    refine ⟨_, ?_, _, hinv⟩
    unfold exec
    dsimp only
    rw [hba, ok_bind]

/-- Taking an allocation back fails only while the metaslab condenses. -/
lemma MetaslabRun.Inv.exec_unalloc (h : s.Inv c owner) (hen : s.Enabled c (.unalloc offset size txg)) :
    s.ms.msCondensing = true ∧ s.exec c (.unalloc offset size txg) = .error .verify ∨
    Keeps c (s.exec c (.unalloc offset size txg)) := by
  obtain ⟨hrange, hopen, hsub⟩ := hen
  obtain ⟨hsub, hpend⟩ := subset_sdiff.1 hsub
  obtain ⟨allocating, hrem, hrem'⟩ := rangeTreeRemove_of_subset _ offset hrange.pos.ne' hsub
  rw [h.allocating] at hsub hrem'
  have hspan := hsub.trans (part_subset _ _ _)
  cases hcond : s.ms.msCondensing with
  | true =>
    refine .inl ⟨rfl, ?_⟩
    unfold exec metaslabUnallocDva
    dsimp only
    rw [hrem, ok_bind, hcond]
    rfl
  | false =>
    right
    have hloaded : s.ms.msLoaded = true := by
      by_contra hl
      have hempty := h.unallocated (by simpa using hl) (txgSlot txg)
      have hmem : offset ∈ Ico offset (offset + size) := by simp [hrange.pos]
      have := hsub hmem
      rw [hempty] at this
      exact absurd this (notMem_empty _)
    have hcov := h.allocatable hloaded
    have hdis : Disjoint s.ms.msAllocatable.cover (Ico offset (offset + size)) := by
      rw [hcov]
      exact disjoint_of_subset_right hsub (part_disjoint _ _ (by simp))
    obtain ⟨allocatable, hadd, hadd'⟩ := rangeTreeAdd_of_disjoint _ offset hrange.pos.ne' hdis
    have hto : c.sector (relabel (Ico offset (offset + size)) .free owner) .free =
        c.sector owner .free ∪ Ico offset (offset + size) := part_relabel_to hspan
    have hfrom : c.sector (relabel (Ico offset (offset + size)) .free owner) (.allocating (txgSlot txg)) =
        c.sector owner (.allocating (txgSlot txg)) \ Ico offset (offset + size) :=
      part_relabel_ne (by simp)
    have hother : ∀ p, p ≠ .free → p ≠ .allocating (txgSlot txg) →
        c.sector (relabel (Ico offset (offset + size)) .free owner) p = c.sector owner p :=
      fun p hp hp' => part_relabel_other hsub hp' hp
    have hinv := h.exchange hopen hcond hloaded (relabel (Ico offset (offset + size)) .free owner) s.ms.msSelectedTxg
      (fun x y hxy => by simp only [relabel, hrange.whole x y hxy, h.whole x y hxy])
      hother (by rw [hadd', hcov]; exact hto.symm) (by rw [hrem']; exact hfrom.symm)
      (by
        intro x hx
        have h1 := h.pending hx
        have h2 := disjoint_right.1 hpend hx
        grind [relabel])
      (fun hcf => by
        obtain ⟨h1, h2, h3⟩ := h.cursor hcf
        refine ⟨h1, h2, h3.trans ?_⟩
        rw [hto]
        exact subset_union_left)
      (fun t h1 h2 hne => h.selected t h1 h2 fun he => hne (by
        by_cases ht : txgSlot t = txgSlot txg
        · rw [ht] at he ⊢
          rw [hfrom, he, empty_sdiff]
        · rw [hother _ (by simp) (by simpa using ht), he]))
    have hspace : rangeTreeSpace s.ms.msAllocatable + size ≤ c.smSize := by
      have h1 : allocatable.cover ⊆ c.span := by
        rw [hadd', hcov]
        exact union_subset (part_subset _ _ _) hspan
      have h2 := space_le_of_subset h1
      rw [rangeTreeSpace, space_eq_card, hadd', card_union_of_disjoint hdis, card_Ico, ← space_eq_card] at h2
      unfold rangeTreeSpace
      omega
    obtain ⟨hlo, hhi⟩ := (Ico_subset_Ico_iff (by have := hrange.pos; omega)).1 hspan
    refine ⟨_, ?_, _, hinv⟩
    unfold exec metaslabUnallocDva
    dsimp only
    rw [hrem, ok_bind, VERIFY_bind hcond, VERIFY_bind hlo, VERIFY_bind hhi, VERIFY_bind hspace,
      VERIFY_bind (unitAligned_iff.2 hrange.start_dvd), VERIFY_bind (unitAligned_iff.2 hrange.size_dvd),
      hcond, metaslabRtAdd_false, hadd]
    rfl

end

/-! ## Freeing -/

/-- The replay of the space map is what the invariant says it records. -/
lemma MetaslabRun.Inv.replaySet_eq (h : s.Inv c owner) : s.ms.replaySet = s.onDisk c owner := by
  unfold Metaslab.replaySet
  cases hsm : s.ms.msSm with
  | none =>
    obtain ⟨hempty, -, -, hphase⟩ := h.noSm hsm
    unfold onDisk
    cases hp : s.phase with
    | metaslabSync n at_ => exact absurd hp (hphase n at_)
    | idle => exact hempty.symm
    | pass n listed => exact hempty.symm
  | some sm =>
    obtain ⟨rt, hload, hcov⟩ := (h.sm sm hsm).2.1.load
    simp only [hload, hcov]

lemma MetaslabRun.Inv.checkFree (h : s.Inv c owner) (hsize : size ≠ 0) (hsub : Ico offset (offset + size) ⊆
      c.sector owner .allocated ∪ c.sector owner (.allocating (txgSlot (s.lastSynced + 1))))
    (hpend : Disjoint (Ico offset (offset + size)) (s.ms.msFreeing.cover ∪ s.ms.msCheckpointing.cover)) :
    metaslabCheckFreeImpl c s.ms offset size = .ok () := by
  obtain ⟨h1, h2⟩ := disjoint_union_right.1 hpend
  have hother : ∀ p, p ≠ .allocated → (∀ t, p ≠ .allocating t) → Disjoint (c.sector owner p) (Ico offset (offset + size)) := by
    intro p hp hp'
    apply disjoint_of_subset_right hsub
    exact disjoint_union_right.2 ⟨part_disjoint _ _ hp, part_disjoint _ _ (hp' _)⟩
  have verify : ∀ {rt : RangeTree}, Disjoint rt.cover (Ico offset (offset + size)) →
      rangeTreeVerify rt offset size = .ok () := fun hd => rangeTreeVerify_of_disjoint hsize hd
  unfold metaslabCheckFreeImpl
  by_cases hflag : c.debugZioFree = false
  · rw [if_pos hflag]
  · rw [if_neg hflag, verify h1.symm, verify h2.symm, verify (h.freed ▸ hother .freed (by simp) (by simp)),
      verify (h.defer 0 ▸ hother (.deferred 0) (by simp) (by simp)),
      verify (h.defer 1 ▸ hother (.deferred 1) (by simp) (by simp))]
    cases hl : s.ms.msLoaded with
    | false => rfl
    | true =>
      rw [if_pos rfl, verify (h.allocatable hl ▸ hother .free (by simp) (by simp))]
      rfl

/-- Freed ranges are only noted between two calls of `metaslab_sync`. -/
lemma MetaslabRun.Inv.note (h : s.Inv c owner) {listed : Bool}
    (hphase : s.phase = .pass n listed) (freeing checkpointing : RangeTree) (hpending : freeing.cover ∪ checkpointing.cover ⊆
      c.sector owner .allocated ∪ c.sector owner (.allocating (txgSlot (s.lastSynced + 1))))
    (hdisjoint : Disjoint freeing.cover checkpointing.cover) (hfreeing : Whole (2 ^ c.smShift) freeing.cover)
    (hcheckpointing : Whole (2 ^ c.smShift) checkpointing.cover) :
    Inv c { s with ms := { s.ms with msFreeing := freeing, msCheckpointing := checkpointing } }
      owner :=
  { h with
    pending := hpending
    pending_disjoint := hdisjoint
    freeing_whole := hfreeing
    checkpointing_whole := hcheckpointing
    sm := fun sm hs => by
      have := h.sm sm hs
      simp only [onDisk, hphase] at this ⊢
      exact this
    condenseTree := fun t ht => by simp [hphase, SpaPhase.condensing] at ht }

lemma MetaslabRun.Inv.exec_free (h : s.Inv c owner) {asize : Nat} {checkpoint : Bool}
    (hen : s.Enabled c (.free offset asize checkpoint)) : Keeps c (s.exec c (.free offset asize checkpoint)) := by
  obtain ⟨⟨n, listed, hphase⟩, -, hrange, hsub⟩ := hen
  rw [h.replaySet_eq, onDisk, hphase, alloctree, h.allocating] at hsub
  obtain ⟨hsub, hpend⟩ := subset_sdiff.1 hsub
  obtain ⟨hd1, hd2⟩ := disjoint_union_right.1 hpend
  have hcond : s.ms.msCondensing = false := by rw [h.condensing, hphase]; rfl
  have hspan : Ico offset (offset + asize) ⊆ c.span :=
    hsub.trans (union_subset (part_subset _ _ _) (part_subset _ _ _))
  obtain ⟨hlo, hhi⟩ := (Ico_subset_Ico_iff (by have := hrange.pos; omega)).1 hspan
  obtain ⟨hp1, hp2⟩ := union_subset_iff.1 h.pending
  have hchecks : ∀ k, (do
      VERIFY (s.ms.msCondensing = false)
      VERIFY (c.smStart ≤ offset)
      VERIFY (offset + asize ≤ c.smStart + c.smSize)
      VERIFY (unitAligned c offset)
      VERIFY (unitAligned c asize)
      metaslabCheckFreeImpl c s.ms offset asize
      k) = (k : Except Fault Metaslab) := by
    intro k
    rw [VERIFY_bind hcond, VERIFY_bind hlo, VERIFY_bind hhi, VERIFY_bind (unitAligned_iff.2 hrange.start_dvd),
      VERIFY_bind (unitAligned_iff.2 hrange.size_dvd), h.checkFree hrange.pos.ne' hsub hpend, ok_bind]
  unfold exec metaslabFreeConcrete
  dsimp only
  rw [hchecks]
  cases checkpoint with
  | true =>
    obtain ⟨checkpointing, hadd, hadd'⟩ := rangeTreeAdd_of_disjoint s.ms.msCheckpointing offset hrange.pos.ne' hd2.symm
    refine ⟨_, by rw [if_pos rfl, hadd]; rfl, owner, h.note hphase s.ms.msFreeing checkpointing ?_ ?_
      h.freeing_whole (hadd' ▸ h.checkpointing_whole.union hrange.whole)⟩
    · rw [hadd']
      exact union_subset hp1 (union_subset hp2 hsub)
    · rw [hadd']
      exact disjoint_union_right.2 ⟨h.pending_disjoint, hd1.symm⟩
  | false =>
    obtain ⟨freeing, hadd, hadd'⟩ := rangeTreeAdd_of_disjoint s.ms.msFreeing offset hrange.pos.ne' hd1.symm
    refine ⟨_, by rw [if_neg (by simp), hadd]; rfl, owner, h.note hphase freeing s.ms.msCheckpointing ?_ ?_
      (hadd' ▸ h.freeing_whole.union hrange.whole) h.checkpointing_whole⟩
    · rw [hadd']
      exact union_subset (union_subset hp1 hsub) hp2
    · rw [hadd']
      exact disjoint_union_left.2 ⟨h.pending_disjoint, hd2⟩

/-! ## Loading -/

lemma MetaslabRun.Inv.exec_loadBegin (h : s.Inv c owner) (hen : s.Enabled c .loadBegin) : Keeps c (s.exec c .loadBegin) := by
  obtain ⟨hl, hno⟩ := hen
  have hempty := h.notRead hl (by simp [hno])
  refine ⟨{ s with ms := { s.ms with msLoading := .reading } }, ?_, owner, { h with
    loading := fun hl' => absurd (hl.symm.trans hl') (by simp)
    notRead := fun _ _ => hempty
    read := fun hr => by simp at hr }⟩
  unfold exec metaslabLoadBegin
  dsimp only
  rw [ASSERT_bind hl, ASSERT_bind hno]
  rfl

lemma MetaslabRun.Inv.exec_loadRead (h : s.Inv c owner) {hold : Nat → Nat} (hen : s.Enabled c (.loadRead hold)) :
    Keeps c (s.exec c (.loadRead hold)) := by
  have hreading : s.ms.msLoading = .reading := hen
  have hl : s.ms.msLoaded = false := by
    by_contra hl
    exact absurd (h.loading (by simpa using hl)) (by simp [hreading])
  have hcreate : s.ms.msAllocatable = .create :=
    ext_cover (h.notRead hl (by simp [hreading]))
  have hcond : s.ms.msCondensing = false := by
    by_contra hc
    exact absurd (h.condensing_loaded (by simpa using hc)) (by simp [hl])
  -- the metaslab with what was read
  have hread : ∀ (rt : RangeTree) (error : Nat),
      (error = 0 → rt.cover = c.span \ (c.sector owner .allocated ∪ c.sector owner .freed)) →
      (error ≠ 0 → rt.cover = ∅) →
      Inv c { s with ms := { s.ms with msAllocatable := rt, msLoading := .read error } } owner :=
    fun rt error h0 h1 => { h with
      allocatable := fun hl' => absurd (hl.symm.trans hl') (by simp)
      loading := fun hl' => absurd (hl.symm.trans hl') (by simp)
      notRead := fun _ hne => h1 fun he => hne (by rw [he])
      read := fun hr => h0 (by simpa using hr) }
  have hexec : ∀ ms', metaslabLoadRead c s.ms hold = .ok ms' → s.exec c (.loadRead hold) = .ok { s with ms := ms' } := by
    intro ms' he
    simp only [exec, he, ok_bind]
  cases hsm : s.ms.msSm with
  | none =>
    obtain ⟨ha, hf, -⟩ := h.noSm hsm
    obtain ⟨rt, hadd, hcov⟩ := rangeTreeAdd_of_disjoint .create c.smStart (by have := c.pos; omega : c.smSize ≠ 0) (by simp)
    refine ⟨_, hexec { s.ms with msAllocatable := rt, msLoading := .read 0 } ?_, owner, hread rt 0 (fun _ => ?_) (by simp)⟩
    · simp only [metaslabLoadRead, hsm, hcreate, metaslabRtAdd, hadd, ok_bind, VERIFY_bind hcond]
    · rw [ha, hf, hcov]
      simp [span]
  | some sm =>
    obtain ⟨hreg, -, hsync⟩ := h.sm sm hsm
    rcases (hsync hl).load hold with ⟨rt, hload, hcov⟩ | ⟨error, hne, hload⟩
    · refine ⟨_, hexec { s.ms with msAllocatable := rt, msLoading := .read 0 } ?_, owner, hread rt 0 (fun _ => ?_) (by simp)⟩
      · simp only [metaslabLoadRead, hsm, hcreate, hload, ok_bind]
      · rw [hcov, hreg]
    · refine ⟨_, hexec { s.ms with msAllocatable := .create, msLoading := .read error } ?_, owner,
        hread .create error (fun he => absurd he hne) fun _ => cover_create⟩
      simp only [metaslabLoadRead, hsm, hcreate, hload, ok_bind]

/-- The load ends: what is deferred is taken out of what was read. -/
lemma MetaslabRun.Inv.exec_loadEnd (h : s.Inv c owner) (hen : s.Enabled c .loadEnd) : Keeps c (s.exec c .loadEnd) := by
  obtain ⟨error, hread⟩ := hen
  have hl : s.ms.msLoaded = false := by
    by_contra hl
    exact absurd (h.loading (by simpa using hl)) (by simp [hread])
  have hcond : s.ms.msCondensing = false := by
    by_contra hc
    exact absurd (hl.symm.trans (h.condensing_loaded (by simpa using hc))) (by simp)
  have hexec : ∀ ms', metaslabLoadEnd s.ms error = .ok ms' → s.exec c .loadEnd = .ok { s with ms := ms' } := by
    intro ms' he
    simp only [exec, hread, he, ok_bind]
  by_cases he : error = 0
  · subst he
    -- an unloaded metaslab has no other part than these
    have hfree : s.ms.msAllocatable.cover \ (c.sector owner (.deferred 0) ∪ c.sector owner (.deferred 1)) =
        c.sector owner .free := by
      have hnone := h.unallocated hl
      rw [h.read hread]
      ext x
      have : ∀ t, x ∈ c.span → owner x ≠ .allocating t := fun t hx ho =>
        notMem_empty x (hnone t ▸ mem_part.2 ⟨hx, ho⟩)
      cases ho : owner x with
      | deferred t =>
        rcases (by decide : ∀ t : Fin 2, t = 0 ∨ t = 1) t with rfl | rfl <;> grind
      | _ => grind
    have hinv : ∀ rt : RangeTree, rt.cover = c.sector owner .free → Inv c
        { s with ms := { s.ms with msAllocatable := rt, msLoading := .no, msLoaded := true } } owner :=
      fun rt hrt => { h with
        allocatable := fun _ => hrt
        unallocated := fun hl' => by simp at hl'
        loading := fun _ => rfl
        notRead := fun hl' => by simp at hl'
        read := fun hr => by simp at hr
        sm := fun sm hs => by
          obtain ⟨hreg, halloc, -⟩ := h.sm sm hs
          exact ⟨hreg, halloc, fun hl' => by simp at hl'⟩
        condensing_loaded := fun _ => rfl }
    cases hsm : s.ms.msSm with
    | none =>
      obtain ⟨-, -, hd, -⟩ := h.noSm hsm
      rw [hd, hd, union_empty, sdiff_empty] at hfree
      refine ⟨_, hexec { s.ms with msLoading := .no, msLoaded := true } ?_, owner, hinv _ hfree⟩
      simp only [metaslabLoadEnd, hsm, if_true, isSome_none, Bool.false_eq_true, if_false]
    | some sm =>
      have hsub : ∀ t, c.sector owner (.deferred t) ⊆ s.ms.msAllocatable.cover := by
        intro t
        rw [h.read hread]
        intro x hx
        grind
      obtain ⟨rt0, hw0, hc0⟩ := rangeTreeWalk_remove (s.ms.msDefer 0) s.ms.msAllocatable (h.defer 0 ▸ hsub 0)
      obtain ⟨rt1, hw1, hc1⟩ := rangeTreeWalk_remove (s.ms.msDefer 1) rt0 (by
        rw [hc0, h.defer, h.defer]
        exact subset_sdiff.2 ⟨hsub 1, part_disjoint _ _ (by simp)⟩)
      refine ⟨_, hexec { s.ms with msAllocatable := rt1, msLoading := .no, msLoaded := true } ?_, owner, hinv rt1 ?_⟩
      · simp only [metaslabLoadEnd, hsm, if_true, isSome_some, hcond, metaslabRtRemove_false, hw0, hw1, ok_bind]
      · rw [hc1, hc0, h.defer, h.defer, sdiff_sdiff_left, sup_eq_union, hfree]
  · refine ⟨_, hexec { s.ms with msLoading := .no } ?_, owner, { h with
      loading := fun _ => rfl
      notRead := fun _ _ => h.notRead hl (by rw [hread]; simpa using he)
      read := fun hr => by simp at hr }⟩
    simp only [metaslabLoadEnd, if_neg he]

end Unleashed.Zfs
