import Unleashed.Zfs.Metaslab.SyncSteps

/-!
# The space partition holds in every run

From the invariant: the trees of a loaded metaslab and the space allocated on disk divide its region, and no operation
fails.
-/

namespace Unleashed.Zfs

open Lib Lib.Segs Lib.Labels MetaslabRun RangeTree Finset

variable {c : MetaslabConfig} {s : MetaslabRun} {owner : Nat → SpaceState}

/-- **Step**: an enabled operation succeeds, except an allocation taken back while the metaslab condenses. -/
theorem MetaslabRun.Inv.exec_op (h : s.Inv c owner) {op : MetaslabOp} (hen : s.Enabled c op) :
    ((∃ offset size txg, op = .unalloc offset size txg) ∧ s.ms.msCondensing = true ∧ s.exec c op = .error .verify) ∨
    Keeps c (s.exec c op) := by
  cases op with
  | alloc size txg hit => exact .inr (h.exec_alloc hen)
  | unalloc offset size txg =>
    rcases h.exec_unalloc hen with ⟨hc, he⟩ | hok
    · exact .inl ⟨⟨offset, size, txg, rfl⟩, hc, he⟩
    · exact .inr hok
  | free offset asize checkpoint => exact .inr (h.exec_free hen)
  | condenseWanted => exact .inr h.exec_condenseWanted
  | preload => exact .inr h.exec_preload
  | loadBegin => exact .inr (h.exec_loadBegin hen)
  | loadRead hold => exact .inr (h.exec_loadRead hen)
  | loadEnd => exact .inr (h.exec_loadEnd hen)
  | spaSync => exact .inr (h.exec_spaSync hen)
  | nextPass => exact .inr (h.exec_nextPass hen)
  | syncBegin => exact .inr (h.exec_syncBegin hen)
  | syncBranch shouldCondense => exact .inr (h.exec_syncBranch hen)
  | syncWrite env => exact .inr (h.exec_syncWrite hen)
  | syncDone deferAllowed => exact .inr (h.exec_syncDone hen)

/-- **Run**: the invariant holds in every reachable state. -/
theorem MetaslabRun.Reachable.inv (h : Reachable c s) : ∃ owner, s.Inv c owner := by
  induction h with
  | init h => exact h.inv
  | step op _ hen hexec ih =>
    obtain ⟨owner, hinv⟩ := ih
    rcases hinv.exec_op hen with ⟨-, -, herr⟩ | ⟨s'', hok, howner⟩
    · exact absurd (herr.symm.trans hexec) (by simp)
    · cases hok.symm.trans hexec
      exact howner

/-- What is allocated on disk, whatever has been written so far. -/
lemma MetaslabRun.Inv.stillAllocated_eq (h : s.Inv c owner) (hloaded : s.ms.msLoaded = true) :
    s.stillAllocated = c.sector owner .allocated := by
  have hF := freeing_subset h
  have hcov := h.allocatable hloaded
  have hcur : s.alloctree.cover = c.sector owner (.allocating (txgSlot (s.lastSynced + 1))) := h.allocating _
  have hdis : Disjoint (c.sector owner .allocated)
      (c.sector owner (.allocating (txgSlot (s.lastSynced + 1)))) := part_disjoint _ _ (by simp)
  have happend : ((c.sector owner .allocated ∪ c.sector owner (.allocating (txgSlot (s.lastSynced + 1)))) \
      s.ms.msFreeing.cover ∪ s.ms.msFreeing.cover) \
        c.sector owner (.allocating (txgSlot (s.lastSynced + 1))) = c.sector owner .allocated := by
    rw [Finset.sdiff_union_of_subset hF, Finset.union_sdiff_distrib, Finset.sdiff_self, Finset.union_empty]
    exact Finset.sdiff_eq_self_of_disjoint hdis
  have hcondense : (s.condenseSet c owner ∪ s.ms.msFreeing.cover) \
      (c.sector owner .free ∪ c.sector owner (.allocating (txgSlot (s.lastSynced + 1)))) =
      c.sector owner .allocated := by
    have hFfree : Disjoint s.ms.msFreeing.cover (c.sector owner .free) :=
      disjoint_of_subset_left hF
        (disjoint_union_left.2 ⟨part_disjoint _ _ (by simp), part_disjoint _ _ (by simp)⟩)
    have hsplit : ∀ A B C : Finset Nat, A \ (B ∪ C) = (A \ B) \ C := fun A B C => sdiff_sdiff_left.symm
    rw [← happend, ← h.condenseSet_sdiff, hsplit, union_sdiff_distrib, sdiff_eq_self_of_disjoint hFfree]
  have hreplay := h.replaySet_eq
  unfold MetaslabRun.onDisk at hreplay
  unfold MetaslabRun.stillAllocated
  cases hphase : s.phase with
  | idle => rw [hphase] at hreplay; exact hreplay
  | pass n listed => rw [hphase] at hreplay; exact hreplay
  | metaslabSync n at_ =>
    rw [hphase] at hreplay
    cases at_ with
    | branch => exact hreplay
    | writeAlloc => exact hreplay
    | truncate rt => exact hreplay
    | writeFree =>
      simp only at hreplay ⊢
      rw [hreplay, hcur, Finset.union_sdiff_distrib, Finset.sdiff_self, Finset.union_empty]
      exact Finset.sdiff_eq_self_of_disjoint hdis
    | finish =>
      simp only at hreplay ⊢
      rw [hreplay, hcur, happend]
    | writeCondensed rt =>
      have htree := h.condenseTree rt (by rw [hphase]; rfl)
      simp only
      rw [htree, hcov, hcur, hcondense]
    | writeAllocatable =>
      simp only at hreplay ⊢
      rw [hreplay, hcov, hcur, hcondense]

/-- The trees and the space map, by the state of the offsets. -/
def MetaslabRun.parts (s : MetaslabRun) : SpaceState → Finset Nat
  | .free => s.ms.msAllocatable.cover
  | .allocating t => (s.ms.msAllocating t).cover
  | .freed => s.ms.msFreed.cover
  | .deferred t => (s.ms.msDefer t).cover
  | .allocated => s.stillAllocated

lemma MetaslabRun.Inv.parts_eq (h : s.Inv c owner) (hloaded : s.ms.msLoaded = true) : s.parts = c.sector owner := by
  funext p
  cases p with
  | free => exact h.allocatable hloaded
  | allocating t => exact h.allocating t
  | freed => exact h.freed
  | deferred t => exact h.defer t
  | allocated => exact h.stillAllocated_eq hloaded

/-- **Metaslab space partition.** In every run the trees of a loaded metaslab and the space still allocated on disk
are disjoint and cover it; `ms_deferspace` and `metaslab_verify_space` are right; every operation succeeds, unless it
takes back an allocation while the metaslab condenses. -/
theorem metaslab_space_partition (hr : Reachable c s) :
    (s.ms.msLoaded = true → Pairwise (fun p q => Disjoint (s.parts p) (s.parts q)) ∧
      univ.biUnion s.parts = Finset.Ico c.smStart (c.smStart + c.smSize)) ∧
    s.ms.msDeferspace = (rangeTreeSpace (s.ms.msDefer 0) + rangeTreeSpace (s.ms.msDefer 1) : Nat) ∧
    (∀ n listed, s.phase = .pass n listed →
      metaslabVerifySpace { c with debugMetaslabVerify := true } s.ms s.spaSyncingTxg s.spaSyncingTxg = .ok ()) ∧
    ∀ op, s.Enabled c op → s.exec c op ≠ .error .recover ∧ ((∃ s', s.exec c op = .ok s') ∨
        (∃ offset size txg, op = .unalloc offset size txg) ∧ s.ms.msCondensing = true ∧ s.exec c op = .error .verify) := by
  obtain ⟨owner, h⟩ := hr.inv
  refine ⟨fun hloaded => ?_, ?_, fun n listed hphase => ?_, fun op hen => ?_⟩
  · rw [h.parts_eq hloaded]
    exact ⟨fun p q hne => part_disjoint _ _ hne, biUnion_part _ _⟩
  · rw [h.deferspace, ← h.defer, ← h.defer, ← space_eq_card, ← space_eq_card]
    rfl
  · have htxg : s.spaSyncingTxg = s.lastSynced + 1 := by rw [spaSyncingTxg, hphase]
    exact h.verifySpace (by omega) (by simp [hphase]) rfl
  · rcases h.exec_op hen with ⟨hop, hc, herr⟩ | ⟨s', hok, -⟩
    · exact ⟨by rw [herr]; simp, .inr ⟨hop, hc, herr⟩⟩
    · exact ⟨by rw [hok]; simp, .inl ⟨s', hok⟩⟩

/-- A metaslab of eight sectors with the dynamic-fit allocator. -/
def sectorConfig : MetaslabConfig where
  toSpaceMapRegion := sectorRegion
  sized := by decide
  addressable := by decide
  mcOps := .df
  tun := ⟨2 ^ 17, 4, 4⟩
  zfsMetaslabSmBlksz := 4096
  blksz_ge := by decide
  blksz_dvd := by decide
  debugMetaslabVerify := true
  debugZioFree := true
  metaslabDebugUnload := false

/-- It has no space map yet, and txg 3 is synced. -/
def newMetaslabRun : MetaslabRun where
  ms := {
    msSm := none
    msAllocating := fun _ => .create
    msAllocatable := .create
    msFreeing := .create
    msFreed := .create
    msDefer := fun _ => .create
    msCheckpointing := .create
    msReady := true
    msCondensing := false
    msCondenseWanted := false
    msLoaded := false
    msLoading := .no
    msDeferspace := 0
    msLbas := fun _ => 0
    msSelectedTxg := 0 }
  lastSynced := 3
  phase := .idle

lemma newMetaslabRun_initial (c : MetaslabConfig) : newMetaslabRun.Initial c where
  phase := rfl
  allocating _ := rfl
  allocatable := rfl
  freeing := rfl
  freed := rfl
  defer _ := rfl
  checkpointing := rfl
  condensing := rfl
  loaded := rfl
  loading := rfl
  deferspace := rfl
  lbas := rfl
  sm sm hsm := by cases hsm

/-- Load the new metaslab and allocate a sector of it for txg 5. -/
lemma exists_allocated_run : ∃ s, Reachable sectorConfig s ∧ s.ms.msLoaded = true ∧
    (s.ms.msAllocating 1).rtRoot = [⟨4096, 4608⟩] := by
  have h0 : Reachable sectorConfig newMetaslabRun := .init (newMetaslabRun_initial _)
  have h1 := h0.step .loadBegin ⟨rfl, rfl⟩ rfl
  have h2 := h1.step (.loadRead fun _ => 0) rfl rfl
  have h3 := h2.step .loadEnd ⟨0, rfl⟩ rfl
  have h4 := h3.step (.alloc 512 5 fun _ => 0)
    ⟨rfl, rfl, rfl, ⟨⟨by decide, by decide, by decide, by decide⟩, by decide, MetaslabOps.noConfusion⟩, ⟨by decide, by decide, by simp [newMetaslabRun]⟩⟩ rfl
  exact ⟨_, h4, rfl, rfl⟩

theorem metaslab_space_partition_sector : ∃ s, Reachable sectorConfig s ∧
    s.ms.msLoaded = true ∧ (s.ms.msAllocating 1).rtRoot = [⟨4096, 4608⟩] ∧
    Pairwise (fun p q => Disjoint (s.parts p) (s.parts q)) ∧ univ.biUnion s.parts = Finset.Ico 4096 8192 := by
  obtain ⟨s, hr, hloaded, hroot⟩ := exists_allocated_run
  exact ⟨s, hr, hloaded, hroot, (metaslab_space_partition hr).1 hloaded⟩

end Unleashed.Zfs
