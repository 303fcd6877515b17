import Unleashed.Zfs.Metaslab.Partition

/-!
# Condensing preserves the meaning of the space map

`metaslab_condense` rewrites the space map from other trees than those it was written from.
The partition of the metaslab makes the two agree.
-/

namespace Unleashed.Zfs

open Lib Lib.Segs Lib.Labels Finset MetaslabRun

variable {c : MetaslabConfig} {s : MetaslabRun} {owner : Nat → SpaceState} {n : Nat}

lemma MetaslabRun.Inv.append_eq (h : s.Inv c owner) (hphase : s.phase = .metaslabSync n .branch)
    (env1 env2 : WriteEnv) : ∃ sm', metaslabAppend s.ms (s.lastSynced + 1) env1 env2 = .ok { s.ms with msSm := some sm' } ∧
      sm'.Allocates ((c.sector owner .allocated ∪ c.sector owner (.allocating (txgSlot (s.lastSynced + 1)))) \
        s.ms.msFreeing.cover) := by
  have hF := freeing_subset h
  obtain ⟨sm, hsm⟩ := h.exists_sm hphase
  obtain ⟨hreg, halloc, -⟩ := h.sm sm hsm
  rw [onDisk, hphase] at halloc
  obtain ⟨sm1, h1, hreg1, ha1, -⟩ := metaslabWrite_eq s.ms hsm hreg halloc
    (s.ms.msAllocating (txgSlot (s.lastSynced + 1))) .alloc env1
    (by rw [h.allocating]; exact h.whole_sector _) (by rw [h.allocating]; exact part_subset _ _ _)
    ⟨by rw [h.allocating]; exact part_disjoint _ _ (by simp), trivial⟩
  rw [replay, replay, h.allocating] at ha1
  obtain ⟨sm2, h2, -, ha2, -⟩ := metaslabWrite_eq { s.ms with msSm := some sm1 } rfl hreg1 ha1
    s.ms.msFreeing .free env2 h.freeing_whole
    (hF.trans (union_subset (part_subset _ _ _) (part_subset _ _ _))) ⟨hF, trivial⟩
  refine ⟨sm2, ?_, ha2⟩
  unfold metaslabAppend
  rw [h1, ok_bind]
  exact h2

lemma MetaslabRun.Inv.condense_eq (h : s.Inv c owner) (hphase : s.phase = .metaslabSync n .branch)
    (hloaded : s.ms.msLoaded = true) (env1 env2 : WriteEnv) : ∃ sm', metaslabCondense c s.ms (s.lastSynced + 1) env1 env2 =
        .ok { s.ms with msSm := some sm', msCondenseWanted := false, msCondensing := false } ∧
      sm'.Allocates (s.condenseSet c owner \ c.sector owner .free) := by
  obtain ⟨sm, hsm⟩ := h.exists_sm hphase
  obtain ⟨rt, hrt, hcov⟩ := h.condenseTree_eq hloaded
  have hfree := h.allocatable hloaded
  have htrunc : (metaslabTruncate c { s.ms with msCondenseWanted := false, msCondensing := true }).msSm =
      some (spaceMapTruncate sm c.zfsMetaslabSmBlksz c.blksz_ge c.blksz_dvd) := by
    simp only [metaslabTruncate, hsm, Option.map_some]
  obtain ⟨sm1, h1, hreg1, ha1, -⟩ := metaslabWrite_eq (c := c)
    (metaslabTruncate c { s.ms with msCondenseWanted := false, msCondensing := true }) htrunc
    (h.sm sm hsm).1 (allocates_truncate _ _ _ _) rt .alloc env1 (hcov ▸ h.whole_condenseSet) (hcov ▸ sdiff_subset)
    ⟨disjoint_empty_left _, trivial⟩
  rw [replay, replay, empty_union, hcov] at ha1
  obtain ⟨sm2, h2, -, ha2, -⟩ := metaslabWrite_eq (c := c)
    { metaslabTruncate c { s.ms with msCondenseWanted := false, msCondensing := true } with
      msSm := some sm1 } rfl hreg1 ha1 s.ms.msAllocatable .free env2 (hfree ▸ h.whole_sector _) (hfree ▸ part_subset _ _ _)
    ⟨hfree ▸ h.free_subset_condenseSet, trivial⟩
  rw [replay, replay, hfree] at ha2
  refine ⟨sm2, ?_, ha2⟩
  unfold metaslabCondense
  rw [hrt, ok_bind]
  dsimp only
  rw [h1, ok_bind]
  dsimp only [metaslabTruncate] at h2 ⊢
  rw [h2, ok_bind]

/-- **Condensing preserves the space map's meaning.** Both branches of `metaslab_sync` succeed, and replaying what
they leave gives the same tree and `smp_alloc`. -/
theorem metaslab_condense_replay (hr : Reachable c s)
    (hphase : s.phase = .metaslabSync n .branch) (hloaded : s.ms.msLoaded = true) (env₁ env₂ env3 env4 : WriteEnv) :
    ∃ ms1 ms2 sm₁ sm₂ rt, metaslabCondense c s.ms (s.lastSynced + 1) env₁ env₂ = .ok ms1 ∧
      metaslabAppend s.ms (s.lastSynced + 1) env3 env4 = .ok ms2 ∧
      ms1.msSm = some sm₁ ∧ ms2.msSm = some sm₂ ∧
      spaceMapLoad (spaceMapUpdate sm₁) .create .alloc (fun _ => 0) = .ok (rt, 0) ∧
      spaceMapLoad (spaceMapUpdate sm₂) .create .alloc (fun _ => 0) = .ok (rt, 0) ∧
      rt.cover = (s.ms.replaySet ∪ s.alloctree.cover) \ s.ms.msFreeing.cover ∧
      sm₁.smpAlloc = sm₂.smpAlloc := by
  obtain ⟨owner, h⟩ := hr.inv
  obtain ⟨sm₁, h₁, ha₁⟩ := h.condense_eq hphase hloaded env₁ env₂
  obtain ⟨sm₂, h₂, ha₂⟩ := h.append_eq hphase env3 env4
  rw [h.condenseSet_sdiff] at ha₁
  obtain ⟨rt1, hload1, hcov1⟩ := ha₁.load
  obtain ⟨rt2, hload2, hcov2⟩ := ha₂.load
  obtain rfl : rt1 = rt2 := RangeTree.ext_cover (hcov1.trans hcov2.symm)
  refine ⟨_, _, sm₁, sm₂, rt1, h₁, h₂, rfl, rfl, hload1, hload2, ?_, ha₁.smpAlloc_eq.trans ha₂.smpAlloc_eq.symm⟩
  rw [hcov1, h.replaySet_eq, onDisk, hphase, alloctree, h.allocating]

/-- Allocate a sector of the new metaslab for txg 4 and begin to sync it. -/
lemma exists_branch_run : ∃ s, Reachable sectorConfig s ∧ s.phase = .metaslabSync 1 .branch ∧ s.ms.msLoaded = true ∧
    s.alloctree.rtRoot = [⟨4096, 4608⟩] := by
  have h0 : Reachable sectorConfig newMetaslabRun := .init (newMetaslabRun_initial _)
  have h1 := h0.step .loadBegin ⟨rfl, rfl⟩ rfl
  have h2 := h1.step (.loadRead fun _ => 0) rfl rfl
  have h3 := h2.step .loadEnd ⟨0, rfl⟩ rfl
  have h4 := h3.step (.alloc 512 4 0)
    ⟨rfl, rfl, rfl, ⟨⟨by decide, by decide, by decide, by decide⟩, by decide, MetaslabOps.noConfusion⟩,
      ⟨by decide, by decide, by simp [newMetaslabRun]⟩⟩ rfl
  have h5 := h4.step .spaSync rfl rfl
  have h6 := h5.step .syncBegin ⟨1, false, rfl⟩ rfl
  exact ⟨_, h6, rfl, rfl, rfl⟩

/-- The sector is written in both branches, and the replays agree. -/
theorem metaslab_condense_replay_sector : ∃ s, Reachable sectorConfig s ∧
    s.phase = .metaslabSync 1 .branch ∧ s.ms.msLoaded = true ∧ s.alloctree.rtRoot = [⟨4096, 4608⟩] ∧
    ∃ ms1 ms2 sm₁ sm₂ rt,
      metaslabCondense sectorConfig s.ms (s.lastSynced + 1) ⟨true, 1, 4, fun _ => false⟩ ⟨true, 1, 4, fun _ => false⟩ = .ok ms1 ∧
      metaslabAppend s.ms (s.lastSynced + 1) ⟨true, 1, 4, fun _ => false⟩ ⟨true, 1, 4, fun _ => false⟩ = .ok ms2 ∧
      ms1.msSm = some sm₁ ∧ ms2.msSm = some sm₂ ∧
      spaceMapLoad (spaceMapUpdate sm₁) .create .alloc (fun _ => 0) = .ok (rt, 0) ∧
      spaceMapLoad (spaceMapUpdate sm₂) .create .alloc (fun _ => 0) = .ok (rt, 0) ∧
      rt.cover = (s.ms.replaySet ∪ s.alloctree.cover) \ s.ms.msFreeing.cover ∧ sm₁.smpAlloc = sm₂.smpAlloc := by
  obtain ⟨s, hr, hphase, hloaded, hroot⟩ := exists_branch_run
  exact ⟨s, hr, hphase, hloaded, hroot, metaslab_condense_replay hr hphase hloaded _ _ _ _⟩

end Unleashed.Zfs
