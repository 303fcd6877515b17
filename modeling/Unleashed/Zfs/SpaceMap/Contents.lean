import Unleashed.Zfs.SpaceMap.RoundTrip

/-!
# The set a space map stands for

`SpaceMap.Allocates` gives the allocated offsets that the whole object records, `SpaceMap.Synced` those recorded at
the last `space_map_update`, which `space_map_load` rebuilds.
-/

namespace Unleashed.Zfs

open Lib

/-- The object records the allocated offsets `A`. -/
def SpaceMap.Allocates (sm : SpaceMap) (A : Finset Nat) : Prop :=
  ∃ log, sm.Written log ∧ Replayable log ∅ ∧ (∀ w ∈ log, w.2.cover ⊆ sm.span) ∧ replay log ∅ = A

/-- The synced length of the object records the allocated offsets `B`. -/
def SpaceMap.Synced (sm : SpaceMap) (B : Finset Nat) : Prop :=
  sm.smLength ≤ sm.smpObjsize ∧ sm.smAlloc = BitVec.ofNat 64 B.card ∧
    ∃ log es, sm.LogTo sm.smLength es ∧ LogEntries log es ∧ Replayable log ∅ ∧
      (∀ w ∈ log, w.2.cover ⊆ sm.span) ∧ replay log ∅ = B

variable {sm : SpaceMap} {A B : Finset Nat}

lemma SpaceMap.Allocates.subset (h : sm.Allocates A) : A ⊆ sm.span := by
  obtain ⟨log, -, -, hin, rfl⟩ := h
  exact replay_subset (Finset.empty_subset _) hin

lemma SpaceMap.Allocates.smpAlloc_eq (h : sm.Allocates A) : sm.smpAlloc = BitVec.ofNat 64 A.card := by
  obtain ⟨log, hw, hrep, -, rfl⟩ := h
  exact hw.alloc.trans (alloc_of_replayable hrep)

lemma allocates_empty (r : SpaceMapRegion) (blksz : Nat) (hge : 16 ≤ blksz) (hdvd : 8 ∣ blksz) :
    (SpaceMap.empty r blksz hge hdvd).Allocates ∅ :=
  ⟨[], written_empty r blksz hge hdvd, trivial, by simp, rfl⟩

lemma synced_empty (r : SpaceMapRegion) (blksz : Nat) (hge : 16 ≤ blksz) (hdvd : 8 ∣ blksz) :
    (SpaceMap.empty r blksz hge hdvd).Synced ∅ := by
  obtain ⟨es, hlog, hes⟩ := (written_empty r blksz hge hdvd).entries
  exact ⟨le_rfl, rfl, [], es, hlog, hes, trivial, by simp, rfl⟩

/-- After `space_map_truncate` the object records nothing. -/
lemma allocates_truncate (sm : SpaceMap) (blksz : Nat) (hge : 16 ≤ blksz) (hdvd : 8 ∣ blksz) :
    (spaceMapTruncate sm blksz hge hdvd).Allocates ∅ :=
  ⟨[], ⟨⟨[], ⟨[], rfl, fun j hj => by simp at hj, .nil _⟩, [], rfl, .nil⟩, rfl⟩, trivial, by simp, rfl⟩

/-- **`space_map_write`** applies its record and leaves the synced set. -/
theorem SpaceMap.Allocates.write (h : sm.Allocates A) {t : MapType} {rt : RangeTree}
    (hrep : Replayable [(t, rt)] A) (env : WriteEnv) (hwr : Writable sm.toSpaceMapRegion rt)
    (haddr : Addressable sm.toSpaceMapRegion env.v2Active rt) :
    ∃ sm', spaceMapWrite sm rt t smNoVdevid env = .ok sm' ∧ sm'.Allocates (replay [(t, rt)] A) ∧
      sm'.toSpaceMapRegion = sm.toSpaceMapRegion ∧ (∀ B, sm.Synced B → sm'.Synced B) := by
  obtain ⟨log, hw, hlog, hin, rfl⟩ := h
  obtain ⟨sm', heq, hw', hreg, hlen, halloc, hobj, hkeep⟩ :=
    hw.write (w := ⟨rt, t, smNoVdevid, env⟩) ⟨hwr, haddr, le_rfl, .inr rfl⟩
  have hspan : sm'.span = sm.span := congrArg SpaceMapRegion.span hreg
  refine ⟨sm', heq, ⟨log ++ [(t, rt)], hw', replayable_append.2 ⟨hlog, hrep⟩, ?_, replay_append _ _ _⟩, hreg, ?_⟩
  · intro w hmem
    rw [hspan]
    rcases List.mem_append.1 hmem with hmem | hmem
    · exact hin w hmem
    · obtain rfl := List.mem_singleton.1 hmem
      exact hwr.cover_subset
  · rintro B ⟨hle, ha, log', es, hto, hes, hrep', hin', hB⟩
    refine ⟨by omega, halloc.trans ha, log', es, ?_, hes, hrep', hspan ▸ hin', hB⟩
    rw [hlen]
    exact hkeep _ _ hle hto

/-- `space_map_update` makes the recorded set the synced one. -/
lemma SpaceMap.Allocates.update (h : sm.Allocates A) : (spaceMapUpdate sm).Allocates A ∧ (spaceMapUpdate sm).Synced A := by
  have halloc := h.smpAlloc_eq
  obtain ⟨log, hw, hrep, hin, rfl⟩ := h
  obtain ⟨es, hto, hes⟩ := hw.entries
  exact ⟨⟨log, ⟨⟨es, hto, hes⟩, hw.alloc⟩, hrep, hin, rfl⟩, le_rfl, halloc, log, es, hto, hes, hrep, hin, rfl⟩

/-- Reading the whole object back gives the recorded set. -/
lemma SpaceMap.Allocates.load (h : sm.Allocates A) :
    ∃ rt, spaceMapLoad (spaceMapUpdate sm) .create .alloc (fun _ => 0) = .ok (rt, 0) ∧ rt.cover = A := by
  obtain ⟨-, -, halloc, log, es, hto, hes, hrep, hin, rfl⟩ := h.update
  exact spaceMapLoad_spec (spaceMapUpdate sm) .alloc _ (fun _ => rfl) hto hes hin hrep halloc

/-! ## Loading, with reads that may fail -/

/-- A failed read ends the iteration with its error and nothing worse. -/
lemma iterateBlocks_hold {σ : Type} {callback : σ → SpaceMapEntry → Except Fault (σ × Nat)}
    (hold : Nat → Nat) (fuel : Nat) : ∀ (base : Nat) (arg y : σ),
      iterateBlocks sm callback (fun _ => 0) fuel base arg = .ok (y, 0) →
      iterateBlocks sm callback hold fuel base arg = .ok (y, 0) ∨
        ∃ x e, e ≠ 0 ∧ iterateBlocks sm callback hold fuel base arg = .ok (x, e) := by
  induction fuel with
  | zero => intro base arg y h; exact .inl h
  | succ fuel ih =>
    intro base arg y h
    rw [iterateBlocks] at h ⊢
    by_cases hlt : base < sm.smLength
    · rw [if_pos hlt] at h ⊢
      by_cases hh : hold base = 0
      · rw [if_neg (by simp [hh])]
        rw [if_neg (by simp)] at h
        obtain ⟨_, h1, h⟩ := bind_returns.1 h
        obtain ⟨_, h2, h⟩ := bind_returns.1 h
        obtain ⟨⟨arg', e⟩, h3, h⟩ := bind_returns.1 h
        dsimp only at h
        by_cases he : e = 0
        · subst he
          rw [if_pos rfl] at h
          have := ih _ _ _ h
          simpa only [h1, h2, h3, ok_bind, if_true] using this
        · rw [if_neg he] at h
          cases h
          exact absurd rfl he
      · rw [if_pos hh]
        exact .inr ⟨_, _, hh, rfl⟩
    · rw [if_neg hlt] at h ⊢
      exact .inl h

/-- **`space_map_load`** of the free space returns what is not in the synced set, or an error. -/
theorem SpaceMap.Synced.load (h : sm.Synced B) (hold : Nat → Nat) :
    (∃ rt, spaceMapLoad sm .create .free hold = .ok (rt, 0) ∧ rt.cover = sm.span \ B) ∨
      ∃ e, e ≠ 0 ∧ spaceMapLoad sm .create .free hold = .ok (.create, e) := by
  obtain ⟨-, halloc, log, es, hto, hes, hrep, hin, rfl⟩ := h
  obtain ⟨rt, hload, hcov⟩ :=
    spaceMapLoad_spec sm .free (fun _ => 0) (fun _ => rfl) hto hes hin hrep halloc
  unfold spaceMapLoad at hload ⊢
  obtain ⟨_, h1, hload⟩ := bind_returns.1 hload
  obtain ⟨rt0, h2, hload⟩ := bind_returns.1 hload
  rw [ok_bind] at hload
  obtain ⟨⟨rt1, err⟩, h3, hload⟩ := bind_returns.1 hload
  dsimp only at hload
  by_cases he : err = 0
  · subst he
    simp only [h1, h2, ok_bind]
    rcases iterateBlocks_hold hold _ _ _ _ h3 with h4 | ⟨x, e, he, h4⟩
    · refine .inl ⟨rt, ?_, hcov⟩
      rw [spaceMapIterate, h4]
      exact hload
    · refine .inr ⟨e, he, ?_⟩
      rw [spaceMapIterate, h4, ok_bind]
      exact if_neg he
  · rw [if_neg he] at hload
    cases hload
    exact absurd rfl he

end Unleashed.Zfs
