import Unleashed.Zfs.SpaceMap.Replay

/-!
# What is written is what is read

Any sequence of `space_map_write` calls on an empty object, followed by `space_map_update`,
is read back by `space_map_iterate` and `space_map_load`.
-/

namespace Unleashed.Zfs

open Lib

/-- One call of `space_map_write`. -/
structure SpaceMapWrite where
  rt : RangeTree
  maptype : MapType
  vdevId : Nat
  env : WriteEnv

/-- The record it leaves in the log. -/
def SpaceMapWrite.record (w : SpaceMapWrite) : LogRecord := (w.maptype, w.rt)

/-- A call within the limits of the encoding. -/
structure SpaceMapWrite.Ok (r : SpaceMapRegion) (w : SpaceMapWrite) : Prop where
  writable : Writable r w.rt
  addressable : Addressable r w.env.v2Active w.rt
  vdev : VdevOk w.env.v2Active w.vdevId

/-- A sequence of calls of `space_map_write`. -/
def spaceMapWrites (sm : SpaceMap) : List SpaceMapWrite → Except Fault SpaceMap
  | [] => .ok sm
  | w :: ws => do
    let sm ← spaceMapWrite sm w.rt w.maptype w.vdevId w.env
    spaceMapWrites sm ws

/-- The object reads as `log`, and `smp_alloc` is the sum of its records. -/
structure SpaceMap.Written (sm : SpaceMap) (log : List LogRecord) : Prop where
  entries : ∃ es, sm.LogTo sm.smpObjsize es ∧ LogEntries log es
  alloc : sm.smpAlloc = log.foldl (fun a w => allocAfter a w.1 w.2.rtSpace) 0

variable {sm : SpaceMap} {log : List LogRecord}

lemma SpaceMap.Written.dvd (h : sm.Written log) : 8 ∣ sm.smpObjsize := by
  obtain ⟨es, ⟨ws, hlen, -⟩, -⟩ := h.entries
  exact ⟨ws.length, hlen.symm⟩

lemma written_empty (r : SpaceMapRegion) (blksz : Nat) (hge : 16 ≤ blksz) (hdvd : 8 ∣ blksz) :
    (SpaceMap.empty r blksz hge hdvd).Written [] :=
  ⟨⟨[], ⟨[], rfl, fun j hj => by simp at hj, .nil _⟩, [], rfl, .nil⟩, rfl⟩

variable {es : List SpaceMapEntry}

/-- What was written to the object stays readable when words are appended. -/
lemma SpaceMap.LogTo.pushAll {n : Nat} (h : sm.LogTo n es) (hn : n ≤ sm.smpObjsize) (ws : List Nat) (a : BitVec 64) :
    (({ sm with smpAlloc := a } : SpaceMap).pushAll ws).LogTo n es := by
  obtain ⟨ws0, hlen, hat, hdec⟩ := h
  refine ⟨ws0, hlen, fun j hj => ?_, ?_⟩
  · rw [pushAll_words_lt]
    · exact hat j hj
    · show 0 + j < sm.smpObjsize / 8
      omega
  · simpa [SpaceMap.blockWords] using hdec

/-- Words appended at the end of the object extend what it reads as. -/
lemma SpaceMap.LogTo.extend {es' : List SpaceMapEntry} {ws : List Nat} (h : sm.LogTo sm.smpObjsize es)
    (hdec : Decodes sm.toSpaceMapRegion sm.blockWords (sm.smpObjsize / 8) ws es') (a : BitVec 64) :
    (({ sm with smpAlloc := a } : SpaceMap).pushAll ws).LogTo (sm.smpObjsize + 8 * ws.length) (es ++ es') := by
  obtain ⟨ws0, hlen, hat, hdec0⟩ := h
  have hend : sm.smpObjsize / 8 = 0 + ws0.length := by omega
  refine ⟨ws0 ++ ws, by simp; omega, wordsAt_append.2 ⟨?_, ?_⟩, ?_⟩
  · intro j hj
    rw [pushAll_words_lt]
    · exact hat j hj
    · show 0 + j < sm.smpObjsize / 8
      omega
  · have hat' := wordsAt_pushAll { sm with smpAlloc := a } ws
    rwa [hend] at hat'
  · rw [pushAll_region]
    rw [hend] at hdec
    simpa [SpaceMap.blockWords] using hdec0.append hdec

/-- **One write** extends the log by its record. -/
theorem SpaceMap.Written.write (h : sm.Written log) {w : SpaceMapWrite} (hok : w.Ok sm.toSpaceMapRegion) :
    ∃ sm', spaceMapWrite sm w.rt w.maptype w.vdevId w.env = .ok sm' ∧
      sm'.Written (log ++ [w.record]) ∧ sm'.toSpaceMapRegion = sm.toSpaceMapRegion ∧
      sm'.smLength = sm.smLength ∧ sm'.smAlloc = sm.smAlloc ∧ sm.smpObjsize ≤ sm'.smpObjsize ∧
      (∀ n es, n ≤ sm.smpObjsize → sm.LogTo n es → sm'.LogTo n es) := by
  obtain ⟨ws, es, heq, hdec, -, -, htile⟩ :=
    spaceMapWrite_spec (t := w.maptype) h.dvd hok.writable hok.vdev
  obtain ⟨es0, hlog, hes⟩ := h.entries
  refine ⟨_, heq, ⟨⟨es0 ++ es, ?_, hes.append (.single (htile hok.addressable))⟩, ?_⟩, by simp, by simp, by simp, by simp,
    fun n es hn hl => hl.pushAll hn ws _⟩
  · rw [pushAll_smpObjsize]
    exact hlog.extend hdec _
  · rw [pushAll_smpAlloc, List.foldl_append, ← h.alloc]
    rfl

/-- **A sequence of writes** extends the log by their records, in order. -/
theorem SpaceMap.Written.writes (ws : List SpaceMapWrite) : ∀ {sm : SpaceMap} {log : List LogRecord}, sm.Written log →
      (∀ w ∈ ws, w.Ok sm.toSpaceMapRegion) → ∃ sm', spaceMapWrites sm ws = .ok sm' ∧
        sm'.Written (log ++ ws.map SpaceMapWrite.record) ∧
        sm'.toSpaceMapRegion = sm.toSpaceMapRegion := by
  induction ws with
  | nil => intro sm log h _; exact ⟨sm, rfl, by simpa using h, rfl⟩
  | cons w ws ih =>
    intro sm log h hok
    obtain ⟨sm1, heq, hw, hreg, -⟩ := h.write (hok w (by simp))
    obtain ⟨sm2, heq', hw', hreg'⟩ := ih hw (by rw [hreg]; exact fun v hv => hok v (by simp [hv]))
    refine ⟨sm2, ?_, by simpa using hw', hreg'.trans hreg⟩
    rw [spaceMapWrites, heq]
    exact heq'

lemma alloc_of_replayable {a : Finset Nat} (h : Replayable log a) :
    log.foldl (fun b w => allocAfter b w.1 w.2.rtSpace) (BitVec.ofNat 64 a.card) = BitVec.ofNat 64 (replay log a).card := by
  induction log generalizing a with
  | nil => rfl
  | cons w log ih =>
    obtain ⟨h1, h2⟩ := replayable_append.1 (show Replayable ([w] ++ log) a from h)
    rw [List.foldl_cons, allocAfter_replay h1, ih h2]
    exact congrArg _ (congrArg _ (replay_append [w] log a).symm)

/-- **Round trip.** Any writes to an empty object succeed; the entries read back are the pieces of the written
segments; if the writes are replayable, loading rebuilds the allocated or the free offsets. -/
theorem spaceMap_round_trip (r : SpaceMapRegion) (blksz : Nat) (hge : 16 ≤ blksz) (hdvd : 8 ∣ blksz)
    (ws : List SpaceMapWrite) (hok : ∀ w ∈ ws, w.Ok r) :
    ∃ sm, spaceMapWrites (.empty r blksz hge hdvd) ws = .ok sm ∧ (∃ ess : List (List SpaceMapEntry),
        List.Forall₂ (fun (w : SpaceMapWrite) es => TilesAll w.maptype w.rt.rtRoot es) ws ess ∧
        ∀ (σ : Type) (callback : σ → SpaceMapEntry → Except Fault (σ × Nat)) (arg : σ),
          spaceMapIterate (spaceMapUpdate sm) callback (fun _ => 0) arg = foldCallback callback ess.flatten arg) ∧
      (Replayable (ws.map SpaceMapWrite.record) ∅ →
        (∃ rt, spaceMapLoad (spaceMapUpdate sm) .create .alloc (fun _ => 0) = .ok (rt, 0) ∧
          rt.cover = replay (ws.map SpaceMapWrite.record) ∅) ∧
        ∃ rt, spaceMapLoad (spaceMapUpdate sm) .create .free (fun _ => 0) = .ok (rt, 0) ∧
          rt.cover = Finset.Ico r.smStart (r.smStart + r.smSize) \ replay (ws.map SpaceMapWrite.record) ∅) := by
  obtain ⟨sm, heq, hw, hreg⟩ := (written_empty r blksz hge hdvd).writes ws hok
  obtain ⟨es, hlog, hes⟩ := hw.entries
  have hlog' : (spaceMapUpdate sm).LogTo (spaceMapUpdate sm).smLength es := hlog
  rw [List.nil_append] at hes
  refine ⟨sm, heq, ?_, fun hrep => ?_⟩
  · obtain ⟨ess, rfl, hf⟩ := hes
    refine ⟨ess, (List.forall₂_map_left_iff).1 hf, fun σ callback arg => ?_⟩
    exact spaceMapIterate_eq callback (fun _ => rfl) hlog' arg
  · have hin : ∀ w ∈ ws.map SpaceMapWrite.record, w.2.cover ⊆ (spaceMapUpdate sm).span := by
      intro w hmem
      obtain ⟨v, hv, rfl⟩ := List.mem_map.1 hmem
      show v.rt.cover ⊆ sm.toSpaceMapRegion.span
      rw [hreg]
      exact (hok v hv).writable.cover_subset
    have halloc : (spaceMapUpdate sm).smAlloc = BitVec.ofNat 64 (replay (ws.map SpaceMapWrite.record) ∅).card := by
      rw [← alloc_of_replayable hrep]
      exact hw.alloc
    have hload := fun maptype =>
      spaceMapLoad_spec (spaceMapUpdate sm) maptype _ (fun _ => rfl) hlog' hes hin hrep halloc
    refine ⟨hload .alloc, ?_⟩
    obtain ⟨rt, h1, h2⟩ := hload .free
    refine ⟨rt, h1, h2.trans ?_⟩
    show sm.toSpaceMapRegion.span \ _ = _
    rw [hreg]
    rfl

/-- A metaslab of eight sectors. -/
def sectorRegion : SpaceMapRegion :=
  ⟨4096, 4096, 9, by decide, by decide, by decide, by decide⟩

/-- Allocate its second and third sector. -/
def sectorWrite : SpaceMapWrite :=
  ⟨.ofSeg ⟨4608, 5632⟩ (by decide), .alloc, smNoVdevid, ⟨false, 1, 4, fun _ => false⟩⟩

theorem spaceMap_round_trip_sector : (∀ w ∈ [sectorWrite], w.Ok sectorRegion) ∧
    ∃ sm, spaceMapWrites (.empty sectorRegion 16 (by decide) (by decide)) [sectorWrite] = .ok sm ∧
      ∃ rt, spaceMapLoad (spaceMapUpdate sm) .create .alloc (fun _ => 0) = .ok (rt, 0) ∧ rt.cover = Finset.Ico 4608 5632 := by
  have hok : ∀ w ∈ [sectorWrite], w.Ok sectorRegion := by
    intro w hw
    obtain rfl := List.mem_singleton.1 hw
    exact ⟨by decide, by decide, by decide⟩
  obtain ⟨sm, h, -, hload⟩ := spaceMap_round_trip sectorRegion 16 (by decide) (by decide) _ hok
  obtain ⟨⟨rt, hrt, hcov⟩, -⟩ := hload ⟨Finset.disjoint_empty_left _, trivial⟩
  refine ⟨hok, sm, h, rt, hrt, hcov.trans ?_⟩
  show ∅ ∪ (Finset.Ico 4608 5632 ∪ ∅) = _
  rw [Finset.union_empty, Finset.empty_union]

lemma unit_shift : 0 < 64 := by decide

lemma unit_aligned : 2 ^ 0 ∣ 0 := dvd_zero _

/-- The region of a vdev's dirty time log, opened with size `-1ULL` and shift 0. -/
def dtlRegion : SpaceMapRegion :=
  ⟨0, 2 ^ 64 - 1, 0, unit_shift, unit_aligned, by decide, by decide⟩

/-- A segment past the 63 bits of a two-word offset. -/
def farWrite : SpaceMapWrite :=
  ⟨.ofSeg ⟨2 ^ 63, 2 ^ 63 + 1⟩ (by decide), .alloc, smNoVdevid, ⟨true, 1, 4, fun _ => false⟩⟩

/-- With SPACEMAP_V2 a segment may still be out of reach: the offset `2 ^ 63` comes back as 0. -/
theorem spaceMap_round_trip_far : Writable dtlRegion farWrite.rt ∧ VdevOk farWrite.env.v2Active farWrite.vdevId ∧ (do
      let sm ← spaceMapWrites (.empty dtlRegion 4096 (by decide) (by decide)) [farWrite]
      spaceMapIterate (spaceMapUpdate sm) (fun es e => .ok (es ++ [e], 0)) (fun _ => 0) []) =
        .ok ([⟨.alloc, 0, 0, 1⟩], 0) ∧ ¬ TilesAll farWrite.maptype farWrite.rt.rtRoot [⟨.alloc, 0, 0, 1⟩] := by
  refine ⟨by decide, by decide, by decide +kernel, fun h => ?_⟩
  obtain ⟨es1, es2, he, h1, ⟨ess, rfl, h2⟩⟩ := tilesAll_cons h
  cases h2
  obtain rfl : es1 = [⟨.alloc, 0, 0, 1⟩] := by simpa using he.symm
  cases h1 with
  | cons _ hoff _ _ => exact absurd hoff (by decide)

end Unleashed.Zfs
