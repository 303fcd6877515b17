import Unleashed.Zfs.SpaceMap.Destroy

/-!
# The vdev of an entry

`sme_vdev` of an entry says `SM_NO_VDEVID` if no vdev was specified. `SM_NO_VDEVID` is the first
number that does not fit into the field of a two-word entry.
-/

namespace Unleashed.Zfs

open Lib List

/-- The entries of the segment `p.1`, the `p.2`-th of its tree, and when they have the vdev. -/
structure ReadBack (sm : SpaceMap) (w : SpaceMapWrite) (p : Seg × Nat) (es : List SpaceMapEntry) : Prop where
  nonempty : es ≠ []
  runs : Runs w.maptype (p.1.hi - p.1.lo) es
  vdev : (∀ e ∈ es, e.smeVdev = w.vdevId) ↔
    (w.vdevId = smNoVdevid → entryWords sm p.1 w.vdevId w.env.v2Active (w.env.force p.2) = 1)

variable {sm : SpaceMap} {t : MapType} {vdevId : Nat}

lemma units_pos {r : SpaceMapRegion} {s : Seg} (hpos : s.lo < s.hi) (hdlo : 2 ^ r.smShift ∣ s.lo) (hdhi : 2 ^ r.smShift ∣ s.hi) :
    0 < (s.hi - s.lo) >>> r.smShift := by
  rw [Nat.shiftRight_eq_div_pow]
  exact Nat.div_pos (Nat.le_of_dvd (by omega) (Nat.dvd_sub hdhi hdlo)) (by positivity)

variable {b pos : Nat} {ws : List Nat} {es : List SpaceMapEntry}

lemma Laid.vdev_iff {words size : Nat} (h : Laid b words vdevId size pos ws es)
    (hs : 0 < size) (hv : vdevId ≤ smNoVdevid) (hvw : words = 1 → vdevId = smNoVdevid) (hwords : words = 1 ∨ words = 2) :
    (∀ e ∈ es, e.smeVdev = vdevId) ↔ (vdevId = smNoVdevid → words = 1) := by
  have hno : smNoVdevid = 2 ^ 24 := rfl
  obtain ⟨e, es', rfl⟩ := exists_cons_of_ne_nil (h.ne_nil hs)
  rcases hwords with rfl | rfl
  · have hvdev := h.vdev
    rw [if_neg (by decide), ← hvw rfl] at hvdev
    exact ⟨fun _ _ => rfl, fun _ => hvdev⟩
  · have hvdev := h.vdev
    rw [if_pos rfl] at hvdev
    constructor
    · intro hall heq
      have h1 := hall e mem_cons_self
      rw [hvdev e mem_cons_self, heq, hno] at h1
      exact absurd h1 (by decide)
    · intro himp e' he'
      have hne : vdevId ≠ smNoVdevid := fun heq => absurd (himp heq) (by decide)
      rw [hvdev e' he', Nat.mod_eq_of_lt (by omega)]

variable {w : SpaceMapWrite}

lemma LaidAll.readBack (hv : VdevOk w.env.v2Active w.vdevId) {segs : List Seg} {force : Nat → Bool} {ess : List (List SpaceMapEntry)}
    (h : LaidAll sm.toSpaceMapRegion b (fun s force => entryWords sm s w.vdevId w.env.v2Active force) w.maptype w.vdevId segs force pos ws ess) :
    ∀ n, (∀ i, force i = w.env.force (n + i)) →
      (∀ s ∈ segs, s.lo < s.hi ∧ 2 ^ sm.smShift ∣ s.lo ∧ 2 ^ sm.smShift ∣ s.hi) → List.Forall₂ (ReadBack sm w) (segs.zipIdx n) ess := by
  induction h with
  | nil => exact fun _ _ _ => .nil
  | @cons s segs force pos ws ws' es ess hruns hlaid _ ih =>
    intro n hforce hin
    obtain ⟨hlt, hdlo, hdhi⟩ := hin s mem_cons_self
    have hs := units_pos (r := sm.toSpaceMapRegion) hlt hdlo hdhi
    have h0 : force 0 = w.env.force n := hforce 0
    rw [zipIdx_cons]
    refine .cons ⟨hlaid.ne_nil hs, hruns, ?_⟩ (ih (n + 1) (fun i => ?_) fun s' hs' => hin s' (mem_cons_of_mem s hs'))
    · rw [← h0]
      exact hlaid.vdev_iff hs hv.1 (entryWords_one hv) (entryWords_eq ..)
    · dsimp only
      rw [hforce, Nat.add_right_comm, Nat.add_assoc]

/-- A map that reads as the writes `ws`, `esss` by write and segment. -/
structure ReadsBack (sm0 sm : SpaceMap) (ws : List SpaceMapWrite) (esss : List (List (List SpaceMapEntry))) : Prop where
  log : sm.LogTo sm.smpObjsize esss.flatten.flatten
  alloc : sm.smpAlloc = entriesAlloc esss.flatten.flatten
  region : sm.toSpaceMapRegion = sm0.toSpaceMapRegion
  back : List.Forall₂ (fun w ess => List.Forall₂ (ReadBack sm0 w) w.rt.rtRoot.zipIdx ess) ws esss

lemma ReadBack.congr {sm sm' : SpaceMap} (hreg : sm'.toSpaceMapRegion = sm.toSpaceMapRegion) {p : Seg × Nat} (h : ReadBack sm' w p es) : ReadBack sm w p es := by
  refine ⟨h.nonempty, h.runs, ?_⟩
  rw [← entryWords_congr hreg]
  exact h.vdev

variable {sm0 : SpaceMap}

/-- **Step.** A write. -/
theorem ReadsBack.write {sm : SpaceMap} {ws : List SpaceMapWrite} {esss : List (List (List SpaceMapEntry))} (h : ReadsBack sm0 sm ws esss) (hw : Writable sm0.toSpaceMapRegion w.rt) (hv : VdevOk w.env.v2Active w.vdevId) :
    ∃ sm' ess, spaceMapWrite sm w.rt w.maptype w.vdevId w.env = .ok sm' ∧ ReadsBack sm0 sm' (ws ++ [w]) (esss ++ [ess]) := by
  have hdvd : 8 ∣ sm.smpObjsize := by
    obtain ⟨words, hlen, -⟩ := h.log
    exact ⟨words.length, hlen.symm⟩
  rw [← h.region] at hw
  obtain ⟨words, es, heq, hdec, hruns, ⟨pos, words', ess, rfl, hlaid⟩, -⟩ := spaceMapWrite_spec (t := w.maptype) hdvd hw hv
  have hback := hlaid.readBack hv 0 (fun i => by rw [Nat.zero_add]) fun s hs => ⟨w.rt.consistent.separated.pos s hs, (hw s hs).2.2⟩
  refine ⟨_, ess, heq, ?_, ?_, ?_, ?_⟩
  · rw [pushAll_smpObjsize, flatten_append, flatten_append, flatten_singleton]
    exact h.log.extend hdec _
  · rw [pushAll_smpAlloc, flatten_append, flatten_append, flatten_singleton, entriesAlloc, foldl_append, ← entriesAlloc,
      ← h.alloc, hruns.foldl_allocAfter]
  · rw [pushAll_region]
    exact h.region
  · exact rel_append h.back (.cons (hback.imp fun _ _ hb => hb.congr h.region) .nil)

/-- **Run.** A sequence of writes. -/
theorem ReadsBack.writes (ws' : List SpaceMapWrite) :
    ∀ {sm : SpaceMap} {ws : List SpaceMapWrite} {esss : List (List (List SpaceMapEntry))}, ReadsBack sm0 sm ws esss →
      (∀ w ∈ ws', Writable sm0.toSpaceMapRegion w.rt ∧ VdevOk w.env.v2Active w.vdevId) →
      ∃ sm' esss', spaceMapWrites sm ws' = .ok sm' ∧ ReadsBack sm0 sm' (ws ++ ws') esss' := by
  induction ws' with
  | nil =>
    intro sm ws esss h _
    refine ⟨sm, esss, rfl, ?_⟩
    rw [append_nil]
    exact h
  | cons w ws' ih =>
    intro sm ws esss h hok
    obtain ⟨hw, hok'⟩ := forall_mem_cons.1 hok
    obtain ⟨sm1, ess, heq, h1⟩ := h.write hw.1 hw.2
    obtain ⟨sm2, esss2, heq', h2⟩ := ih h1 hok'
    rw [append_assoc, singleton_append] at h2
    refine ⟨sm2, esss2, ?_, h2⟩
    rw [spaceMapWrites, heq]
    exact heq'

/-- **The vdev of the entries.** What is read for a segment has the vdev of the write if and only if there is one or
the entries have one word. -/
theorem vdev_id_read_back (r : SpaceMapRegion) (blksz : Nat) (hge : 16 ≤ blksz) (hdvd : 8 ∣ blksz) (ws : List SpaceMapWrite)
    (hok : ∀ w ∈ ws, Writable r w.rt ∧ VdevOk w.env.v2Active w.vdevId) :
    ∃ sm esss, spaceMapWrites (.empty r blksz hge hdvd) ws = .ok sm ∧
      List.Forall₂ (fun w ess => List.Forall₂ (fun (p : Seg × Nat) es => es ≠ [] ∧ Runs w.maptype (p.1.hi - p.1.lo) es ∧
        ((∀ e ∈ es, e.smeVdev = w.vdevId) ↔
          (w.vdevId = smNoVdevid → entryWords (.empty r blksz hge hdvd) p.1 w.vdevId w.env.v2Active (w.env.force p.2) = 1)))
        w.rt.rtRoot.zipIdx ess) ws esss ∧
      (spaceMapUpdate sm).Iterates esss.flatten.flatten ∧
      ∀ (σ : Type) (calls : List (DestroyCall σ)) (arg : σ),
        SameRun (fun sm' rest _ => Undestroyed esss.flatten.flatten sm' rest)
          (destroyCalls (fun _ => 0) calls (spaceMapUpdate sm) arg) (drains calls esss.flatten.flatten.reverse arg) := by
  have hempty : ReadsBack (.empty r blksz hge hdvd) (.empty r blksz hge hdvd) [] [] :=
    ⟨⟨[], rfl, fun j hj => absurd hj (Nat.not_lt_zero j), .nil _⟩, rfl, rfl, .nil⟩
  obtain ⟨sm, esss, heq, h⟩ := hempty.writes ws hok
  obtain ⟨⟨words, hlen, hat, hdec⟩, halloc, -, hback⟩ := h
  obtain ⟨cs, hchunked, rfl, hcs⟩ := hdec.chunked
  rw [← hcs] at halloc
  have hholds : (spaceMapUpdate sm).Holds cs := ⟨hlen, rfl, halloc, rfl, hat, hchunked⟩
  refine ⟨sm, esss, heq, ?_, ?_, fun σ calls arg => ?_⟩
  · exact hback.imp fun w ess hw => hw.imp fun p es hp => ⟨hp.nonempty, hp.runs, hp.vdev⟩
  · rw [← hcs]
    exact hholds.iterates
  · rw [← hcs]
    exact hholds.calls calls arg prefix_rfl

/-- The same sectors, of the vdev 3, in a two-word entry. -/
def vdevWrite : SpaceMapWrite := ⟨sectorWrite.rt, .alloc, 3, ⟨true, 1, 4, fun _ => false⟩⟩

theorem vdev_id_read_back_sector : (∀ w ∈ [vdevWrite], Writable sectorRegion w.rt ∧ VdevOk w.env.v2Active w.vdevId) ∧
    ∃ sm es, spaceMapWrites (.empty sectorRegion 16 (by decide) (by decide)) [vdevWrite] = .ok sm ∧
      es ≠ [] ∧ Runs .alloc 1024 es ∧ (∀ e ∈ es, e.smeVdev = 3) ∧ (spaceMapUpdate sm).Iterates es := by
  have hok : ∀ w ∈ [vdevWrite], Writable sectorRegion w.rt ∧ VdevOk w.env.v2Active w.vdevId := by
    intro w hw
    obtain rfl := List.mem_singleton.1 hw
    exact ⟨by decide, by decide⟩
  obtain ⟨sm, esss, h, hback, hit, -⟩ := vdev_id_read_back sectorRegion 16 (by decide) (by decide) _ hok
  -- one write of one segment
  cases hback with
  | cons hw htail =>
    cases htail
    cases hw with
    | cons hseg hrest =>
      cases hrest
      obtain ⟨hne, hruns, hvdev⟩ := hseg
      refine ⟨hok, sm, _, h, hne, hruns, hvdev.2 fun h3 => absurd h3 (by decide), ?_⟩
      simpa using hit

/-- A segment past the offsets of a one-word entry. -/
def highWrite : SpaceMapWrite :=
  ⟨.ofSeg ⟨2 ^ 47, 2 ^ 47 + 1⟩ (by decide), .alloc, smNoVdevid, ⟨true, 1, 4, fun _ => false⟩⟩

/-- No vdev was specified, and the entry comes back with the vdev 0. -/
theorem vdev_id_lost :
    Writable dtlRegion highWrite.rt ∧ VdevOk highWrite.env.v2Active highWrite.vdevId ∧ highWrite.vdevId = smNoVdevid ∧ (do
      let sm ← spaceMapWrites (.empty dtlRegion 4096 (by decide) (by decide)) [highWrite]
      spaceMapIterate (spaceMapUpdate sm) (fun es e => .ok (es ++ [e], 0)) (fun _ => 0) []) =
        .ok ([⟨.alloc, 0, 2 ^ 47, 1⟩], 0) :=
  ⟨by decide, by decide, rfl, by decide +kernel⟩

end Unleashed.Zfs
