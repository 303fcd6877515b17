import Unleashed.Zfs.SpaceMap.Reader

/-!
# Replaying a space map

The log of allocations and frees determines the allocated offsets. `replay` computes them, `Replayable` says that no
record allocates what is allocated or frees what is free. `space_map_load` rebuilds that set or its complement.
-/

namespace Unleashed.Zfs

open Lib Finset RangeTree Segs SpaceMapRegion

/-- One `space_map_write`, as the log remembers it. -/
abbrev LogRecord := MapType × RangeTree

/-- The allocated offsets after a log, from the allocated offsets before it. -/
def replay : List LogRecord → Finset Nat → Finset Nat
  | [], a => a
  | (.alloc, rt) :: log, a => replay log (a ∪ rt.cover)
  | (.free, rt) :: log, a => replay log (a \ rt.cover)

/-- Every record allocates free space or frees allocated space. -/
def Replayable : List LogRecord → Finset Nat → Prop
  | [], _ => True
  | (.alloc, rt) :: log, a => Disjoint a rt.cover ∧ Replayable log (a ∪ rt.cover)
  | (.free, rt) :: log, a => rt.cover ⊆ a ∧ Replayable log (a \ rt.cover)

/-- The entries `es` are the pieces of the trees of `log`. -/
def LogEntries (log : List LogRecord) (es : List SpaceMapEntry) : Prop :=
  ∃ ess : List (List SpaceMapEntry), es = ess.flatten ∧
    List.Forall₂ (fun (w : LogRecord) es => TilesAll w.1 w.2.rtRoot es) log ess

/-- The offsets of the region. -/
def SpaceMapRegion.span (r : SpaceMapRegion) : Finset Nat := Ico r.smStart (r.smStart + r.smSize)

lemma replay_append (log log' : List LogRecord) (a : Finset Nat) : replay (log ++ log') a = replay log' (replay log a) := by
  induction log generalizing a with
  | nil => rfl
  | cons w log ih => obtain ⟨t, rt⟩ := w; cases t <;> simp [replay, ih]

variable {log log' : List LogRecord}

lemma replayable_append {a : Finset Nat} :
    Replayable (log ++ log') a ↔ Replayable log a ∧ Replayable log' (replay log a) := by
  induction log generalizing a with
  | nil => simp [Replayable, replay]
  | cons w log ih => obtain ⟨t, rt⟩ := w; cases t <;> simp [Replayable, replay, ih, and_assoc]

variable {es es' : List SpaceMapEntry}

lemma LogEntries.append (h : LogEntries log es) (h' : LogEntries log' es') : LogEntries (log ++ log') (es ++ es') := by
  obtain ⟨ess, rfl, hf⟩ := h
  obtain ⟨ess', rfl, hf'⟩ := h'
  exact ⟨ess ++ ess', by simp, List.rel_append hf hf'⟩

lemma LogEntries.single {t : MapType} {rt : RangeTree} {es : List SpaceMapEntry}
    (h : TilesAll t rt.rtRoot es) : LogEntries [(t, rt)] es :=
  ⟨[es], by simp, .cons h .nil⟩

variable {r : SpaceMapRegion}

lemma replay_subset {a : Finset Nat} (ha : a ⊆ r.span) (h : ∀ w ∈ log, w.2.cover ⊆ r.span) : replay log a ⊆ r.span := by
  induction log generalizing a with
  | nil => exact ha
  | cons w log ih =>
    obtain ⟨t, rt⟩ := w
    have hrt := h (t, rt) (by simp)
    have hlog := fun w hw => h w (List.mem_cons_of_mem _ hw)
    cases t with
    | alloc => exact ih (union_subset ha hrt) hlog
    | free => exact ih (sdiff_subset.trans ha) hlog

variable {rt : RangeTree}

lemma Writable.cover_subset (h : Writable r rt) : rt.cover ⊆ r.span := by
  intro x hx
  obtain ⟨s, hs, h1, h2⟩ := mem_cover.1 hx
  obtain ⟨h3, h4, -⟩ := h s hs
  exact mem_Ico.2 (by omega)

variable {a b : Nat}

lemma Tiles.le {t : MapType} (h : Tiles t a b es) : a ≤ b := by
  induction h with
  | nil => exact le_rfl
  | cons _ _ _ _ ih => omega

section
variable (sm : SpaceMap) (maptype : MapType) {t : MapType}

/-- Loading the pieces of a range of the wanted type adds the range. -/
lemma load_tiles_add (ht : t = maptype) (h : Tiles t a b es) :
    ∀ rt : RangeTree, rt.cover ⊆ sm.span → Ico a b ⊆ sm.span → Disjoint rt.cover (Ico a b) →
      ∃ rt', foldCallback (spaceMapLoadCallback sm maptype) es rt = .ok (rt', 0) ∧ rt'.cover = rt.cover ∪ Ico a b := by
  induction h with
  | nil a => intro rt _ _ _; exact ⟨rt, rfl, by simp⟩
  | @cons a b e es htype hoff hrun hrest ih =>
    intro rt hrt hab hd
    have hle := hrest.le
    have hsub : Ico a (a + e.smeRun) ⊆ Ico a b := Ico_subset_Ico_right hle
    obtain ⟨rt1, hadd, hcov⟩ := rangeTreeAdd_of_disjoint rt a (by omega) (disjoint_of_subset_right hsub hd)
    have hcov' : rt1.cover ⊆ sm.span := hcov ▸ union_subset hrt (hsub.trans hab)
    have hspace : rangeTreeSpace rt + e.smeRun ≤ sm.smSize := by
      have h1 := card_le_card hcov'
      rw [hcov, card_union_of_disjoint (disjoint_of_subset_right hsub hd), Nat.card_Ico,
        ← space_eq_card, span, Nat.card_Ico] at h1
      unfold rangeTreeSpace
      omega
    obtain ⟨rt', hfold, hcov''⟩ := ih rt1 hcov' ((Ico_subset_Ico_left (by omega)).trans hab) (by
        rw [hcov, disjoint_union_left]
        exact ⟨disjoint_of_subset_right (Ico_subset_Ico_left (by omega)) hd, Ico_disjoint_Ico_consecutive _ _ _⟩)
    refine ⟨rt', ?_, ?_⟩
    · rw [foldCallback, spaceMapLoadCallback, if_pos (htype.trans ht), VERIFY_bind hspace, hoff, hadd]
      exact hfold
    · rw [hcov'', hcov, union_assoc, Ico_union_Ico_eq_Ico (by omega) hle]

/-- Loading the pieces of a range of the other type removes the range. -/
lemma load_tiles_remove (ht : t ≠ maptype) (h : Tiles t a b es) : ∀ rt : RangeTree, Ico a b ⊆ rt.cover →
      ∃ rt', foldCallback (spaceMapLoadCallback sm maptype) es rt = .ok (rt', 0) ∧ rt'.cover = rt.cover \ Ico a b := by
  induction h with
  | nil a => intro rt _; exact ⟨rt, rfl, by simp⟩
  | @cons a b e es htype hoff hrun hrest ih =>
    intro rt hab
    have hle := hrest.le
    obtain ⟨rt1, hrem, hcov⟩ := rangeTreeRemove_of_subset rt a (by omega : e.smeRun ≠ 0) ((Ico_subset_Ico_right hle).trans hab)
    obtain ⟨rt', hfold, hcov'⟩ := ih rt1 (by
      rw [hcov]
      intro x hx
      have := mem_Ico.1 hx
      exact mem_sdiff.2 ⟨hab (mem_Ico.2 (by omega)), by simp; omega⟩)
    refine ⟨rt', ?_, ?_⟩
    · rw [foldCallback, spaceMapLoadCallback, if_neg (by rw [htype]; exact ht), hoff, hrem]
      exact hfold
    · rw [hcov', hcov, sdiff_sdiff_left, sup_eq_union, Ico_union_Ico_eq_Ico (by omega) hle]

lemma foldCallback_ok_append {σ : Type} {callback : σ → SpaceMapEntry → Except Fault (σ × Nat)} {x y : σ} (h : foldCallback callback es x = .ok (y, 0)) :
    foldCallback callback (es ++ es') x = foldCallback callback es' y := by
  rw [foldCallback_append, h]
  rfl

variable {segs : List Seg}

lemma tilesAll_cons {s : Seg} (h : TilesAll t (s :: segs) es) :
    ∃ es1 es2, es = es1 ++ es2 ∧ Tiles t s.lo s.hi es1 ∧ TilesAll t segs es2 := by
  obtain ⟨ess, rfl, hf⟩ := h
  cases hf with
  | @cons _ e _ ess h1 h2 => exact ⟨e, ess.flatten, rfl, h1, ess, rfl, h2⟩

lemma load_segs_add (ht : t = maptype) (hsep : Separated segs) :
    ∀ {es : List SpaceMapEntry} (rt : RangeTree), TilesAll t segs es → rt.cover ⊆ sm.span →
      cover segs ⊆ sm.span → Disjoint rt.cover (cover segs) →
      ∃ rt', foldCallback (spaceMapLoadCallback sm maptype) es rt = .ok (rt', 0) ∧ rt'.cover = rt.cover ∪ cover segs := by
  induction segs with
  | nil =>
    rintro es rt ⟨ess, rfl, hf⟩ _ _ _
    cases hf
    exact ⟨rt, rfl, by simp⟩
  | cons s segs ih =>
    intro es rt htile hrt hsub hd
    obtain ⟨es1, es2, rfl, h1, h2⟩ := tilesAll_cons htile
    obtain ⟨-, hgap, hsegs⟩ := separated_cons.1 hsep
    rw [cover_cons] at hsub hd
    obtain ⟨hsub1, hsub2⟩ := union_subset_iff.1 hsub
    obtain ⟨hd1, hd2⟩ := disjoint_union_right.1 hd
    obtain ⟨rt1, hf1, hc1⟩ := load_tiles_add sm maptype ht h1 rt hrt hsub1 hd1
    obtain ⟨rt2, hf2, hc2⟩ := ih hsegs rt1 h2 (hc1 ▸ union_subset hrt hsub1) hsub2 (by
      rw [hc1, disjoint_union_left]
      refine ⟨hd2, disjoint_left.2 fun x hx hx' => ?_⟩
      have := cover_head_lt hgap hx'
      have := mem_Ico.1 hx
      omega)
    exact ⟨rt2, (foldCallback_ok_append hf1).trans hf2, by
      rw [hc2, hc1, cover_cons, union_assoc]⟩

lemma load_segs_remove (ht : t ≠ maptype) (hsep : Separated segs) :
    ∀ {es : List SpaceMapEntry} (rt : RangeTree), TilesAll t segs es → cover segs ⊆ rt.cover →
      ∃ rt', foldCallback (spaceMapLoadCallback sm maptype) es rt = .ok (rt', 0) ∧ rt'.cover = rt.cover \ cover segs := by
  induction segs with
  | nil =>
    rintro es rt ⟨ess, rfl, hf⟩ _
    cases hf
    exact ⟨rt, rfl, by simp⟩
  | cons s segs ih =>
    intro es rt htile hsub
    obtain ⟨es1, es2, rfl, h1, h2⟩ := tilesAll_cons htile
    obtain ⟨-, hgap, hsegs⟩ := separated_cons.1 hsep
    rw [cover_cons] at hsub
    obtain ⟨hsub1, hsub2⟩ := union_subset_iff.1 hsub
    obtain ⟨rt1, hf1, hc1⟩ := load_tiles_remove sm maptype ht h1 rt hsub1
    obtain ⟨rt2, hf2, hc2⟩ := ih hsegs rt1 h2 (by
      rw [hc1]
      intro x hx
      have := cover_head_lt hgap hx
      exact mem_sdiff.2 ⟨hsub2 hx, by simp; omega⟩)
    exact ⟨rt2, (foldCallback_ok_append hf1).trans hf2, by
      rw [hc2, hc1, cover_cons, sdiff_sdiff_left, sup_eq_union]⟩

/-- What loading with `maptype` collects when the offsets `a` are allocated. -/
def loadedSet (r : SpaceMapRegion) (maptype : MapType) (a : Finset Nat) : Finset Nat :=
  match maptype with
  | .alloc => a
  | .free => r.span \ a

/-- Loading a replayable log carries the set before it to the set after it. -/
lemma load_log : ∀ {es : List SpaceMapEntry} {a : Finset Nat} (rt : RangeTree), LogEntries log es →
      (∀ w ∈ log, w.2.cover ⊆ sm.span) → a ⊆ sm.span → Replayable log a →
      rt.cover = loadedSet sm.toSpaceMapRegion maptype a →
      ∃ rt', foldCallback (spaceMapLoadCallback sm maptype) es rt = .ok (rt', 0) ∧
        rt'.cover = loadedSet sm.toSpaceMapRegion maptype (replay log a) := by
  induction log with
  | nil =>
    rintro es a rt ⟨ess, rfl, hf⟩ _ _ _ hrt
    cases hf
    exact ⟨rt, rfl, hrt⟩
  | cons w log ih =>
    rintro es a rt ⟨ess, rfl, hf⟩ hin ha hrep hrt
    obtain ⟨t, tree⟩ := w
    cases hf with
    | @cons _ es1 _ ess h1 h2 =>
      have htree : tree.cover ⊆ sm.span := hin (t, tree) (by simp)
      have hsep := tree.consistent.separated
      have hlog := fun w hw => hin w (List.mem_cons_of_mem _ hw)
      -- the record adds to or removes from the loaded set, as its type is the wanted one
      have step : ∃ rt1, foldCallback (spaceMapLoadCallback sm maptype) es1 rt = .ok (rt1, 0) ∧
          rt1.cover = loadedSet sm.toSpaceMapRegion maptype (replay [(t, tree)] a) := by
        have hcover : cover tree.rtRoot = tree.cover := rfl
        cases t <;> cases maptype <;> simp only [loadedSet, replay, Replayable] at hrep hrt ⊢
        · obtain ⟨rt1, h, hc⟩ := load_segs_add sm .alloc rfl hsep rt h1 (hrt ▸ ha) htree (by rw [hrt]; exact hrep.1)
          exact ⟨rt1, h, by rw [hc, hrt, hcover]⟩
        · obtain ⟨rt1, h, hc⟩ := load_segs_remove sm .free (by simp) hsep rt h1 (by
              rw [hrt, hcover]
              exact subset_sdiff.2 ⟨htree, hrep.1.symm⟩)
          exact ⟨rt1, h, by rw [hc, hrt, hcover, sdiff_sdiff_left, sup_eq_union]⟩
        · obtain ⟨rt1, h, hc⟩ := load_segs_remove sm .alloc (by simp) hsep rt h1 (by rw [hrt]; exact hrep.1)
          exact ⟨rt1, h, by rw [hc, hrt, hcover]⟩
        · obtain ⟨rt1, h, hc⟩ := load_segs_add sm .free rfl hsep rt h1 (hrt ▸ sdiff_subset) htree
            (by rw [hrt]; exact disjoint_of_subset_right hrep.1 sdiff_disjoint)
          refine ⟨rt1, h, ?_⟩
          rw [hc, hrt, hcover]
          ext x
          have := @htree x
          simp only [mem_union, mem_sdiff]
          tauto
      obtain ⟨rt1, hf1, hc1⟩ := step
      have hrep' : Replayable log (replay [(t, tree)] a) := by cases t <;> exact hrep.2
      have ha' : replay [(t, tree)] a ⊆ sm.span := replay_subset ha (by simpa using htree)
      obtain ⟨rt2, hf2, hc2⟩ := ih rt1 ⟨ess, rfl, h2⟩ hlog ha' hrep' hc1
      refine ⟨rt2, (foldCallback_ok_append hf1).trans hf2, ?_⟩
      rw [hc2]
      cases t <;> rfl

end

lemma allocAfter_replay {t : MapType} {a : Finset Nat} (h : Replayable [(t, rt)] a) :
    allocAfter (BitVec.ofNat 64 a.card) t rt.rtSpace = BitVec.ofNat 64 (replay [(t, rt)] a).card := by
  rw [space_eq_card]
  cases t with
  | alloc => simp only [allocAfter, replay, card_union_of_disjoint h.1, BitVec.ofNat_add]
  | free =>
    have hle := card_le_card h.1
    simp only [allocAfter, replay, card_sdiff_of_subset h.1]
    rw [sub_eq_iff_eq_add, ← BitVec.ofNat_add, Nat.sub_add_cancel hle]

/-- **`space_map_load`** of a replayable log returns the replayed set or its complement. -/
theorem spaceMapLoad_spec (sm : SpaceMap) (maptype : MapType) (hold : Nat → Nat) (hhold : ∀ base, hold base = 0)
    (hlog : sm.LogTo sm.smLength es) (hes : LogEntries log es) (hin : ∀ w ∈ log, w.2.cover ⊆ sm.span)
    (hrep : Replayable log ∅) (halloc : sm.smAlloc = BitVec.ofNat 64 (replay log ∅).card) :
    ∃ rt, spaceMapLoad sm .create maptype hold = .ok (rt, 0) ∧
      rt.cover = loadedSet sm.toSpaceMapRegion maptype (replay log ∅) := by
  have hsub : replay log ∅ ⊆ sm.span := replay_subset (empty_subset _) hin
  have hspan : sm.span.card = sm.smSize := by simp [span]
  unfold spaceMapLoad
  rw [VERIFY_bind (show rangeTreeSpace .create = 0 from rfl)]
  cases maptype with
  | alloc =>
    obtain ⟨rt, hf, hc⟩ := load_log sm .alloc .create hes hin (empty_subset _) hrep rfl
    refine ⟨rt, ?_, hc⟩
    simp only [ok_bind]
    rw [spaceMapIterate_eq _ hhold hlog, hf]
    simp only [ok_bind, if_true]
    rw [VERIFY_bind]
    rw [halloc, rangeTreeSpace, space_eq_card, hc]
    rfl
  | free =>
    obtain ⟨rt0, hadd, hc0⟩ := rangeTreeAdd_of_disjoint .create sm.smStart (by have := sm.pos; omega : sm.smSize ≠ 0) (by simp)
    obtain ⟨rt, hf, hc⟩ := load_log sm .free rt0 hes hin (empty_subset _) hrep (by simpa [loadedSet, span] using hc0)
    refine ⟨rt, ?_, hc⟩
    simp only [hadd, ok_bind]
    rw [spaceMapIterate_eq _ hhold hlog, hf]
    simp only [ok_bind, if_true]
    rw [VERIFY_bind]
    have hle := card_le_card hsub
    rw [halloc, rangeTreeSpace, space_eq_card, hc, loadedSet, card_sdiff_of_subset hsub,
      ← hspan, eq_sub_iff_add_eq, ← BitVec.ofNat_add, Nat.sub_add_cancel hle]

end Unleashed.Zfs
