import Unleashed.Zfs.SpaceMap.Basic

/-!
# What a space map object says

Writing appends words and never touches those already there (`SpaceMap.pushAll`). `Decodes` relates words to the
entries they stand for; the writer establishes it and the reader needs it.
-/

namespace Unleashed.Zfs

open Lib Function List MapType Nat SpaceMap

/-- Append one word. -/
def SpaceMap.push (sm : SpaceMap) (w : Nat) : SpaceMap :=
  (sm.setWord (sm.smpObjsize / 8) w).grow 8

/-- Append words. -/
def SpaceMap.pushAll (sm : SpaceMap) (ws : List Nat) : SpaceMap := ws.foldl push sm

/-- The words `ws` stand in the object from index `i` on. -/
def WordsAt (words : Nat → Nat) (i : Nat) (ws : List Nat) : Prop :=
  ∀ j (h : j < ws.length), words (i + j) = ws[j]

/-- The words `ws` at `pos`, with `b` words a block, read as `es`; no entry straddles a block. -/
inductive Decodes (r : SpaceMapRegion) (b : Nat) : Nat → List Nat → List SpaceMapEntry → Prop where
  | nil (pos : Nat) : Decodes r b pos [] []
  | debug {pos w ws es} (hw : smEntryIsDebug w = true) (rest : Decodes r b (pos + 1) ws es) : Decodes r b pos (w :: ws) es
  | single {pos w ws e es} (hd : smEntryIsDebug w = false) (hw : smEntryIsSingleWord w = true)
      (he : decodedEntry r (.ofValue (smTypeDecode w)) smNoVdevid (smOffsetDecode w) (smRunDecode w) = .ok e)
      (rest : Decodes r b (pos + 1) ws es) : Decodes r b pos (w :: ws) (e :: es)
  | double {pos w w' ws e es} (hd : smEntryIsDebug w = false) (hs : smEntryIsSingleWord w = false)
      (hw : smEntryIsDoubleWord w = true) (hb : (pos + 1) % b ≠ 0)
      (he : decodedEntry r (.ofValue (sm2TypeDecode w')) (sm2VdevDecode w) (sm2OffsetDecode w') (sm2RunDecode w) = .ok e)
      (rest : Decodes r b (pos + 2) ws es) : Decodes r b pos (w :: w' :: ws) (e :: es)

/-- The entries `es` of type `t` cut `[a, b)` into consecutive pieces. -/
inductive Tiles (t : MapType) : Nat → Nat → List SpaceMapEntry → Prop where
  | nil (a : Nat) : Tiles t a a []
  | cons {a b e es} (htype : e.smeType = t) (hoff : e.smeOffset = a) (hrun : 0 < e.smeRun)
      (rest : Tiles t (a + e.smeRun) b es) : Tiles t a b (e :: es)

/-- The entries `es` are of type `t` and their runs add up to `n`. -/
def Runs (t : MapType) (n : Nat) (es : List SpaceMapEntry) : Prop :=
  (∀ e ∈ es, e.smeType = t) ∧ (es.map SpaceMapEntry.smeRun).sum = n

variable {n : Nat} {t : MapType}

lemma Runs.nil (h : n = 0) : Runs t n [] :=
  ⟨fun _ he => absurd he not_mem_nil, h.symm⟩

variable {es : List SpaceMapEntry}

lemma Runs.cons {m n : Nat} {e : SpaceMapEntry} (h : Runs t m es)
    (ht : e.smeType = t) (hn : e.smeRun + m = n) : Runs t n (e :: es) :=
  ⟨forall_mem_cons.2 ⟨ht, h.1⟩, by rw [map_cons, sum_cons, h.2, hn]⟩

variable {es' : List SpaceMapEntry}

lemma Runs.append {m : Nat} (h : Runs t m es) (h' : Runs t n es') : Runs t (m + n) (es ++ es') :=
  ⟨forall_mem_append.2 ⟨h.1, h'.1⟩, by rw [map_append, sum_append_nat, h.2, h'.2]⟩

section
variable (sm : SpaceMap) (w : Nat) (ws : List Nat)

@[simp] lemma push_region : (sm.push w).toSpaceMapRegion = sm.toSpaceMapRegion := rfl
@[simp] lemma push_smLength : (sm.push w).smLength = sm.smLength := rfl
@[simp] lemma push_smAlloc : (sm.push w).smAlloc = sm.smAlloc := rfl
@[simp] lemma push_smBlksz : (sm.push w).smBlksz = sm.smBlksz := rfl
@[simp] lemma push_smpAlloc : (sm.push w).smpAlloc = sm.smpAlloc := rfl
@[simp] lemma push_smpObjsize : (sm.push w).smpObjsize = sm.smpObjsize + 8 := rfl
@[simp] lemma pushAll_nil : sm.pushAll [] = sm := rfl
@[simp] lemma pushAll_cons : sm.pushAll (w :: ws) = (sm.push w).pushAll ws := rfl

lemma pushAll_append (ws' : List Nat) : sm.pushAll (ws ++ ws') = (sm.pushAll ws).pushAll ws' :=
  foldl_append

@[simp] lemma pushAll_region : (sm.pushAll ws).toSpaceMapRegion = sm.toSpaceMapRegion := by
  induction ws generalizing sm with
  | nil => rfl
  | cons w ws ih => simp [ih]

@[simp] lemma pushAll_smLength : (sm.pushAll ws).smLength = sm.smLength := by
  induction ws generalizing sm with
  | nil => rfl
  | cons w ws ih => simp [ih]

@[simp] lemma pushAll_smAlloc : (sm.pushAll ws).smAlloc = sm.smAlloc := by
  induction ws generalizing sm with
  | nil => rfl
  | cons w ws ih => simp [ih]

@[simp] lemma pushAll_smBlksz : (sm.pushAll ws).smBlksz = sm.smBlksz := by
  induction ws generalizing sm with
  | nil => rfl
  | cons w ws ih => simp [ih]

@[simp] lemma pushAll_smpAlloc : (sm.pushAll ws).smpAlloc = sm.smpAlloc := by
  induction ws generalizing sm with
  | nil => rfl
  | cons w ws ih => simp [ih]

@[simp] lemma pushAll_smpObjsize : (sm.pushAll ws).smpObjsize = sm.smpObjsize + 8 * ws.length := by
  induction ws generalizing sm with
  | nil => simp
  | cons w ws ih => simp [ih]; omega

/-- Appending leaves the words below `smp_objsize` alone. -/
lemma pushAll_words_lt {i : Nat} (hi : i < sm.smpObjsize / 8) : (sm.pushAll ws).words i = sm.words i := by
  induction ws generalizing sm with
  | nil => rfl
  | cons w ws ih =>
    rw [pushAll_cons, ih _ (by rw [push_smpObjsize]; omega)]
    exact update_of_ne (by omega) _ _

/-- Appended words stand at the old end of the object. -/
lemma wordsAt_pushAll : WordsAt (sm.pushAll ws).words (sm.smpObjsize / 8) ws := by
  induction ws generalizing sm with
  | nil => intro j h; simp at h
  | cons w ws ih =>
    intro j h
    cases j with
    | zero =>
      rw [pushAll_cons, pushAll_words_lt _ _ (by rw [push_smpObjsize]; omega)]
      exact update_self _ _ _
    | succ j =>
      have := ih (sm.push w) j (by simpa using h)
      rw [push_smpObjsize, show (sm.smpObjsize + 8) / 8 + j = sm.smpObjsize / 8 + (j + 1) by omega] at this
      simpa using this

end

variable {r : SpaceMapRegion}

/-- Two stretches of words, the second where the first ends, read as their entries one after the other. -/
lemma Decodes.append {b pos : Nat} {ws ws' : List Nat} (h : Decodes r b pos ws es)
    (h' : Decodes r b (pos + ws.length) ws' es') : Decodes r b pos (ws ++ ws') (es ++ es') := by
  induction h with
  | nil => exact h'
  | debug hw _ ih => exact .debug hw (ih (by simpa [add_assoc, add_comm 1] using h'))
  | single hd hw he _ ih => exact .single hd hw he (ih (by simpa [add_assoc, add_comm 1] using h'))
  | double hd hs hw hb he _ ih =>
    exact .double hd hs hw hb he (ih (by simpa [add_assoc, add_comm 2] using h'))

variable {o : Nat}

/-- An entry inside the region passes every check of the reader. -/
lemma decodedEntry_of_fits {vdevId : Nat} (hn : 0 < n)
    (h : (o + n) * 2 ^ r.smShift ≤ r.smSize) : decodedEntry r t vdevId o n =
      .ok ⟨t, vdevId, o * 2 ^ r.smShift + r.smStart, n * 2 ^ r.smShift⟩ := by
  have hb := r.bound
  have hpos : 0 < n * 2 ^ r.smShift := by positivity
  rw [add_mul] at h
  have ho : (o <<< r.smShift + r.smStart) % 2 ^ 64 = o * 2 ^ r.smShift + r.smStart := by
    rw [shiftLeft_eq]; exact mod_eq_of_lt (by omega)
  have hr : (n <<< r.smShift) % 2 ^ 64 = n * 2 ^ r.smShift := by
    rw [shiftLeft_eq]; exact mod_eq_of_lt (by omega)
  unfold decodedEntry
  simp only [ho, hr, BitField.phase_eq]
  rw [VERIFY_bind, VERIFY_bind, ASSERT_bind, ASSERT_bind, ASSERT_bind, ASSERT_bind]
  · omega
  · omega
  · omega
  · omega
  · exact mul_mod_left _ _
  · exact mod_eq_zero_of_dvd ((dvd_mul_left _ _).add r.aligned)

variable {size : Nat}

lemma fit_of_le {o' n' k : Nat} (h : (o + n) * k ≤ size) (ho : o' ≤ o) (hn : n' ≤ n) : (o' + n') * k ≤ size :=
  (Nat.mul_le_mul_right k (Nat.add_le_add ho hn)).trans h

section
variable {r : SpaceMapRegion} {b pos start run : Nat} {t : MapType} {ws : List Nat}
  {es : List SpaceMapEntry}

/-- A one-word entry reads back. -/
lemma Decodes.one (h0 : 0 < run) (hmax : run ≤ smRunMax)
    (hfit : (start + run) * 2 ^ r.smShift ≤ r.smSize) (rest : Decodes r b (pos + 1) ws es) :
    Decodes r b pos (entryWord start t run :: ws)
      (⟨t, smNoVdevid, start % 2 ^ 47 * 2 ^ r.smShift + r.smStart, run * 2 ^ r.smShift⟩ :: es) := by
  refine .single (by simp) (by simp) ?_ rest
  rw [smTypeDecode_entryWord, smOffsetDecode_entryWord, smRunDecode_entryWord h0 hmax,
    ofValue_value, decodedEntry_of_fits h0 (fit_of_le hfit (mod_le _ _) le_rfl)]

/-- A two-word entry reads back, where it does not straddle a block. -/
lemma Decodes.two {vdevId : Nat} (h0 : 0 < run) (hmax : run ≤ sm2RunMax)
    (hfit : (start + run) * 2 ^ r.smShift ≤ r.smSize) (hb : (pos + 1) % b ≠ 0) (rest : Decodes r b (pos + 2) ws es) :
    Decodes r b pos (entryWordOne run vdevId :: entryWordTwo t start :: ws)
      (⟨t, sm2VdevDecode (entryWordOne run vdevId), start % 2 ^ 63 * 2 ^ r.smShift + r.smStart,
        run * 2 ^ r.smShift⟩ :: es) := by
  refine .double (by simp) (by simp) (by simp) hb ?_ rest
  rw [sm2TypeDecode_entryWordTwo, sm2OffsetDecode_entryWordTwo, sm2RunDecode_entryWordOne h0 hmax,
    ofValue_value, decodedEntry_of_fits h0 (fit_of_le hfit (mod_le _ _) le_rfl)]

end

/-! ## The writer -/

/-- The writer's cursor: the held block starts at a boundary, and `block_cursor` is at the end of the object. -/
structure Held (sm : SpaceMap) (db cursor : Nat) : Prop where
  block : sm.smBlksz ∣ db
  objsize : db + 8 * cursor = sm.smpObjsize
  le : cursor ≤ sm.blockWords

/-- The offsets of a segment fit: 63 bits for two words, 47 for one, where a single entry has to start below. -/
def Fits (words start size : Nat) : Prop :=
  words = 2 ∧ start + size ≤ 2 ^ 63 ∨ words = 1 ∧ (size = 0 ∨ start + size ≤ 2 ^ 47 ∨ start < 2 ^ 47 ∧ size ≤ smRunMax)

/-- Where the object ends after an entry of `words` words: a pad comes before one of two words
that would straddle a block of `b` words. -/
def place (b words pos : Nat) : Nat := if words = 2 ∧ (pos + 1) % b = 0 then pos + 3 else pos + words

/-- The entries of a segment: how many, with which vdev, and the words they take at `pos`. -/
structure Laid (b words vdevId size pos : Nat) (ws : List Nat) (es : List SpaceMapEntry) : Prop where
  count : es.length = (size + (if words = 2 then sm2RunMax else smRunMax) - 1) / (if words = 2 then sm2RunMax else smRunMax)
  vdev : ∀ e ∈ es, e.smeVdev = if words = 2 then vdevId % 2 ^ 24 else smNoVdevid
  length : pos + ws.length = (place b words)^[es.length] pos

lemma runMax_pos (words : Nat) : 0 < if words = 2 then sm2RunMax else smRunMax := by
  rw [sm2RunMax_eq, smRunMax_eq]
  split <;> omega

lemma Laid.nil (b words vdevId pos : Nat) : Laid b words vdevId 0 pos [] [] := by
  refine ⟨?_, fun _ he => absurd he not_mem_nil, rfl⟩
  rw [length_nil, zero_add, eq_comm]
  exact div_eq_of_lt (sub_lt (runMax_pos words) one_pos)

variable {words : Nat}

lemma Laid.ne_nil {b vdevId pos : Nat} {ws : List Nat} (h : Laid b words vdevId size pos ws es)
    (hs : 0 < size) : es ≠ [] := by
  rintro rfl
  have hc := h.count
  have hpos := runMax_pos words
  rw [length_nil, eq_comm, Nat.div_eq_zero_iff] at hc
  omega

/-- A pad word fills the block before an entry of two words. -/
lemma Laid.pad {b vdevId pos w : Nat} {ws : List Nat} (hb : 2 ≤ b) (hs : 0 < size)
    (hpos : (pos + 1) % b = 0) (h : Laid b 2 vdevId size (pos + 1) ws es) : Laid b 2 vdevId size pos (w :: ws) es := by
  refine ⟨h.count, h.vdev, ?_⟩
  have hnext : place b 2 (pos + 1) = place b 2 pos := by
    have hne : (pos + 1 + 1) % b ≠ 0 := by
      rw [add_mod, hpos, zero_add, mod_mod, mod_eq_of_lt (show 1 < b by omega)]
      omega
    unfold place
    rw [if_neg fun hc => hne hc.2, if_pos ⟨rfl, hpos⟩]
  have hlen := h.length
  obtain ⟨e, es', rfl⟩ := exists_cons_of_ne_nil (h.ne_nil hs)
  rw [length_cons, iterate_succ_apply, hnext, ← iterate_succ_apply] at hlen
  rw [length_cons, length_cons, ← hlen]
  omega

/-- One more entry in front, of the longest run that an entry takes. -/
lemma Laid.cons {b words vdevId size pos run : Nat} {ws ws' : List Nat} {e : SpaceMapEntry}
    (hrun : run = min size (if words = 2 then sm2RunMax else smRunMax)) (hs : 0 < size) (hpos : words = 2 → (pos + 1) % b ≠ 0)
    (hlen : ws'.length = words) (he : e.smeVdev = if words = 2 then vdevId % 2 ^ 24 else smNoVdevid)
    (h : Laid b words vdevId (size - run) (pos + words) ws es) : Laid b words vdevId size pos (ws' ++ ws) (e :: es) := by
  refine ⟨?_, ?_, ?_⟩
  · rw [length_cons, h.count, hrun]
    have hn := runMax_pos words
    generalize (if words = 2 then sm2RunMax else smRunMax) = n at *
    rcases Nat.le_total size n with hle | hle
    · rw [Nat.min_eq_left hle, Nat.sub_self, Nat.zero_add, Nat.div_eq_of_lt (Nat.sub_lt hn Nat.one_pos), eq_comm]
      exact Nat.div_eq_of_lt_le (by omega) (by omega)
    · rw [Nat.min_eq_right hle, show size + n - 1 = size - n + n - 1 + n by omega, Nat.add_div_right _ hn]
  · intro e' he'
    rcases mem_cons.1 he' with rfl | he'
    · exact he
    · exact h.vdev e' he'
  · have hplace : place b words pos = pos + words := if_neg fun hc => hpos hc.1 hc.2
    rw [length_cons, iterate_succ_apply, hplace, ← h.length, length_append, hlen]
    omega

lemma blockWords_mul (sm : SpaceMap) : 8 * sm.blockWords = sm.smBlksz :=
  Nat.mul_div_cancel' sm.blksz_dvd

lemma two_le_blockWords (sm : SpaceMap) : 2 ≤ sm.blockWords := by
  have := blockWords_mul sm
  have := sm.blksz_ge
  omega

section
variable {sm : SpaceMap} {db cursor : Nat}

lemma Held.index (h : Held sm db cursor) : db / 8 + cursor = sm.smpObjsize / 8 := by
  have := h.objsize
  have : 8 ∣ db := sm.blksz_dvd.trans h.block
  omega

lemma Held.mod (h : Held sm db cursor) (hlt : cursor < sm.blockWords) : sm.smpObjsize / 8 % sm.blockWords = cursor := by
  obtain ⟨k, hk⟩ := h.block
  have hw := blockWords_mul sm
  have : sm.smpObjsize / 8 = cursor + sm.blockWords * k := by
    rw [← h.index, hk, ← hw, Nat.mul_assoc, Nat.mul_div_cancel_left _ (by norm_num)]
    omega
  rw [this, Nat.add_mul_mod_self_left, Nat.mod_eq_of_lt hlt]

/-- The cursor moves on with each word written. -/
lemma Held.push (h : Held sm db cursor) (hlt : cursor < sm.blockWords) (w : Nat) : Held (sm.push w) db (cursor + 1) := by
  refine ⟨h.block, ?_, hlt⟩
  have := h.objsize
  rw [push_smpObjsize]
  omega

/-- Holding the next block when the current one is full. -/
lemma Held.next (h : Held sm db cursor) :
    ∃ db' cursor', (if cursor = sm.blockWords then (sm.dbOffset sm.smpObjsize, 0) else (db, cursor))
      = (db', cursor') ∧ Held sm db' cursor' ∧ cursor' < sm.blockWords ∧
      (cursor' + 1 = sm.blockWords → cursor ≠ sm.blockWords) := by
  have hw := blockWords_mul sm
  have h2 := two_le_blockWords sm
  by_cases hc : cursor = sm.blockWords
  · refine ⟨_, _, if_pos hc, ⟨?_, ?_, by omega⟩, by omega, by omega⟩
    · exact Nat.dvd_mul_left _ _
    · have hd : sm.smBlksz ∣ sm.smpObjsize := by
        rw [← h.objsize, hc, hw]; exact h.block.add (Nat.dvd_refl _)
      rw [SpaceMap.dbOffset, Nat.div_mul_cancel hd, Nat.mul_zero, Nat.add_zero]
  · exact ⟨_, _, if_neg hc, h, lt_of_le_of_ne h.le hc, fun _ => hc⟩

lemma Held.setWord_grow (h : Held sm db cursor) (w : Nat) : (sm.setWord (db / 8 + cursor) w).grow 8 = sm.push w := by
  rw [h.index, SpaceMap.push]

lemma Held.setWord_two (h : Held sm db cursor) (w w' : Nat) :
    ((sm.setWord (db / 8 + cursor) w).setWord (db / 8 + (cursor + 1)) w').grow 16 = (sm.push w).push w' := by
  have h1 : db / 8 + (cursor + 1) = (sm.push w).smpObjsize / 8 := by
    have := h.index
    rw [push_smpObjsize]
    omega
  rw [h1, h.index]
  rfl

/-- **The loop of `space_map_write_seg`** appends words that read as entries for what is left of the segment, by
induction on the rounds: a full block saves one, and a pad fills its block. -/
theorem spaceMapWriteSegLoop_spec (maptype : MapType) (vdevId fuel : Nat) :
    ∀ (sm : SpaceMap) (db cursor start size : Nat), Held sm db cursor →
      2 * size ≤ fuel + (if cursor = sm.blockWords then 1 else 0) →
      (start + size) * 2 ^ sm.smShift ≤ sm.smSize → (words = 1 ∨ words = 2) →
      ∃ ws es db' cursor', spaceMapWriteSegLoop maptype vdevId words fuel sm db cursor start size =
          .ok (sm.pushAll ws, db') ∧ Held (sm.pushAll ws) db' cursor' ∧
        Decodes sm.toSpaceMapRegion sm.blockWords (sm.smpObjsize / 8) ws es ∧
        Runs maptype (size * 2 ^ sm.smShift) es ∧
        Laid sm.blockWords words vdevId size (sm.smpObjsize / 8) ws es ∧
        (Fits words start size → Tiles maptype (start * 2 ^ sm.smShift + sm.smStart)
          ((start + size) * 2 ^ sm.smShift + sm.smStart) es) := by
  induction fuel with
  | zero =>
    intro sm db cursor start size held hfuel _ _
    have hsize : size = 0 := by split at hfuel <;> omega
    subst hsize
    exact ⟨[], [], db, cursor, by simp [spaceMapWriteSegLoop], held, .nil _, .nil (Nat.zero_mul _), .nil .., fun _ => .nil _⟩
  | succ fuel ih =>
    intro sm db cursor start size held hfuel hbound hwords
    by_cases hsize : size = 0
    · subst hsize
      exact ⟨[], [], db, cursor, by simp [spaceMapWriteSegLoop], held, .nil _, .nil (Nat.zero_mul _), .nil .., fun _ => .nil _⟩
    obtain ⟨db, cursor', hnext, held', hlt, hpad⟩ := held.next
    have hmod := held'.mod hlt
    unfold spaceMapWriteSegLoop
    rw [if_neg hsize, ASSERT_bind held.le, hnext]
    by_cases hp : cursor' + 1 = sm.blockWords ∧ words > 1
    · -- the pad
      obtain rfl : words = 2 := by omega
      obtain ⟨ws, es, db', c', heq, hheld, hdec, hruns, hlaid, htile⟩ :=
        ih (sm.push (debugWord 0 0 0)) db (cursor' + 1) start size (held'.push hlt _) (by
            have := hpad hp.1
            have he : cursor' + 1 = (sm.push (debugWord 0 0 0)).blockWords := hp.1
            rw [if_pos he]
            rw [if_neg this] at hfuel
            omega) hbound hwords
      rw [push_smpObjsize, show (sm.smpObjsize + 8) / 8 = sm.smpObjsize / 8 + 1 by omega] at hdec hlaid
      refine ⟨debugWord 0 0 0 :: ws, es, db', c', ?_, hheld, .debug (by simp) hdec, hruns,
        hlaid.pad (two_le_blockWords sm) (Nat.pos_of_ne_zero hsize) ?_, htile⟩
      · dsimp only
        rw [if_pos hp, held'.setWord_grow]
        exact heq
      · rw [Nat.add_mod, hmod, Nat.add_mod_mod, hp.1, Nat.mod_self]
    · -- an entry of `run` units, after which at least one unit less is left
      have step : ∀ (sm' : SpaceMap) (c run : Nat), Held sm' db c → 0 < run → run ≤ size →
          sm'.toSpaceMapRegion = sm.toSpaceMapRegion → sm'.smBlksz = sm.smBlksz → ∃ ws es db' cursor',
            spaceMapWriteSegLoop maptype vdevId words fuel sm' db c (start + run) (size - run) =
              .ok (sm'.pushAll ws, db') ∧ Held (sm'.pushAll ws) db' cursor' ∧
            Decodes sm.toSpaceMapRegion sm.blockWords (sm'.smpObjsize / 8) ws es ∧
            Runs maptype ((size - run) * 2 ^ sm.smShift) es ∧
            Laid sm.blockWords words vdevId (size - run) (sm'.smpObjsize / 8) ws es ∧
            (Fits words (start + run) (size - run) → Tiles maptype (start * 2 ^ sm.smShift + sm.smStart + run * 2 ^ sm.smShift)
                ((start + size) * 2 ^ sm.smShift + sm.smStart) es) := by
        intro sm' c run hheld hrun hle hreg hblk
        have hbw : sm'.blockWords = sm.blockWords := by simp only [SpaceMap.blockWords, hblk]
        have := ih sm' db c (start + run) (size - run) hheld (by split at hfuel <;> split <;> omega)
          (by rw [hreg, show start + run + (size - run) = start + size by omega]; exact hbound) hwords
        rw [hbw, hreg, show start + run + (size - run) = start + size by omega,
          Nat.add_mul start run, Nat.add_right_comm] at this
        exact this
      dsimp only
      rw [if_neg hp]
      rcases hwords with rfl | rfl
      swap
      · have hb : cursor' + 1 < sm.blockWords := by omega
        simp only [if_true]
        generalize hrun : min size sm2RunMax = run
        have hmax : run ≤ sm2RunMax := by omega
        have hpos : 0 < run := by have := sm2RunMax_eq; omega
        obtain ⟨ws, es, db', c', heq, hheld, hdec, hruns, hlaid, htile⟩ :=
          step ((sm.push (entryWordOne run vdevId)).push (entryWordTwo maptype start)) (cursor' + 2) run
            ((held'.push hlt _).push hb _) hpos (by omega) rfl rfl
        have hstraddle : (sm.smpObjsize / 8 + 1) % sm.blockWords ≠ 0 := by
          rw [Nat.add_mod, hmod, Nat.mod_eq_of_lt (show 1 < sm.blockWords by omega), Nat.mod_eq_of_lt hb]
          omega
        rw [push_smpObjsize, push_smpObjsize,
          show (sm.smpObjsize + 8 + 8) / 8 = sm.smpObjsize / 8 + 2 by omega] at hdec hlaid
        refine ⟨[entryWordOne run vdevId, entryWordTwo maptype start] ++ ws, _, db', c', ?_, hheld,
          .two hpos hmax (fit_of_le hbound le_rfl (by omega)) hstraddle hdec, hruns.cons rfl (by rw [← Nat.add_mul, Nat.add_sub_cancel' (by omega)]),
          .cons (by rw [if_pos rfl, hrun]) (Nat.pos_of_ne_zero hsize) (fun _ => hstraddle) rfl (by rw [if_pos rfl, sm2VdevDecode_entryWordOne]) hlaid, fun hfits => ?_⟩
        · rw [ASSERT_bind (show cursor' + 1 < (sm.setWord _ _).blockWords from hb), held'.setWord_two]
          exact heq
        · rcases hfits with ⟨-, hfit⟩ | ⟨h, -⟩
          · refine .cons rfl ?_ (by positivity) (htile (.inl ⟨rfl, by omega⟩))
            dsimp only
            rw [Nat.mod_eq_of_lt (by omega)]
          · cases h
      · simp only [OfNat.one_ne_ofNat, if_false]
        generalize hrun : min size smRunMax = run
        have hmax : run ≤ smRunMax := by omega
        have hpos : 0 < run := by have := smRunMax_eq; omega
        obtain ⟨ws, es, db', c', heq, hheld, hdec, hruns, hlaid, htile⟩ :=
          step (sm.push (entryWord start maptype run)) (cursor' + 1) run (held'.push hlt _) hpos (by omega) rfl rfl
        rw [push_smpObjsize, show (sm.smpObjsize + 8) / 8 = sm.smpObjsize / 8 + 1 by omega] at hdec hlaid
        refine ⟨[entryWord start maptype run] ++ ws, _, db', c', ?_, hheld,
          .one hpos hmax (fit_of_le hbound le_rfl (by omega)) hdec, hruns.cons rfl (by rw [← Nat.add_mul, Nat.add_sub_cancel' (by omega)]),
          .cons (by rw [if_neg (by decide), hrun]) (Nat.pos_of_ne_zero hsize) (fun h => absurd h (by decide)) rfl (by rw [if_neg (by decide)]) hlaid, fun hfits => ?_⟩
        · rw [held'.setWord_grow]
          exact heq
        · rcases hfits with ⟨h, -⟩ | ⟨-, hfit⟩
          · cases h
          · refine .cons rfl ?_ (by positivity) (htile (.inr ⟨rfl, by omega⟩))
            dsimp only
            rw [Nat.mod_eq_of_lt (by omega)]

end

/-- A tree that can be written: its segments are whole units of the region. -/
def Writable (r : SpaceMapRegion) (rt : RangeTree) : Prop :=
  ∀ s ∈ rt.rtRoot, r.smStart ≤ s.lo ∧ s.hi ≤ r.smStart + r.smSize ∧ 2 ^ r.smShift ∣ s.lo ∧ 2 ^ r.smShift ∣ s.hi

instance (r : SpaceMapRegion) (rt : RangeTree) : Decidable (Writable r rt) :=
  inferInstanceAs (Decidable (∀ s ∈ rt.rtRoot, _))

/-- The entries can address a segment: 47 bits of units without SPACEMAP_V2, 63 with it. -/
def SegAddressable (r : SpaceMapRegion) (v2Active : Bool) (s : Seg) : Prop :=
  (s.hi - r.smStart) >>> r.smShift ≤ if v2Active then 2 ^ 63 else 2 ^ 47

/-- The entries can address every segment of the tree. -/
def Addressable (r : SpaceMapRegion) (v2Active : Bool) (rt : RangeTree) : Prop :=
  ∀ s ∈ rt.rtRoot, SegAddressable r v2Active s

instance (r : SpaceMapRegion) (v2Active : Bool) (rt : RangeTree) :
    Decidable (Addressable r v2Active rt) :=
  inferInstanceAs (Decidable (∀ s ∈ rt.rtRoot, _ ≤ _))

/-- A vdev id that is accepted: one-word entries have none. -/
def VdevOk (v2Active : Bool) (vdevId : Nat) : Prop :=
  vdevId ≤ smNoVdevid ∧ (v2Active = true ∨ vdevId = smNoVdevid)

instance (v2Active : Bool) (vdevId : Nat) : Decidable (VdevOk v2Active vdevId) :=
  inferInstanceAs (Decidable (_ ∧ _))

/-- The entries `es` are, segment after segment, the pieces of `segs`. -/
def TilesAll (t : MapType) (segs : List Seg) (es : List SpaceMapEntry) : Prop :=
  ∃ ess : List (List SpaceMapEntry), es = ess.flatten ∧ List.Forall₂ (fun (s : Seg) es => Tiles t s.lo s.hi es) segs ess

lemma TilesAll.nil (t : MapType) : TilesAll t [] [] := ⟨[], rfl, .nil⟩

lemma TilesAll.cons {s : Seg} {segs : List Seg} {es es' : List SpaceMapEntry}
    (h : Tiles t s.lo s.hi es) (h' : TilesAll t segs es') : TilesAll t (s :: segs) (es ++ es') := by
  obtain ⟨ess, rfl, hf⟩ := h'
  exact ⟨es :: ess, rfl, .cons h hf⟩

section
variable {sm : SpaceMap} {db cursor : Nat} {t : MapType} {vdevId : Nat} {v2Active : Bool} {s : Seg}

/-- The offsets of a segment in units of the region. -/
lemma unit_bounds (hpos : s.lo < s.hi) (hlo : r.smStart ≤ s.lo) (hdlo : 2 ^ r.smShift ∣ s.lo) (hdhi : 2 ^ r.smShift ∣ s.hi) :
    ((s.lo - r.smStart) >>> r.smShift) * 2 ^ r.smShift + r.smStart = s.lo ∧
    ((s.lo - r.smStart) >>> r.smShift + (s.hi - s.lo) >>> r.smShift) * 2 ^ r.smShift + r.smStart = s.hi := by
  have h1 : (s.lo - r.smStart) / 2 ^ r.smShift * 2 ^ r.smShift = s.lo - r.smStart :=
    Nat.div_mul_cancel (Nat.dvd_sub hdlo r.aligned)
  have h2 : (s.hi - s.lo) / 2 ^ r.smShift * 2 ^ r.smShift = s.hi - s.lo :=
    Nat.div_mul_cancel (Nat.dvd_sub hdhi hdlo)
  rw [Nat.shiftRight_eq_div_pow, Nat.shiftRight_eq_div_pow, Nat.add_mul, h1, h2]
  omega

/-- The number of words chosen for a segment leaves room for its offsets. -/
lemma fits_entryWords (force : Bool) (hadd : SegAddressable sm.toSpaceMapRegion v2Active s)
    (hsize : (s.lo - sm.smStart) >>> sm.smShift + (s.hi - s.lo) >>> sm.smShift = (s.hi - sm.smStart) >>> sm.smShift) :
    Fits (entryWords sm s vdevId v2Active force) ((s.lo - sm.smStart) >>> sm.smShift) ((s.hi - s.lo) >>> sm.smShift) := by
  unfold SegAddressable at hadd
  unfold entryWords
  dsimp only
  split
  next h =>
    rw [if_pos h.1] at hadd
    exact .inl ⟨rfl, by omega⟩
  next h =>
    refine .inr ⟨rfl, ?_⟩
    cases v2Active with
    | false => simp only [Bool.false_eq_true, if_false] at hadd; omega
    | true =>
      simp only [true_and, not_or, not_le, not_lt, one_shiftLeft, smOffsetBits] at h
      omega

lemma entryWords_eq (sm : SpaceMap) (s : Seg) (vdevId : Nat) (v2Active force : Bool) :
    entryWords sm s vdevId v2Active force = 1 ∨ entryWords sm s vdevId v2Active force = 2 := by
  unfold entryWords
  dsimp only
  split
  · exact .inr rfl
  · exact .inl rfl

lemma entryWords_one {force : Bool} (hv : VdevOk v2Active vdevId) :
    entryWords sm s vdevId v2Active force = 1 → vdevId = smNoVdevid := by
  intro hw
  rcases hv.2 with h | h
  · by_contra hne
    simp [entryWords, h, hne] at hw
  · exact h

/-- **`space_map_write_seg`** appends words that read as entries for the segment. -/
theorem spaceMapWriteSeg_spec (held : Held sm db cursor) (hpos : s.lo < s.hi)
    (hlo : sm.smStart ≤ s.lo) (hhi : s.hi ≤ sm.smStart + sm.smSize) (hdlo : 2 ^ sm.smShift ∣ s.lo)
    (hdhi : 2 ^ sm.smShift ∣ s.hi) (hv : vdevId ≤ smNoVdevid) (hvw : words = 1 → vdevId = smNoVdevid)
    (hwords : words = 1 ∨ words = 2) :
    ∃ ws es db' cursor', spaceMapWriteSeg sm s t vdevId words db = .ok (sm.pushAll ws, db') ∧
      Held (sm.pushAll ws) db' cursor' ∧
      Decodes sm.toSpaceMapRegion sm.blockWords (sm.smpObjsize / 8) ws es ∧ Runs t (s.hi - s.lo) es ∧
      Laid sm.blockWords words vdevId ((s.hi - s.lo) >>> sm.smShift) (sm.smpObjsize / 8) ws es ∧
      (Fits words ((s.lo - sm.smStart) >>> sm.smShift) ((s.hi - s.lo) >>> sm.smShift) → Tiles t s.lo s.hi es) := by
  have hcur : (sm.smpObjsize - db) / 8 = cursor := by have := held.objsize; omega
  obtain ⟨h1, h2⟩ := unit_bounds (r := sm.toSpaceMapRegion) hpos hlo hdlo hdhi
  obtain ⟨ws, es, db', c', heq, hheld, hdec, hruns, hlaid, htile⟩ :=
    spaceMapWriteSegLoop_spec t vdevId (2 * ((s.hi - s.lo) >>> sm.smShift)) sm db
      cursor ((s.lo - sm.smStart) >>> sm.smShift) ((s.hi - s.lo) >>> sm.smShift) held (by omega) (by omega)
      hwords
  rw [h1, h2] at htile
  rw [Nat.shiftRight_eq_div_pow, Nat.div_mul_cancel (Nat.dvd_sub hdhi hdlo)] at hruns
  refine ⟨ws, es, db', c', ?_, hheld, hdec, hruns, hlaid, htile⟩
  have hw : words ≠ 0 ∧ words ≤ 2 := by omega
  unfold spaceMapWriteSeg
  rw [ASSERT_bind hw.1, ASSERT_bind hw.2, ASSERT_bind hv, ASSERT_bind hvw]
  dsimp only
  rw [hcur, ASSERT_bind held.le, ASSERT_bind hlo, ASSERT_bind (by omega), ASSERT_bind (by omega),
    ASSERT_bind hhi]
  exact heq

/-- The entries `ess` of the segments, laid out from `pos` on. -/
inductive LaidAll (r : SpaceMapRegion) (b : Nat) (words : Seg → Bool → Nat) (t : MapType) (vdevId : Nat) :
    List Seg → (Nat → Bool) → Nat → List Nat → List (List SpaceMapEntry) → Prop
  | nil (force : Nat → Bool) (pos : Nat) : LaidAll r b words t vdevId [] force pos [] []
  | cons {s : Seg} {segs : List Seg} {force : Nat → Bool} {pos : Nat} {ws ws' : List Nat} {es : List SpaceMapEntry}
      {ess : List (List SpaceMapEntry)} (hruns : Runs t (s.hi - s.lo) es)
      (h : Laid b (words s (force 0)) vdevId ((s.hi - s.lo) >>> r.smShift) pos ws es)
      (rest : LaidAll r b words t vdevId segs (fun i => force (i + 1)) (pos + ws.length) ws' ess) :
      LaidAll r b words t vdevId (s :: segs) force pos (ws ++ ws') (es :: ess)

lemma entryWords_congr {sm sm' : SpaceMap} (h : sm'.toSpaceMapRegion = sm.toSpaceMapRegion) (s : Seg) (vdevId : Nat) (v2Active force : Bool) :
    entryWords sm' s vdevId v2Active force = entryWords sm s vdevId v2Active force := by
  unfold entryWords
  rw [h]

/-- The loop of `space_map_write_impl` over the segments. -/
lemma spaceMapWriteSegs_spec (hv : VdevOk v2Active vdevId) {segs : List Seg} :
    ∀ {sm : SpaceMap} {db cursor : Nat} (force : Nat → Bool), Held sm db cursor → (∀ s ∈ segs, s.lo < s.hi) →
      (∀ s ∈ segs, sm.smStart ≤ s.lo ∧ s.hi ≤ sm.smStart + sm.smSize ∧ 2 ^ sm.smShift ∣ s.lo ∧ 2 ^ sm.smShift ∣ s.hi) →
      ∃ ws es db', spaceMapWriteSegs t vdevId v2Active segs force sm db = .ok (sm.pushAll ws, db') ∧
        Decodes sm.toSpaceMapRegion sm.blockWords (sm.smpObjsize / 8) ws es ∧
        Runs t (Segs.total segs) es ∧
        (∃ ess, es = ess.flatten ∧ LaidAll sm.toSpaceMapRegion sm.blockWords (fun s force => entryWords sm s vdevId v2Active force) t vdevId
          segs force (sm.smpObjsize / 8) ws ess) ∧
        ((∀ s ∈ segs, SegAddressable sm.toSpaceMapRegion v2Active s) → TilesAll t segs es) := by
  induction segs with
  | nil => intro sm db _ _ _ _ _; exact ⟨[], [], db, rfl, .nil _, .nil rfl, ⟨[], rfl, .nil _ _⟩, fun _ => .nil t⟩
  | cons s segs ih =>
    intro sm db cursor force held hpos hin
    obtain ⟨hlo, hhi, hdlo, hdhi⟩ := hin s (by simp)
    have hs := hpos s (by simp)
    obtain ⟨h1, h2⟩ := unit_bounds (r := sm.toSpaceMapRegion) hs hlo hdlo hdhi
    have hsize : (s.lo - sm.smStart) >>> sm.smShift + (s.hi - s.lo) >>> sm.smShift = (s.hi - sm.smStart) >>> sm.smShift := by
      rw [Nat.shiftRight_eq_div_pow (s.hi - sm.smStart), Nat.sub_eq_of_eq_add h2.symm, Nat.mul_div_cancel _ (by positivity)]
    obtain ⟨ws, es, db1, c1, heq, hheld, hdec, hruns, hlaid, htile⟩ :=
      spaceMapWriteSeg_spec (t := t) held hs hlo hhi hdlo hdhi hv.1 (entryWords_one hv) (entryWords_eq sm s vdevId v2Active (force 0))
    obtain ⟨ws', es', db2, heq', hdec', hruns', ⟨ess, rfl, hlaid'⟩, htile'⟩ := ih (fun i => force (i + 1)) hheld
      (fun s' h' => hpos s' (by simp [h'])) (by rw [pushAll_region]; exact fun s' h' => hin s' (by simp [h']))
    have hpos' : (sm.pushAll ws).smpObjsize / 8 = sm.smpObjsize / 8 + ws.length := by
      rw [pushAll_smpObjsize]
      omega
    rw [hpos', pushAll_region] at hdec' hlaid'
    have hbw : (sm.pushAll ws).blockWords = sm.blockWords := by simp [SpaceMap.blockWords]
    rw [hbw] at hdec' hlaid'
    simp only [entryWords_congr (pushAll_region sm ws)] at hlaid'
    refine ⟨ws ++ ws', es ++ ess.flatten, db2, ?_, hdec.append hdec', hruns.append hruns', ⟨es :: ess, rfl, .cons hruns hlaid hlaid'⟩, fun hadd =>
      .cons (htile (fits_entryWords (force 0) (hadd s (by simp)) hsize))
        (htile' (by rw [pushAll_region]; exact fun s' h' => hadd s' (by simp [h'])))⟩
    rw [spaceMapWriteSegs, heq, pushAll_append]
    exact heq'

/-- The space counter after a write. -/
def allocAfter (a : BitVec 64) (t : MapType) (space : Nat) : BitVec 64 :=
  match t with
  | .alloc => a + BitVec.ofNat 64 space
  | .free => a - BitVec.ofNat 64 space

/-- The block that `space_map_write_impl` holds first is the one where the object ends. -/
lemma held_hold (sm : SpaceMap) (hobj : 8 ∣ sm.smpObjsize) : Held sm (sm.dbOffset sm.smpObjsize)
    ((sm.smpObjsize - sm.dbOffset sm.smpObjsize) / 8) := by
  have hmod := mod_add_div' sm.smpObjsize sm.smBlksz
  have hlt := mod_lt sm.smpObjsize (show 0 < sm.smBlksz by have := sm.blksz_ge; omega)
  have h8 := blockWords_mul sm
  have hdb : sm.smBlksz ∣ sm.dbOffset sm.smpObjsize := dvd_mul_left _ _
  have hdv := sm.blksz_dvd.trans hdb
  rw [← dbOffset] at hmod
  exact ⟨hdb, by omega, by omega⟩

variable {rt : RangeTree} {env : WriteEnv}

/-- `space_map_write_impl` appends a debug word and the entries. -/
lemma spaceMapWriteImpl_spec (sm : SpaceMap) (hobj : 8 ∣ sm.smpObjsize)
    (hw : Writable sm.toSpaceMapRegion rt) (hv : VdevOk env.v2Active vdevId) :
    ∃ ws es, spaceMapWriteImpl sm rt t vdevId env = .ok (sm.pushAll ws) ∧
      Decodes sm.toSpaceMapRegion sm.blockWords (sm.smpObjsize / 8) ws es ∧ Runs t rt.rtSpace es ∧
      (∃ w ws' ess, ws = w :: ws' ∧ es = ess.flatten ∧ LaidAll sm.toSpaceMapRegion sm.blockWords
        (fun s force => entryWords sm s vdevId env.v2Active force) t vdevId rt.rtRoot env.force (sm.smpObjsize / 8 + 1) ws' ess) ∧
      (Addressable sm.toSpaceMapRegion env.v2Active rt → TilesAll t rt.rtRoot es) := by
  have hintro : spaceMapWriteIntroDebug sm t env = sm.push (debugWord t.value env.syncPass env.txg) := rfl
  generalize hd : debugWord t.value env.syncPass env.txg = d at hintro
  have hdb : smEntryIsDebug d = true := by rw [← hd]; simp
  have held := held_hold (sm.push d) (hobj.add (dvd_refl 8))
  obtain ⟨ws, es, db, heq, hdec, hruns, ⟨ess, hess, hlaid⟩, htile⟩ := spaceMapWriteSegs_spec (t := t) hv env.force held
    rt.consistent.separated.pos hw
  rw [push_smpObjsize, show (sm.smpObjsize + 8) / 8 = sm.smpObjsize / 8 + 1 by omega] at hdec hlaid
  refine ⟨d :: ws, es, ?_, .debug hdb hdec, rt.consistent.space ▸ hruns, ⟨d, ws, ess, rfl, hess, hlaid⟩, htile⟩
  rw [spaceMapWriteImpl, hintro]
  dsimp only
  rw [heq]
  rfl

/-- **`space_map_write`** appends words that read as the tree and accounts for its space. -/
theorem spaceMapWrite_spec (hobj : 8 ∣ sm.smpObjsize)
    (hw : Writable sm.toSpaceMapRegion rt) (hv : VdevOk env.v2Active vdevId) : ∃ ws es, spaceMapWrite sm rt t vdevId env =
        .ok (({ sm with smpAlloc := allocAfter sm.smpAlloc t rt.rtSpace } : SpaceMap).pushAll ws) ∧
      Decodes sm.toSpaceMapRegion sm.blockWords (sm.smpObjsize / 8) ws es ∧ Runs t rt.rtSpace es ∧
      (∃ pos ws' ess, es = ess.flatten ∧ LaidAll sm.toSpaceMapRegion sm.blockWords
        (fun s force => entryWords sm s vdevId env.v2Active force) t vdevId rt.rtRoot env.force pos ws' ess) ∧
      (Addressable sm.toSpaceMapRegion env.v2Active rt → TilesAll t rt.rtRoot es) := by
  unfold spaceMapWrite
  by_cases he : rangeTreeIsEmpty rt
  · have h0 : rt.rtSpace = 0 := of_decide_eq_true he
    have hroot : rt.rtRoot = [] :=
      (Segs.cover_eq_empty rt.consistent.separated).1 (RangeTree.space_eq_zero.1 h0)
    refine ⟨[], [], ?_, .nil _, .nil h0, ⟨0, [], [], rfl, hroot ▸ .nil _ _⟩, fun _ => hroot ▸ .nil t⟩
    rw [if_pos he, h0]
    cases t <;> simp [allocAfter]
  · rw [if_neg he]
    obtain ⟨ws, es, heq, hdec, hruns, ⟨-, ws', ess, -, hess, hlaid⟩, htile⟩ := spaceMapWriteImpl_spec (t := t)
      { sm with smpAlloc := allocAfter sm.smpAlloc t rt.rtSpace } hobj hw hv
    refine ⟨ws, es, ?_, hdec, hruns, ⟨_, ws', ess, hess, hlaid⟩, htile⟩
    rw [← heq]
    cases t <;> rfl

end

end Unleashed.Zfs
