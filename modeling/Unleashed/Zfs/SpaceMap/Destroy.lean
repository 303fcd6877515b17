import Unleashed.Lib.Drain
import Unleashed.Zfs.SpaceMap.RoundTrip

/-!
# Incremental destruction of a space map

`space_map_incremental_destroy` takes entries off the end of the object. A word does not tell whether it is the second
one of an entry, so the last block is read forwards into a buffer in reverse order.
-/

namespace Unleashed.Zfs

open Lib Function List

def spaMinblocksize : Nat := 512

/-- The loop of `space_map_reversed_last_block_entries`. -/
def reverseEntriesLoop (words : Nat → Nat) (n : Nat) :
    (fuel i : Nat) → (j : Int) → (buf : Nat → Nat) → Except Fault ((Nat → Nat) × Int)
  | 0, i, j, buf => if i < n then .error .fuel else .ok (buf, j)
  | fuel + 1, i, j, buf =>
    if i < n then
      if smEntryIsDoubleWord (words i) then do
        ASSERT (j > 0)
        let buf := Function.update buf (j - 1).toNat (words i)
        ASSERT (i + 1 < n)
        let buf := Function.update buf j.toNat (words (i + 1))
        reverseEntriesLoop words n fuel (i + 2) (j - 2) buf
      else do
        ASSERT (smEntryIsDebug (words i) ∨ smEntryIsSingleWord (words i))
        reverseEntriesLoop words n fuel (i + 1) (j - 1) (Function.update buf j.toNat (words i))
    else .ok (buf, j)

/-- `space_map_reversed_last_block_entries`: the buffer, `nwords` and the error. -/
def spaceMapReversedLastBlockEntries (sm : SpaceMap) (hold buf : Nat → Nat) (bufsz : Nat) :
    Except Fault ((Nat → Nat) × Nat × Nat) :=
  let lastWordOffset := sm.smpObjsize - 8
  let dbOffset := sm.dbOffset lastWordOffset
  if hold dbOffset ≠ 0 then .ok (buf, 0, hold dbOffset)
  else do
    ASSERT (bufsz ≥ sm.smBlksz)
    let nwords := (sm.smpObjsize - dbOffset) / 8
    ASSERT (nwords ≤ bufsz / 8)
    let (buf, j) ← reverseEntriesLoop (fun i => sm.words (dbOffset / 8 + i)) nwords nwords 0 (nwords - 1) buf
    ASSERT (j = -1)
    .ok (buf, nwords, 0)

/-- The checks of `space_map_incremental_destroy` on an entry. -/
def verifiedEntry (r : SpaceMapRegion) (type : MapType) (vdevId rawOffset rawRun : Nat) :
    Except Fault SpaceMapEntry := do
  let entryOffset := ((rawOffset <<< r.smShift) + r.smStart) % 2 ^ 64
  let entryRun := (rawRun <<< r.smShift) % 2 ^ 64
  VERIFY (BitField.phase entryOffset (1 <<< r.smShift) = 0)
  VERIFY (BitField.phase entryRun (1 <<< r.smShift) = 0)
  VERIFY (r.smStart ≤ entryOffset)
  VERIFY (entryOffset < r.smStart + r.smSize)
  VERIFY (entryRun ≤ r.smSize)
  VERIFY (entryOffset + entryRun ≤ r.smStart + r.smSize)
  .ok ⟨type, vdevId, entryOffset, entryRun⟩

/-- Take `n` words off the end of the object. -/
def SpaceMap.shrink (sm : SpaceMap) (n : Nat) : SpaceMap :=
  spaceMapUpdate { sm with smpObjsize := sm.smpObjsize - n * 8 }

/-- Take an entry out of `smp_alloc`. -/
def SpaceMap.unaccount (sm : SpaceMap) (sme : SpaceMapEntry) : SpaceMap :=
  { sm with smpAlloc := match sme.smeType with
      | .alloc => sm.smpAlloc - BitVec.ofNat 64 sme.smeRun
      | .free => sm.smpAlloc + BitVec.ofNat 64 sme.smeRun }

section
variable {σ : Type} (callback : σ → SpaceMapEntry → Except Fault (σ × Nat))

/-- The inner loop of `space_map_incremental_destroy`. -/
def destroyWords (buf : Nat → Nat) (nwords : Nat) : (fuel i : Nat) → SpaceMap → σ → Except Fault (SpaceMap × σ × Nat)
  | 0, i, sm, arg => if i < nwords then .error .fuel else .ok (sm, arg, 0)
  | fuel + 1, i, sm, arg =>
    if i < nwords then
      let e := buf i
      if smEntryIsDebug e then destroyWords buf nwords fuel (i + 1) (sm.shrink 1) arg
      else if smEntryIsSingleWord e then do
        let sme ← verifiedEntry sm.toSpaceMapRegion (.ofValue (smTypeDecode e)) smNoVdevid (smOffsetDecode e) (smRunDecode e)
        let (arg, error) ← callback arg sme
        if error = 0 then destroyWords buf nwords fuel (i + 1) ((sm.unaccount sme).shrink 1) arg
        else .ok (sm, arg, error)
      else do
        ASSERT (smEntryIsDoubleWord e)
        let e2 := buf (i + 1)
        ASSERT (i + 1 ≤ nwords)
        let sme ← verifiedEntry sm.toSpaceMapRegion (.ofValue (sm2TypeDecode e2)) (sm2VdevDecode e)
          (sm2OffsetDecode e2) (sm2RunDecode e)
        let (arg, error) ← callback arg sme
        if error = 0 then destroyWords buf nwords fuel (i + 2) ((sm.unaccount sme).shrink 2) arg
        else .ok (sm, arg, error)
    else .ok (sm, arg, 0)

/-- The outer loop, over the blocks from the last one on. -/
def destroyBlocks (hold : Nat → Nat) (bufsz : Nat) : (fuel : Nat) → (buf : Nat → Nat) → SpaceMap → σ →
    Except Fault (SpaceMap × σ × Nat)
  | 0, _, sm, arg => if 0 < sm.smLength then .error .fuel else .ok (sm, arg, 0)
  | fuel + 1, buf, sm, arg =>
    if 0 < sm.smLength then do
      let (buf, nwords, error) ← spaceMapReversedLastBlockEntries sm hold buf bufsz
      if error ≠ 0 then .ok (sm, arg, error)
      else do
        ASSERT (nwords ≤ bufsz / 8)
        let (sm, arg, error) ← destroyWords callback buf nwords nwords 0 sm arg
        if error = 0 then destroyBlocks hold bufsz fuel buf sm arg else .ok (sm, arg, error)
    else .ok (sm, arg, 0)

/-- `space_map_incremental_destroy`: a round takes at least one word off. -/
def spaceMapIncrementalDestroy (hold uninit : Nat → Nat) (sm : SpaceMap) (arg : σ) :
    Except Fault (SpaceMap × σ × Nat) := do
  let bufsz := max sm.smBlksz spaMinblocksize
  let (sm, arg, error) ← destroyBlocks callback hold bufsz (sm.smLength / 8) uninit sm arg
  if sm.smLength = 0 then do
    ASSERT (error = 0)
    ASSERT (sm.smpObjsize = 0)
    ASSERT (sm.smAlloc = 0)
  .ok (sm, arg, error)

end

/-! ## Entries with their words -/

/-- The words of a debug entry, or of an entry. -/
inductive Chunk (r : SpaceMapRegion) : List Nat → List SpaceMapEntry → Prop
  | debug {w : Nat} (hw : smEntryIsDebug w = true) : Chunk r [w] []
  | single {w : Nat} {e : SpaceMapEntry} (hd : smEntryIsDebug w = false) (hw : smEntryIsSingleWord w = true)
      (he : decodedEntry r (.ofValue (smTypeDecode w)) smNoVdevid (smOffsetDecode w) (smRunDecode w) = .ok e) :
      Chunk r [w] [e]
  | double {w w' : Nat} {e : SpaceMapEntry} (hd : smEntryIsDebug w = false) (hs : smEntryIsSingleWord w = false)
      (hw : smEntryIsDoubleWord w = true)
      (he : decodedEntry r (.ofValue (sm2TypeDecode w')) (sm2VdevDecode w) (sm2OffsetDecode w') (sm2RunDecode w) = .ok e) :
      Chunk r [w, w'] [e]

/-- A log cut into its chunks. -/
abbrev Chunks := List (List Nat × List SpaceMapEntry)

def Chunks.words (cs : Chunks) : List Nat := (cs.map Prod.fst).flatten

def Chunks.entries (cs : Chunks) : List SpaceMapEntry := (cs.map Prod.snd).flatten

open Chunks

/-- The chunks at word `pos`, with `b` words a block: none straddles a block. -/
inductive Chunked (r : SpaceMapRegion) (b : Nat) : Nat → Chunks → Prop
  | nil (pos : Nat) : Chunked r b pos []
  | cons {pos : Nat} {c : List Nat × List SpaceMapEntry} {cs : Chunks} (hc : Chunk r c.1 c.2)
      (hb : c.1.length = 2 → (pos + 1) % b ≠ 0) (rest : Chunked r b (pos + c.1.length) cs) : Chunked r b pos (c :: cs)

variable {es : List SpaceMapEntry}

section
variable {r : SpaceMapRegion} {b pos : Nat} {cs ds : Chunks}

@[simp] lemma Chunks.words_nil : words [] = [] := rfl
@[simp] lemma Chunks.words_cons (c : List Nat × List SpaceMapEntry) : words (c :: cs) = c.1 ++ words cs := rfl
@[simp] lemma Chunks.entries_nil : entries [] = [] := rfl
@[simp] lemma Chunks.entries_cons (c : List Nat × List SpaceMapEntry) : entries (c :: cs) = c.2 ++ entries cs := rfl

@[simp] lemma Chunks.words_append : words (cs ++ ds) = words cs ++ words ds := by
  simp [words]

@[simp] lemma Chunks.entries_append : entries (cs ++ ds) = entries cs ++ entries ds := by
  simp [entries]

variable {ws : List Nat}

lemma Chunk.reverse_entries (h : Chunk r ws es) : es.reverse = es := by
  cases h <;> rfl

lemma Chunk.length_pos (h : Chunk r ws es) : 0 < ws.length := by
  cases h <;> exact Nat.succ_pos _

lemma Chunk.length_le (h : Chunk r ws es) : ws.length ≤ 2 := by
  cases h <;> simp

lemma Chunked.chunk (h : Chunked r b pos cs) : ∀ c ∈ cs, Chunk r c.1 c.2 := by
  induction h with
  | nil => exact fun c hc => absurd hc not_mem_nil
  | cons hc _ _ ih =>
    intro d hd
    rcases mem_cons.1 hd with rfl | hd
    · exact hc
    · exact ih d hd

lemma chunked_append : Chunked r b pos (cs ++ ds) ↔ Chunked r b pos cs ∧ Chunked r b (pos + (words cs).length) ds := by
  induction cs generalizing pos with
  | nil => exact ⟨fun h => ⟨.nil _, h⟩, fun h => h.2⟩
  | cons c cs ih =>
    rw [cons_append, words_cons, length_append, ← add_assoc]
    constructor
    · rintro (_ | ⟨hc, hb, hrest⟩)
      obtain ⟨h1, h2⟩ := ih.1 hrest
      exact ⟨.cons hc hb h1, h2⟩
    · rintro ⟨_ | ⟨hc, hb, h1⟩, h2⟩
      exact .cons hc hb (ih.2 ⟨h1, h2⟩)

lemma Decodes.chunked (h : Decodes r b pos ws es) : ∃ cs, Chunked r b pos cs ∧ words cs = ws ∧ entries cs = es := by
  induction h with
  | nil pos => exact ⟨[], .nil pos, rfl, rfl⟩
  | debug hw _ ih =>
    obtain ⟨cs, hcs, rfl, rfl⟩ := ih
    exact ⟨(_, _) :: cs, .cons (.debug hw) (fun h => by simp at h) hcs, rfl, rfl⟩
  | single hd hw he _ ih =>
    obtain ⟨cs, hcs, rfl, rfl⟩ := ih
    exact ⟨(_, _) :: cs, .cons (.single hd hw he) (fun h => by simp at h) hcs, rfl, rfl⟩
  | double hd hs hw hb he _ ih =>
    obtain ⟨cs, hcs, rfl, rfl⟩ := ih
    exact ⟨(_, _) :: cs, .cons (.double hd hs hw he) (fun _ => hb) hcs, rfl, rfl⟩

lemma Chunked.decodes (h : Chunked r b pos cs) : Decodes r b pos (words cs) (entries cs) := by
  induction h with
  | nil pos => exact .nil pos
  | @cons pos c cs hc hb _ ih =>
    obtain ⟨ws, es⟩ := c
    cases hc with
    | debug hw => exact .debug hw ih
    | single hd hw he => exact .single hd hw he ih
    | double hd hs hw he => exact .double hd hs hw (hb rfl) he ih

lemma Chunked.split (h : Chunked r b pos cs) : ∀ q, pos ≤ q → q ≤ pos + (words cs).length → q % b = 0 →
    ∃ cs1 cs2, cs = cs1 ++ cs2 ∧ pos + (words cs1).length = q := by
  induction h with
  | nil pos =>
    intro q h1 h2 _
    exact ⟨[], [], rfl, le_antisymm h1 h2⟩
  | @cons pos c cs hc hb _ ih =>
    intro q h1 h2 hq
    rw [words_cons, length_append, ← add_assoc] at h2
    rcases Nat.eq_or_lt_of_le h1 with rfl | hlt
    · exact ⟨[], c :: cs, rfl, rfl⟩
    · have hle : pos + c.1.length ≤ q := by
        by_contra hlt'
        have hlen := hc.length_le
        exact hb (by omega) ((show pos + 1 = q by omega) ▸ hq)
      obtain ⟨cs1, cs2, rfl, hlen⟩ := ih q hle h2 hq
      exact ⟨c :: cs1, cs2, rfl, by rw [words_cons, length_append, ← add_assoc, hlen]⟩

lemma Chunks.entries_reverse (h : ∀ c ∈ cs, Chunk r c.1 c.2) : entries cs.reverse = (entries cs).reverse := by
  induction cs with
  | nil => rfl
  | cons c cs ih =>
    obtain ⟨hc, hcs⟩ := forall_mem_cons.1 h
    simp only [reverse_cons, entries_append, ih hcs, entries_cons, reverse_append, hc.reverse_entries, entries_nil, append_nil]

lemma Chunks.length_words_reverse : (words cs.reverse).length = (words cs).length := by
  simp [words]

end

/-! ## Reversing a block -/

lemma isDoubleWord_eq_false {w : Nat} (h : smEntryIsDebug w = true ∨ smEntryIsSingleWord w = true) :
    smEntryIsDoubleWord w = false := by
  rcases h with h | h
  · simp [smEntryIsDoubleWord, of_decide_eq_true h, smDebugPrefix, sm2Prefix]
  · exact decide_eq_false (of_decide_eq_true h).2

variable {n : Nat}

/-- The words from `i` on, cut into `cs`, end reversed in the buffer up to `j`. -/
lemma reverseEntriesLoop_spec {r : SpaceMapRegion} (words : Nat → Nat) {cs : Chunks} (h : ∀ c ∈ cs, Chunk r c.1 c.2) :
    ∀ (fuel i : Nat) (buf : Nat → Nat), WordsAt words i (Chunks.words cs) →
      i + (Chunks.words cs).length = n → (Chunks.words cs).length ≤ fuel →
      ∃ buf', reverseEntriesLoop words n fuel i ((Chunks.words cs).length - 1) buf = .ok (buf', -1) ∧
        WordsAt buf' 0 (Chunks.words cs.reverse) ∧ ∀ k, (Chunks.words cs).length ≤ k → buf' k = buf k := by
  induction cs with
  | nil =>
    intro fuel i buf _ hn _
    have hi : ¬ i < n := by simp at hn; omega
    refine ⟨buf, ?_, fun j hj => absurd hj (Nat.not_lt_zero j), fun _ _ => rfl⟩
    cases fuel <;> simp [reverseEntriesLoop, hi]
  | cons c cs ih =>
    intro fuel i buf hat hn hfuel
    obtain ⟨hc, hcs⟩ := forall_mem_cons.1 h
    obtain ⟨ws, es⟩ := c
    have one : ∀ w, ws = [w] → (smEntryIsDebug w = true ∨ smEntryIsSingleWord w = true) →
        ∃ buf', reverseEntriesLoop words n fuel i ((Chunks.words ((ws, es) :: cs)).length - 1) buf = .ok (buf', -1) ∧
          WordsAt buf' 0 (Chunks.words ((ws, es) :: cs).reverse) ∧
          ∀ k, (Chunks.words ((ws, es) :: cs)).length ≤ k → buf' k = buf k := by
      rintro w rfl hw
      simp only [words_cons, cons_append, nil_append, length_cons] at hat hn hfuel ⊢
      obtain ⟨fuel, rfl⟩ : ∃ k, fuel = k + 1 := ⟨fuel - 1, by omega⟩
      obtain ⟨buf', heq, hbuf, hkeep⟩ := ih hcs fuel (i + 1)
        (update buf (Chunks.words cs).length w) hat.tail (by omega) (by omega)
      refine ⟨buf', ?_, ?_, fun k hk => ?_⟩
      · rw [reverseEntriesLoop, if_pos (by omega), hat.head, isDoubleWord_eq_false hw]
        simp only [Bool.false_eq_true, if_false]
        rw [ASSERT_bind hw]
        push_cast
        rw [Int.add_sub_cancel, Int.toNat_natCast]
        exact heq
      · rw [reverse_cons, words_append, wordsAt_append]
        refine ⟨hbuf, fun j hj => ?_⟩
        obtain rfl : j = 0 := by simpa using hj
        rw [length_words_reverse, zero_add, add_zero, hkeep _ le_rfl, update_self]
        rfl
      · rw [hkeep k (by omega), update_of_ne (by omega)]
    cases hc with
    | debug hw => exact one _ rfl (.inl hw)
    | single _ hw _ => exact one _ rfl (.inr hw)
    | @double w w' e hd hs hw he =>
      simp only [words_cons, cons_append, nil_append, length_cons] at hat hn hfuel ⊢
      obtain ⟨fuel, rfl⟩ : ∃ k, fuel = k + 1 := ⟨fuel - 1, by omega⟩
      obtain ⟨buf', heq, hbuf, hkeep⟩ := ih hcs fuel (i + 2)
        (update (update buf (Chunks.words cs).length w) ((Chunks.words cs).length + 1) w')
        hat.tail.tail (by omega) (by omega)
      refine ⟨buf', ?_, ?_, fun k hk => ?_⟩
      · have hj : (((Chunks.words cs).length + 1 + 1 : Nat) : Int) - 1 = ((Chunks.words cs).length + 1 : Nat) := by
          push_cast; omega
        rw [reverseEntriesLoop, if_pos (by omega), hat.head, if_pos hw, hj, ASSERT_bind (by omega)]
        rw [ASSERT_bind (by omega), hat.tail.head, Int.toNat_natCast,
          show (((Chunks.words cs).length + 1 : Nat) : Int) - 1 = (Chunks.words cs).length by push_cast; omega,
          Int.toNat_natCast,
          show (((Chunks.words cs).length + 1 : Nat) : Int) - 2 = (Chunks.words cs).length - 1 by push_cast; omega]
        exact heq
      · rw [reverse_cons, words_append, wordsAt_append]
        refine ⟨hbuf, fun j hj => ?_⟩
        rw [length_words_reverse, zero_add, hkeep _ (by omega)]
        rcases (show j = 0 ∨ j = 1 by simp [Chunks.words] at hj; omega) with rfl | rfl
        · rw [update_of_ne (by omega), add_zero, update_self]
          rfl
        · rw [update_self]
          rfl
      · rw [hkeep k (by omega), update_of_ne (by omega), update_of_ne (by omega)]

/-! ## Taking entries off the end -/

/-- The space counter of a log of entries. -/
def entriesAlloc (es : List SpaceMapEntry) : BitVec 64 :=
  es.foldl (fun a e => allocAfter a e.smeType e.smeRun) 0

/-- The object is made of the chunks `cs`, and `smp_alloc` accounts for the entries. -/
structure SpaceMap.Holds (sm : SpaceMap) (cs : Chunks) : Prop where
  size : 8 * (Chunks.words cs).length = sm.smpObjsize
  length : sm.smLength = sm.smpObjsize
  alloc : sm.smpAlloc = entriesAlloc (entries cs)
  inCore : sm.smAlloc = sm.smpAlloc
  wordsAt : WordsAt sm.words 0 (Chunks.words cs)
  chunked : Chunked sm.toSpaceMapRegion sm.blockWords 0 cs

/-- Take a chunk off the end, as a round of the inner loop does. -/
def SpaceMap.retire (sm : SpaceMap) (c : List Nat × List SpaceMapEntry) : SpaceMap :=
  (c.2.foldl SpaceMap.unaccount sm).shrink c.1.length

variable {t : MapType}

section
variable {sm : SpaceMap} {r : SpaceMapRegion} {cs : Chunks} {c : List Nat × List SpaceMapEntry}

lemma SpaceMap.Holds.logTo (h : sm.Holds cs) : sm.LogTo sm.smLength (entries cs) :=
  ⟨Chunks.words cs, h.size.trans h.length.symm, h.wordsAt, h.chunked.decodes⟩

lemma SpaceMap.Holds.eq_nil (h : sm.Holds cs) (h0 : sm.smLength = 0) : cs = [] := by
  cases cs with
  | nil => rfl
  | cons c cs =>
    have hpos := (h.chunked.chunk c mem_cons_self).length_pos
    have hsize := h.size
    have hlength := h.length
    rw [words_cons, length_append] at hsize
    omega

variable {e : SpaceMapEntry}

lemma unaccount_allocAfter {a : BitVec 64} (h : sm.smpAlloc = allocAfter a e.smeType e.smeRun) :
    (sm.unaccount e).smpAlloc = a := by
  unfold SpaceMap.unaccount
  rw [h]
  cases e.smeType with
  | alloc => exact BitVec.add_sub_cancel a _
  | free => exact BitVec.sub_add_cancel a _

lemma retire_blksz (hc : Chunk r c.1 c.2) : (sm.retire c).smBlksz = sm.smBlksz := by
  obtain ⟨ws, es⟩ := c
  cases hc <;> rfl

/-- **Step.** Without its last chunk the object is made of the chunks before it. -/
theorem SpaceMap.Holds.retire (h : sm.Holds (cs ++ [c])) : (sm.retire c).Holds cs := by
  obtain ⟨hchunked, hlast⟩ := chunked_append.1 h.chunked
  have hc : Chunk sm.toSpaceMapRegion c.1 c.2 := by cases hlast; assumption
  have hsize := h.size
  have halloc := h.alloc
  have hat := h.wordsAt
  rw [words_append, wordsAt_append] at hat
  rw [words_append, length_append] at hsize
  obtain ⟨ws, es⟩ := c
  have hw : Chunks.words [(ws, es)] = ws := append_nil ws
  rw [hw] at hsize
  have hshrink : 8 * (Chunks.words cs).length = sm.smpObjsize - ws.length * 8 := by omega
  cases hc with
  | debug hw =>
    have hsame : sm.smpAlloc = entriesAlloc (entries cs) := by
      rw [halloc, entries_append]
      exact congrArg entriesAlloc (append_nil _)
    exact ⟨hshrink, rfl, hsame, rfl, hat.1, hchunked⟩
  | single hd hw he =>
    refine ⟨hshrink, rfl, unaccount_allocAfter ?_, rfl, hat.1, hchunked⟩
    rw [halloc, entries_append, entriesAlloc, foldl_append]
    rfl
  | double hd hs hw he =>
    refine ⟨hshrink, rfl, unaccount_allocAfter ?_, rfl, hat.1, hchunked⟩
    rw [halloc, entries_append, entriesAlloc, foldl_append]
    rfl

/-- What the reader decodes passes the checks of the destroyer. -/
lemma verifiedEntry_of_decoded {vdevId o : Nat}
    (h : decodedEntry r t vdevId o n = .ok e) : verifiedEntry r t vdevId o n = .ok e := by
  unfold decodedEntry at h
  simp only [bind_returns, VERIFY_eq_ok, ASSERT_eq_ok] at h
  obtain ⟨_, h1, _, h2, _, h3, _, h4, _, h5, _, h6, he⟩ := h
  unfold verifiedEntry
  rw [VERIFY_bind h1, VERIFY_bind h2, VERIFY_bind h3, VERIFY_bind h4, VERIFY_bind h5, VERIFY_bind h6]
  exact he

end

section
variable {σ : Type} (callback : σ → SpaceMapEntry → Except Fault (σ × Nat))

/-- The chunks left when a block is done: `ds`, reversed, after the blocks before it. -/
def LeftInBlock (blksz : Nat) (cs : Chunks) (sm : SpaceMap) (rest : List SpaceMapEntry) (error : Nat) : Prop :=
  sm.smBlksz = blksz ∧ ∃ ds, sm.Holds (cs ++ ds.reverse) ∧ entries ds = rest ∧ (error = 0 ↔ ds = [])

/-- **The inner loop** is the fold over the entries of the block from the last one on. -/
theorem destroyWords_sameRun {buf : Nat → Nat} {nwords : Nat} (cs ds : Chunks) :
    ∀ (fuel i : Nat) (sm : SpaceMap) (arg : σ), sm.Holds (cs ++ ds.reverse) →
      WordsAt buf i (words ds) → i + (words ds).length = nwords →
      (words ds).length ≤ fuel →
      SameRun (LeftInBlock sm.smBlksz cs) (destroyWords callback buf nwords fuel i sm arg)
        (drain callback (entries ds) arg) := by
  induction ds with
  | nil =>
    intro fuel i sm arg hold _ hn _
    have hi : ¬ i < nwords := by simp at hn; omega
    have heq : destroyWords callback buf nwords fuel i sm arg = .ok (sm, arg, 0) := by
      cases fuel <;> simp [destroyWords, hi]
    rw [heq]
    exact .done arg ⟨rfl, [], hold, rfl, by simp⟩
  | cons c ds ih =>
    intro fuel i sm arg hold hat hn hfuel
    rw [reverse_cons, ← append_assoc] at hold
    have hc : Chunk sm.toSpaceMapRegion c.1 c.2 := hold.chunked.chunk c (by simp)
    have hstay : sm.Holds (cs ++ (c :: ds).reverse) := by
      rw [reverse_cons, ← append_assoc]; exact hold
    have next : ∀ fuel arg, (words ds).length ≤ fuel →
        SameRun (LeftInBlock sm.smBlksz cs) (destroyWords callback buf nwords fuel (i + c.1.length) (sm.retire c) arg)
          (drain callback (entries ds) arg) := by
      intro fuel arg hfuel
      rw [words_cons, wordsAt_append] at hat
      rw [words_cons, length_append] at hn
      have := ih fuel (i + c.1.length) (sm.retire c) arg hold.retire hat.2 (by omega) hfuel
      rwa [retire_blksz hc] at this
    -- the callback on the entry of the chunk, and the rest of the block unless it fails
    have visit : ∀ (e : SpaceMapEntry) fuel, c.2 = [e] → (words ds).length ≤ fuel → SameRun (LeftInBlock sm.smBlksz cs) (do
          let (arg, error) ← callback arg e
          if error = 0 then destroyWords callback buf nwords fuel (i + c.1.length) (sm.retire c) arg
          else .ok (sm, arg, error)) (drain callback (entries (c :: ds)) arg) := by
      intro e fuel he hfuel
      rw [entries_cons, he, singleton_append, drain]
      cases callback arg e with
      | error f => exact .fault f
      | ok p =>
        obtain ⟨arg, error⟩ := p
        simp only [ok_bind]
        split
        · exact next fuel arg hfuel
        next herr => exact .done arg ⟨rfl, c :: ds, hstay, by rw [entries_cons, he]; rfl, by simp [herr]⟩
    obtain ⟨ws, es⟩ := c
    cases hc with
    | debug hw =>
      simp only [words_cons, cons_append, nil_append, length_cons] at hat hn hfuel
      obtain ⟨fuel, rfl⟩ : ∃ k, fuel = k + 1 := ⟨fuel - 1, by omega⟩
      rw [destroyWords, if_pos (by omega)]
      rw [hat.head, if_pos hw]
      exact next fuel arg (by omega)
    | single hd hw he =>
      simp only [words_cons, cons_append, nil_append, length_cons] at hat hn hfuel
      obtain ⟨fuel, rfl⟩ : ∃ k, fuel = k + 1 := ⟨fuel - 1, by omega⟩
      rw [destroyWords, if_pos (by omega)]
      dsimp only
      rw [hat.head, hd, if_neg Bool.false_ne_true, if_pos hw, verifiedEntry_of_decoded he]
      exact visit _ fuel rfl (by omega)
    | double hd hs hw he =>
      simp only [words_cons, cons_append, nil_append, length_cons] at hat hn hfuel
      obtain ⟨fuel, rfl⟩ : ∃ k, fuel = k + 1 := ⟨fuel - 1, by omega⟩
      rw [destroyWords, if_pos (by omega)]
      dsimp only
      rw [hat.head, hat.tail.head, hd, if_neg Bool.false_ne_true, hs, if_neg Bool.false_ne_true, ASSERT_bind hw,
        ASSERT_bind (by omega), verifiedEntry_of_decoded he]
      exact visit _ fuel rfl (by omega)

variable {bufsz : Nat}

/-- **`space_map_reversed_last_block_entries`** leaves the chunks of the last block, reversed. -/
theorem spaceMapReversedLastBlockEntries_spec {sm : SpaceMap} {cs : Chunks} (h : sm.Holds cs) (hne : cs ≠ []) (hbuf : sm.smBlksz ≤ bufsz) (buf : Nat → Nat) :
    ∃ cs1 cs2 buf', cs = cs1 ++ cs2 ∧ cs2 ≠ [] ∧ (words cs2).length ≤ bufsz / 8 ∧
      spaceMapReversedLastBlockEntries sm (fun _ => 0) buf bufsz = .ok (buf', (words cs2).length, 0) ∧
      WordsAt buf' 0 (words cs2.reverse) := by
  have hb := blockWords_mul sm
  have h2 := two_le_blockWords sm
  have hsize := h.size
  have hpos : 0 < (words cs).length := by
    obtain ⟨c, cs, rfl⟩ := exists_cons_of_ne_nil hne
    have := (h.chunked.chunk c mem_cons_self).length_pos
    rw [words_cons, length_append]
    omega
  generalize hN : (words cs).length = N at hsize hpos
  -- the index of the first word of the last block
  have hdb : sm.dbOffset (sm.smpObjsize - 8) = 8 * ((N - 1) / sm.blockWords * sm.blockWords) := by
    rw [SpaceMap.dbOffset, ← hsize, ← hb, show 8 * N - 8 = 8 * (N - 1) by omega,
      Nat.mul_div_mul_left _ _ (by norm_num : 0 < 8), Nat.mul_left_comm]
  have hle := Nat.div_mul_le_self (N - 1) sm.blockWords
  have hlt := Nat.lt_div_mul_add (show 0 < sm.blockWords by omega) (a := N - 1)
  have hmod : (N - 1) / sm.blockWords * sm.blockWords % sm.blockWords = 0 := Nat.mul_mod_left _ _
  generalize (N - 1) / sm.blockWords * sm.blockWords = q at hdb hle hlt hmod
  obtain ⟨cs1, cs2, rfl, hq⟩ := h.chunked.split q (Nat.zero_le _) (by omega) hmod
  rw [words_append, length_append] at hN
  have hat := h.wordsAt
  rw [words_append, wordsAt_append, hq] at hat
  have hchunk := fun c hc => h.chunked.chunk c (mem_append_right cs1 hc)
  obtain ⟨buf', heq, hrev, -⟩ := reverseEntriesLoop_spec (fun i => sm.words (q + i)) hchunk (words cs2).length 0 buf
    (fun j hj => by rw [Nat.zero_add]; exact hat.2 j hj) (Nat.zero_add _) le_rfl
  refine ⟨cs1, cs2, buf', rfl, ?_, by omega, ?_, hrev⟩
  · rintro rfl
    simp at hN
    omega
  · unfold spaceMapReversedLastBlockEntries
    dsimp only
    rw [hdb, if_neg (by simp), ASSERT_bind hbuf, show (sm.smpObjsize - 8 * q) / 8 = (words cs2).length by omega,
      ASSERT_bind (by omega), show 8 * q / 8 = q by omega, heq]
    rfl

/-- What is left of the object when a call returns. -/
def Left (sm : SpaceMap) (rest : List SpaceMapEntry) (error : Nat) : Prop :=
  ∃ cs, sm.Holds cs ∧ (entries cs).reverse = rest ∧ (error = 0 ↔ cs = [])

/-- **The outer loop** is the fold over all entries from the last one on. -/
theorem destroyBlocks_sameRun (fuel : Nat) :
    ∀ (cs : Chunks) (buf : Nat → Nat) (sm : SpaceMap) (arg : σ), sm.Holds cs → sm.smBlksz ≤ bufsz → (words cs).length ≤ fuel →
      SameRun Left (destroyBlocks callback (fun _ => 0) bufsz fuel buf sm arg) (drain callback (entries cs).reverse arg) := by
  induction fuel with
  | zero =>
    intro cs buf sm arg h _ hfuel
    have hnil := h.eq_nil (by have := h.size; have := h.length; omega)
    subst hnil
    rw [destroyBlocks, if_neg (by have := h.length; have := h.size; simp at this; omega)]
    exact .done arg ⟨[], h, rfl, by simp⟩
  | succ fuel ih =>
    intro cs buf sm arg h hbuf hfuel
    rcases eq_or_ne cs [] with rfl | hne
    · rw [destroyBlocks, if_neg (by have := h.length; have := h.size; simp at this; omega)]
      exact .done arg ⟨[], h, rfl, by simp⟩
    have hpos : 0 < sm.smLength := Nat.pos_of_ne_zero fun h0 => hne (h.eq_nil h0)
    obtain ⟨cs1, cs2, buf', rfl, hne2, hle, heq, hrev⟩ := spaceMapReversedLastBlockEntries_spec h hne hbuf buf
    have hlen : (words cs2.reverse).length = (words cs2).length := length_words_reverse
    have hrun := destroyWords_sameRun callback cs1 cs2.reverse (words cs2).length 0 sm arg
      (by rwa [reverse_reverse]) hrev (show _ = (words cs2).length by omega) (by omega)
    have hchunk := h.chunked.chunk
    rw [entries_append, reverse_append, ← entries_reverse (fun c hc => hchunk c (mem_append_right _ hc)), drain_append,
      destroyBlocks, if_pos hpos, heq]
    dsimp only [ok_bind]
    rw [if_neg (by simp), ASSERT_bind hle]
    generalize destroyWords callback buf' (words cs2).length (words cs2).length 0 sm arg = x at hrun ⊢
    generalize drain callback (entries cs2.reverse) arg = y at hrun ⊢
    cases hrun with
    | fault f => exact .fault f
    | @done sm' rest arg error hleft =>
      obtain ⟨hblk, ds, hds, rfl, herr⟩ := hleft
      dsimp only [ok_bind]
      split
      next h0 =>
        obtain rfl := herr.1 h0
        have hless : 0 < (words cs2).length := by
          obtain ⟨c, cs2, rfl⟩ := exists_cons_of_ne_nil hne2
          have := (hchunk c (by simp)).length_pos
          rw [words_cons, length_append]
          omega
        rw [words_append, length_append] at hfuel
        exact ih cs1 buf' sm' arg (by simpa using hds) (by omega) (by omega)
      next h0 =>
        have hdsc : ∀ c ∈ ds, Chunk sm'.toSpaceMapRegion c.1 c.2 :=
          fun c hc => hds.chunked.chunk c (mem_append_right _ (mem_reverse.2 hc))
        refine .done arg ⟨cs1 ++ ds.reverse, hds, ?_, ?_⟩
        · rw [entries_append, reverse_append, entries_reverse hdsc, reverse_reverse]
        · rw [herr, append_eq_nil_iff, reverse_eq_nil_iff]
          exact ⟨fun h => absurd (herr.2 h) h0, fun h => h.2⟩

/-- **`space_map_incremental_destroy`** is the fold over the entries from the last one on. -/
theorem spaceMapIncrementalDestroy_sameRun {sm : SpaceMap} {cs : Chunks} (h : sm.Holds cs) (uninit : Nat → Nat)
    (arg : σ) : SameRun Left (spaceMapIncrementalDestroy callback (fun _ => 0) uninit sm arg)
      (drain callback (entries cs).reverse arg) := by
  have hrun := destroyBlocks_sameRun callback (sm.smLength / 8) cs uninit sm arg h
    (le_max_left sm.smBlksz spaMinblocksize) (by have := h.length; have := h.size; omega)
  unfold spaceMapIncrementalDestroy
  dsimp only
  generalize destroyBlocks callback (fun _ => 0) _ _ uninit sm arg = x at hrun ⊢
  generalize drain callback _ arg = y at hrun ⊢
  cases hrun with
  | fault f => exact .fault f
  | @done sm' rest arg error hleft =>
    have hleft' := hleft
    obtain ⟨cs', hcs, -, herr⟩ := hleft'
    dsimp only [ok_bind]
    split
    next h0 =>
      obtain rfl := hcs.eq_nil h0
      rw [ASSERT_bind (herr.2 rfl), ASSERT_bind (hcs.length.symm.trans h0),
        ASSERT_bind (show sm'.smAlloc = 0 from hcs.inCore.trans hcs.alloc)]
      exact .done arg hleft
    · exact .done arg hleft

end

/-! ## Any sequence of calls -/

/-- A call of `space_map_incremental_destroy`: its callback and its buffer. -/
structure DestroyCall (σ : Type) where
  callback : σ → SpaceMapEntry → Except Fault (σ × Nat)
  uninit : Nat → Nat

/-- Calls one after the other: the map, the callbacks' state and the errors. -/
def destroyCalls {σ : Type} (hold : Nat → Nat) :
    List (DestroyCall σ) → SpaceMap → σ → Except Fault (SpaceMap × σ × List Nat)
  | [], sm, arg => .ok (sm, arg, [])
  | c :: calls, sm, arg => do
    let (sm, arg, error) ← spaceMapIncrementalDestroy c.callback hold c.uninit sm arg
    let (sm, arg, errors) ← destroyCalls hold calls sm arg
    .ok (sm, arg, error :: errors)

/-- What they should do: each call presents the entries left, last first, until its callback fails. -/
def drains {σ : Type} :
    List (DestroyCall σ) → List SpaceMapEntry → σ → Except Fault (List SpaceMapEntry × σ × List Nat)
  | [], es, arg => .ok (es, arg, [])
  | c :: calls, es, arg => do
    let (es, arg, error) ← drain c.callback es arg
    let (es, arg, errors) ← drains calls es arg
    .ok (es, arg, error :: errors)

/-- `space_map_iterate` presents the entries `es`. -/
def SpaceMap.Iterates (sm : SpaceMap) (es : List SpaceMapEntry) : Prop :=
  ∀ (σ : Type) (callback : σ → SpaceMapEntry → Except Fault (σ × Nat)) (arg : σ),
    spaceMapIterate sm callback (fun _ => 0) arg = foldCallback callback es arg

lemma SpaceMap.Holds.iterates {sm : SpaceMap} {cs : Chunks} (h : sm.Holds cs) : sm.Iterates (entries cs) :=
  fun _ callback arg => spaceMapIterate_eq callback (fun _ => rfl) h.logTo arg

/-- What is left between calls: the entries not yet destroyed, a first part of `es`, accounted for. -/
def Undestroyed (es : List SpaceMapEntry) (sm : SpaceMap) (rest : List SpaceMapEntry) : Prop :=
  rest.reverse <+: es ∧ sm.Iterates rest.reverse ∧ (sm.smLength = 0 → rest = [] ∧ sm.smpAlloc = 0)

lemma SpaceMap.Holds.undestroyed {sm : SpaceMap} {cs : Chunks} (h : sm.Holds cs)
    (hpre : entries cs <+: es) : Undestroyed es sm (entries cs).reverse := by
  unfold Undestroyed
  rw [reverse_reverse]
  refine ⟨hpre, h.iterates, fun h0 => ?_⟩
  obtain rfl := h.eq_nil h0
  exact ⟨rfl, h.alloc⟩

/-- **Run.** Calls on the object do what they should do to its entries. -/
theorem SpaceMap.Holds.calls {σ : Type} (calls : List (DestroyCall σ)) :
    ∀ {sm : SpaceMap} {cs : Chunks} (arg : σ), sm.Holds cs → entries cs <+: es →
      SameRun (fun sm rest _ => Undestroyed es sm rest) (destroyCalls (fun _ => 0) calls sm arg)
        (drains calls (entries cs).reverse arg) := by
  induction calls with
  | nil => exact fun arg h hpre => .done arg (h.undestroyed hpre)
  | cons c calls ih =>
    intro sm cs arg h hpre
    have hrun := spaceMapIncrementalDestroy_sameRun c.callback h c.uninit arg
    rw [destroyCalls, drains]
    generalize spaceMapIncrementalDestroy c.callback _ c.uninit sm arg = x at hrun ⊢
    generalize hy : drain c.callback _ arg = y at hrun ⊢
    cases hrun with
    | fault f => exact .fault f
    | @done sm' rest arg' error hleft =>
      obtain ⟨cs', hcs, rfl, -⟩ := hleft
      have hrest := ih arg' hcs ((reverse_suffix.1 (drain_suffix hy)).trans hpre)
      dsimp only [ok_bind]
      generalize destroyCalls _ calls sm' arg' = x at hrest ⊢
      generalize drains calls _ arg' = y at hrest ⊢
      cases hrest with
      | fault f => exact .fault f
      | done arg h => exact .done arg h

/-! ## Maps that were written -/

/-- The object reads as entries that `smp_alloc` accounts for. -/
def SpaceMap.Accounted (sm : SpaceMap) : Prop :=
  ∃ es, sm.LogTo sm.smpObjsize es ∧ sm.smpAlloc = entriesAlloc es

/-- Entries of one type account for the sum of their runs. -/
lemma Runs.foldl_allocAfter : ∀ {n : Nat} (a : BitVec 64), Runs t n es →
      es.foldl (fun a e => allocAfter a e.smeType e.smeRun) a = allocAfter a t n := by
  induction es with
  | nil =>
    rintro n a ⟨-, rfl⟩
    cases t <;> simp [allocAfter]
  | cons e es ih =>
    rintro n a ⟨ht, rfl⟩
    obtain ⟨hte, htes⟩ := forall_mem_cons.1 ht
    rw [foldl_cons, ih _ ⟨htes, rfl⟩, hte, map_cons, sum_cons]
    cases t with
    | alloc => simp only [allocAfter, BitVec.ofNat_add, BitVec.add_assoc]
    | free => simp only [allocAfter, BitVec.ofNat_add, BitVec.sub_sub]

/-- **Step.** A write keeps the object accounted for. -/
theorem SpaceMap.Accounted.write {sm : SpaceMap} (h : sm.Accounted) {w : SpaceMapWrite}
    (hw : Writable sm.toSpaceMapRegion w.rt) (hv : VdevOk w.env.v2Active w.vdevId) :
    ∃ sm', spaceMapWrite sm w.rt w.maptype w.vdevId w.env = .ok sm' ∧ sm'.Accounted ∧
      sm'.toSpaceMapRegion = sm.toSpaceMapRegion := by
  obtain ⟨es, hlog, halloc⟩ := h
  have hdvd : 8 ∣ sm.smpObjsize := by
    obtain ⟨ws, hlen, -⟩ := hlog
    exact ⟨ws.length, hlen.symm⟩
  obtain ⟨ws, es', heq, hdec, hruns, -⟩ := spaceMapWrite_spec (t := w.maptype) hdvd hw hv
  refine ⟨_, heq, ⟨es ++ es', ?_, ?_⟩, by simp⟩
  · rw [pushAll_smpObjsize]
    exact hlog.extend hdec _
  · rw [pushAll_smpAlloc, entriesAlloc, foldl_append, ← entriesAlloc, ← halloc, hruns.foldl_allocAfter]

/-- **Run.** So does a sequence of writes. -/
theorem SpaceMap.Accounted.writes (ws : List SpaceMapWrite) : ∀ {sm : SpaceMap}, sm.Accounted →
      (∀ w ∈ ws, Writable sm.toSpaceMapRegion w.rt ∧ VdevOk w.env.v2Active w.vdevId) →
      ∃ sm', spaceMapWrites sm ws = .ok sm' ∧ sm'.Accounted := by
  induction ws with
  | nil => exact fun h _ => ⟨_, rfl, h⟩
  | cons w ws ih =>
    intro sm h hok
    obtain ⟨hw, hws⟩ := forall_mem_cons.1 hok
    obtain ⟨sm1, heq, h1, hreg⟩ := h.write hw.1 hw.2
    obtain ⟨sm2, heq', h2⟩ := ih h1 (by rwa [hreg])
    refine ⟨sm2, ?_, h2⟩
    rw [spaceMapWrites, heq]
    exact heq'

lemma SpaceMap.Accounted.holds {sm : SpaceMap} (h : sm.Accounted) : ∃ cs, (spaceMapUpdate sm).Holds cs := by
  obtain ⟨es, ⟨ws, hlen, hat, hdec⟩, halloc⟩ := h
  obtain ⟨cs, hchunked, rfl, rfl⟩ := hdec.chunked
  exact ⟨cs, hlen, rfl, halloc, rfl, hat, hchunked⟩

/-- **Incremental destruction.** Any sequence of calls, with callbacks that may fail anywhere, presents the entries
from the last one on and removes those on which it did not fail; the rest reads as before. -/
theorem spaceMap_incremental_destroy (r : SpaceMapRegion) (blksz : Nat) (hge : 16 ≤ blksz) (hdvd : 8 ∣ blksz)
    (ws : List SpaceMapWrite) (hok : ∀ w ∈ ws, Writable r w.rt ∧ VdevOk w.env.v2Active w.vdevId) :
    ∃ sm es, spaceMapWrites (.empty r blksz hge hdvd) ws = .ok sm ∧ (spaceMapUpdate sm).Iterates es ∧
      ∀ (σ : Type) (calls : List (DestroyCall σ)) (arg : σ), SameRun (fun sm' rest _ => Undestroyed es sm' rest)
          (destroyCalls (fun _ => 0) calls (spaceMapUpdate sm) arg) (drains calls es.reverse arg) := by
  have hempty : (SpaceMap.empty r blksz hge hdvd).Accounted :=
    ⟨[], ⟨[], rfl, fun j hj => absurd hj (Nat.not_lt_zero j), .nil _⟩, rfl⟩
  obtain ⟨sm, heq, hacc⟩ := hempty.writes ws hok
  obtain ⟨cs, hcs⟩ := hacc.holds
  exact ⟨sm, entries cs, heq, hcs.iterates, fun σ calls arg => hcs.calls calls arg List.prefix_rfl⟩

/-- Destroy the map of one sector write, the first time in vain. -/
def sectorCalls : List (DestroyCall Nat) :=
  [⟨fun n _ => .ok (n + 1, 5), fun _ => 0⟩, ⟨fun n _ => .ok (n + 1, 0), fun _ => 0⟩]

theorem spaceMap_incremental_destroy_sector :
    (∀ w ∈ [sectorWrite], Writable sectorRegion w.rt ∧ VdevOk w.env.v2Active w.vdevId) ∧
    ∃ sm es, spaceMapWrites (.empty sectorRegion 16 (by decide) (by decide)) [sectorWrite] = .ok sm ∧
      (spaceMapUpdate sm).Iterates es ∧
      SameRun (fun sm' rest _ => Undestroyed es sm' rest)
        (destroyCalls (fun _ => 0) sectorCalls (spaceMapUpdate sm) 0) (drains sectorCalls es.reverse 0) := by
  have hok : ∀ w ∈ [sectorWrite], Writable sectorRegion w.rt ∧ VdevOk w.env.v2Active w.vdevId := by
    intro w hw
    obtain rfl := List.mem_singleton.1 hw
    exact ⟨by decide, by decide⟩
  obtain ⟨sm, es, h, hit, hcalls⟩ := spaceMap_incremental_destroy sectorRegion 16 (by decide) (by decide) _ hok
  exact ⟨hok, sm, es, h, hit, hcalls Nat sectorCalls 0⟩

end Unleashed.Zfs
