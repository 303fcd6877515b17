import Unleashed.Zfs.RangeTree
import Unleashed.Zfs.SpaceMap.Encoding

/-!
# Space maps (`space_map.c`)

A space map is a sequence of 64-bit words in blocks of `sm_blksz` bytes, to which `space_map_write` appends the
segments of a range tree and which `space_map_iterate` reads back. The object is a function from word index to word;
`smp_objsize` and the cursors stay byte offsets.
-/

namespace Unleashed.Zfs

open Lib

/-- What `space_map_open` fixes: a region that starts at a multiple of the unit and does not wrap: a metaslab, a vdev
or the txgs of a DTL. -/
structure SpaceMapRegion where
  (smStart smSize smShift : Nat)
  shift_lt : smShift < 64
  aligned : 2 ^ smShift ∣ smStart
  pos : 0 < smSize
  bound : smStart + smSize < 2 ^ 64

/-- `space_map_t` with `space_map_phys_t` and the words. Signed counters are 64-bit patterns. -/
structure SpaceMap extends SpaceMapRegion where
  smLength : Nat
  smAlloc : BitVec 64
  (smBlksz smpObjsize : Nat)
  smpAlloc : BitVec 64
  words : Nat → Nat
  blksz_ge : 16 ≤ smBlksz
  blksz_dvd : 8 ∣ smBlksz

/-- A space map whose object is empty. -/
def SpaceMap.empty (r : SpaceMapRegion) (blksz : Nat) (hge : 16 ≤ blksz) (hdvd : 8 ∣ blksz) :
    SpaceMap :=
  { r with smLength := 0, smAlloc := 0, smBlksz := blksz, smpObjsize := 0, smpAlloc := 0
           words := fun _ => 0, blksz_ge := hge, blksz_dvd := hdvd }

/-- Store one word of the object. -/
def SpaceMap.setWord (sm : SpaceMap) (i w : Nat) : SpaceMap :=
  { sm with words := Function.update sm.words i w }

/-- Advance `smp_objsize`. -/
def SpaceMap.grow (sm : SpaceMap) (n : Nat) : SpaceMap :=
  { sm with smpObjsize := sm.smpObjsize + n }

/-- Words in a block. -/
def SpaceMap.blockWords (sm : SpaceMap) : Nat := sm.smBlksz / 8

/-- The offset of the block that `dmu_buf_hold` returns for `offset`. -/
def SpaceMap.dbOffset (sm : SpaceMap) (offset : Nat) : Nat := offset / sm.smBlksz * sm.smBlksz

/-- What a call of `space_map_write` reads from the pool: SPACEMAP_V2, the pass and txg, and for the n-th segment
whether `zfs_force_some_double_word_sm_entries && spa_get_random(100) == 0`. -/
structure WriteEnv where
  v2Active : Bool
  (syncPass txg : Nat)
  force : Nat → Bool

def spaceMapWriteIntroDebug (sm : SpaceMap) (maptype : MapType) (env : WriteEnv) : SpaceMap :=
  let dentry := debugWord maptype.value env.syncPass env.txg
  (sm.setWord (sm.smpObjsize / 8) dentry).grow 8

/-- The loop of `space_map_write_seg`: `db` is the offset of the held block, `cursor` the place in it, `start` and
`size` what is left. -/
def spaceMapWriteSegLoop (maptype : MapType) (vdevId words : Nat) :
    Nat → SpaceMap → Nat → Nat → Nat → Nat → Except Fault (SpaceMap × Nat)
  | 0, sm, db, _, _, size => if size = 0 then .ok (sm, db) else .error .fuel
  | fuel + 1, sm, db, cursor, start, size =>
    if size = 0 then .ok (sm, db)
    else do
      ASSERT (cursor ≤ sm.blockWords)
      -- at the end of the block, hold the next one
      let (db, cursor) :=
        if cursor = sm.blockWords then (sm.dbOffset sm.smpObjsize, 0) else (db, cursor)
      if cursor + 1 = sm.blockWords ∧ words > 1 then
        -- one word left: pad it, the two-word entry goes to the next block
        let sm := (sm.setWord (db / 8 + cursor) (debugWord 0 0 0)).grow 8
        spaceMapWriteSegLoop maptype vdevId words fuel sm db (cursor + 1) start size
      else
        let runMax := if words = 2 then sm2RunMax else smRunMax
        let runLen := min size runMax
        match words with
        | 1 =>
          let sm := (sm.setWord (db / 8 + cursor) (entryWord start maptype runLen)).grow 8
          spaceMapWriteSegLoop maptype vdevId words fuel sm db (cursor + 1) (start + runLen) (size - runLen)
        | 2 =>
          let sm := sm.setWord (db / 8 + cursor) (entryWordOne runLen vdevId)
          ASSERT (cursor + 1 < sm.blockWords)
          let sm := (sm.setWord (db / 8 + (cursor + 1)) (entryWordTwo maptype start)).grow 16
          spaceMapWriteSegLoop maptype vdevId words fuel sm db (cursor + 2) (start + runLen) (size - runLen)
        | _ => .error .verify

/-- `space_map_write_seg`: the map and the block held. An entry takes at most two rounds. -/
def spaceMapWriteSeg (sm : SpaceMap) (rs : Seg) (maptype : MapType) (vdevId words db : Nat) :
    Except Fault (SpaceMap × Nat) := do
  ASSERT (words ≠ 0)
  ASSERT (words ≤ 2)
  ASSERT (vdevId ≤ smNoVdevid)
  ASSERT (words = 1 → vdevId = smNoVdevid)
  let cursor := (sm.smpObjsize - db) / 8
  ASSERT (cursor ≤ sm.blockWords)
  let size := (rs.hi - rs.lo) >>> sm.smShift
  let start := (rs.lo - sm.smStart) >>> sm.smShift
  ASSERT (sm.smStart ≤ rs.lo)
  ASSERT (rs.lo < sm.smStart + sm.smSize)
  ASSERT (rs.hi - rs.lo ≤ sm.smSize)
  ASSERT (rs.hi ≤ sm.smStart + sm.smSize)
  spaceMapWriteSegLoop maptype vdevId words (2 * size) sm db cursor start size

/-- How many words the entries of a segment take. -/
def entryWords (sm : SpaceMap) (rs : Seg) (vdevId : Nat) (v2Active force : Bool) : Nat :=
  let offset := (rs.lo - sm.smStart) >>> sm.smShift
  let length := (rs.hi - rs.lo) >>> sm.smShift
  if v2Active ∧ (1 <<< smOffsetBits ≤ offset ∨ smRunMax < length ∨ vdevId ≠ smNoVdevid ∨ force)
  then 2 else 1

/-- The loop of `space_map_write_impl` over the segments of the tree. -/
def spaceMapWriteSegs (maptype : MapType) (vdevId : Nat) (v2Active : Bool) :
    List Seg → (Nat → Bool) → SpaceMap → Nat → Except Fault (SpaceMap × Nat)
  | [], _, sm, db => .ok (sm, db)
  | rs :: rest, force, sm, db => do
    let words := entryWords sm rs vdevId v2Active (force 0)
    let (sm, db) ← spaceMapWriteSeg sm rs maptype vdevId words db
    spaceMapWriteSegs maptype vdevId v2Active rest (fun i => force (i + 1)) sm db

/-- `space_map_write_impl`, without the DEBUG check of its size estimate. -/
def spaceMapWriteImpl (sm : SpaceMap) (rt : RangeTree) (maptype : MapType) (vdevId : Nat)
    (env : WriteEnv) : Except Fault SpaceMap := do
  let sm := spaceMapWriteIntroDebug sm maptype env
  let db := sm.dbOffset sm.smpObjsize
  let (sm, _) ← spaceMapWriteSegs maptype vdevId env.v2Active rt.rtRoot env.force sm db
  .ok sm

def spaceMapWrite (sm : SpaceMap) (rt : RangeTree) (maptype : MapType) (vdevId : Nat)
    (env : WriteEnv) : Except Fault SpaceMap :=
  if rangeTreeIsEmpty rt then .ok sm
  else
    let space := BitVec.ofNat 64 (rangeTreeSpace rt)
    let smpAlloc := match maptype with
      | .alloc => sm.smpAlloc + space
      | .free => sm.smpAlloc - space
    spaceMapWriteImpl { sm with smpAlloc } rt maptype vdevId env

def spaceMapUpdate (sm : SpaceMap) : SpaceMap :=
  { sm with smAlloc := sm.smpAlloc, smLength := sm.smpObjsize }

/-- `space_map_truncate`: it ends with blocks of `blocksize` bytes and no words. -/
def spaceMapTruncate (sm : SpaceMap) (blocksize : Nat) (hge : 16 ≤ blocksize)
    (hdvd : 8 ∣ blocksize) : SpaceMap :=
  { sm with smBlksz := blocksize, blksz_ge := hge, blksz_dvd := hdvd
            words := fun _ => 0, smpObjsize := 0, smpAlloc := 0 }

/-- `space_map_entry_t`. -/
structure SpaceMapEntry where
  smeType : MapType
  (smeVdev smeOffset smeRun : Nat)
deriving DecidableEq, Repr

/-- The checks of `space_map_iterate` on an entry, and the entry. -/
def decodedEntry (r : SpaceMapRegion) (type : MapType) (vdevId rawOffset rawRun : Nat) :
    Except Fault SpaceMapEntry := do
  let entryOffset := ((rawOffset <<< r.smShift) + r.smStart) % 2 ^ 64
  let entryRun := (rawRun <<< r.smShift) % 2 ^ 64
  VERIFY (BitField.phase entryOffset (1 <<< r.smShift) = 0)
  VERIFY (BitField.phase entryRun (1 <<< r.smShift) = 0)
  ASSERT (r.smStart ≤ entryOffset)
  ASSERT (entryOffset < r.smStart + r.smSize)
  ASSERT (entryRun ≤ r.smSize)
  ASSERT (entryOffset + entryRun ≤ r.smStart + r.smSize)
  .ok ⟨type, vdevId, entryOffset, entryRun⟩

section
variable {σ : Type} (sm : SpaceMap) (callback : σ → SpaceMapEntry → Except Fault (σ × Nat))

/-- The inner loop of `space_map_iterate`. The second word of an entry is read before the check of the cursor; past
the block it is not there. -/
def iterateBlock (blockBase blockEnd : Nat) : Nat → Nat → σ → Except Fault (σ × Nat)
  | 0, cursor, arg => if cursor < blockEnd then .error .fuel else .ok (arg, 0)
  | fuel + 1, cursor, arg =>
    if cursor < blockEnd then
      let e := sm.words (blockBase / 8 + cursor)
      if smEntryIsDebug e then iterateBlock blockBase blockEnd fuel (cursor + 1) arg
      else if smEntryIsSingleWord e then do
        let sme ← decodedEntry sm.toSpaceMapRegion (.ofValue (smTypeDecode e)) smNoVdevid (smOffsetDecode e) (smRunDecode e)
        let (arg, error) ← callback arg sme
        if error = 0 then iterateBlock blockBase blockEnd fuel (cursor + 1) arg else .ok (arg, error)
      else do
        ASSERT (smEntryIsDoubleWord e)
        if sm.blockWords ≤ cursor + 1 then .error .bounds
        let e2 := sm.words (blockBase / 8 + (cursor + 1))
        VERIFY (cursor + 1 ≤ blockEnd)
        let sme ← decodedEntry sm.toSpaceMapRegion (.ofValue (sm2TypeDecode e2))
          (sm2VdevDecode e) (sm2OffsetDecode e2) (sm2RunDecode e)
        let (arg, error) ← callback arg sme
        if error = 0 then iterateBlock blockBase blockEnd fuel (cursor + 2) arg else .ok (arg, error)
    else .ok (arg, 0)

/-- The outer loop of `space_map_iterate`, from `blockBase`; `hold` is the error of `dmu_buf_hold`. -/
def iterateBlocks (hold : Nat → Nat) : Nat → Nat → σ → Except Fault (σ × Nat)
  | 0, blockBase, arg => if blockBase < sm.smLength then .error .fuel else .ok (arg, 0)
  | fuel + 1, blockBase, arg =>
    if blockBase < sm.smLength then
      if hold blockBase ≠ 0 then .ok (arg, hold blockBase)
      else do
        let blockLength := min (sm.smLength - blockBase) sm.smBlksz
        VERIFY (BitField.phase blockLength 8 = 0)
        VERIFY (blockLength ≠ 0)
        let (arg, error) ← iterateBlock sm callback blockBase (blockLength / 8) (blockLength / 8) 0 arg
        if error = 0 then iterateBlocks hold fuel (blockBase + sm.smBlksz) arg else .ok (arg, error)
    else .ok (arg, 0)

/-- `space_map_iterate`: the callback's state and the error returned. -/
def spaceMapIterate (hold : Nat → Nat) (arg : σ) : Except Fault (σ × Nat) :=
  iterateBlocks sm callback hold (sm.smLength / sm.smBlksz + 1) 0 arg

end

def spaceMapLoadCallback (sm : SpaceMap) (maptype : MapType) (rt : RangeTree) (sme : SpaceMapEntry) :
    Except Fault (RangeTree × Nat) :=
  if sme.smeType = maptype then do
    VERIFY (rangeTreeSpace rt + sme.smeRun ≤ sm.smSize)
    let rt ← rangeTreeAdd rt sme.smeOffset sme.smeRun
    .ok (rt, 0)
  else do
    let rt ← rangeTreeRemove rt sme.smeOffset sme.smeRun
    .ok (rt, 0)

/-- `space_map_load`: the tree, empty after an error, and the error. -/
def spaceMapLoad (sm : SpaceMap) (rt : RangeTree) (maptype : MapType) (hold : Nat → Nat) :
    Except Fault (RangeTree × Nat) := do
  VERIFY (rangeTreeSpace rt = 0)
  let (rt, space) ← match maptype with
    | .alloc => .ok (rt, sm.smAlloc)
    | .free => do
      let rt ← rangeTreeAdd rt sm.smStart sm.smSize
      .ok (rt, BitVec.ofNat 64 sm.smSize - sm.smAlloc)
  let (rt, err) ← spaceMapIterate sm (spaceMapLoadCallback sm maptype) hold rt
  if err = 0 then
    VERIFY (BitVec.ofNat 64 (rangeTreeSpace rt) = space)
    .ok (rt, 0)
  else .ok (RangeTree.create, err)

end Unleashed.Zfs
