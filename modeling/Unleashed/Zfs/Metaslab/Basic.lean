import Unleashed.Zfs.Metaslab.Allocator
import Unleashed.Zfs.SpaceMap.Contents

/-!
# Metaslabs (`metaslab.c`)

A metaslab manages the space of one region of a vdev with nine range trees and a space map. The functions follow the
source under `ms_lock`; where it is dropped the function is cut, so that other operations can run in between. Weights,
histograms and the vdev-wide map of `ms_checkpointing` are not modelled.
-/

namespace Unleashed.Zfs

open Lib

def txgSize : Nat := 4
def txgConcurrentStates : Nat := 3

/-- `txg & TXG_MASK`. -/
def txgSlot (txg : Nat) : Fin 4 := Fin.ofNat 4 txg

/-- `txg % TXG_DEFER_SIZE`. -/
def deferSlot (txg : Nat) : Fin 2 := Fin.ofNat 2 txg

/-- What is fixed for a metaslab: its region, as `vdev_metaslab_set_size` chooses it (far less than 2^47 units), its
allocator and the tunables. -/
structure MetaslabConfig extends SpaceMapRegion where
  sized : 2 ^ smShift ∣ smSize
  addressable : smSize >>> smShift ≤ 2 ^ 47
  mcOps : MetaslabOps
  tun : MetaslabTunables
  zfsMetaslabSmBlksz : Nat
  blksz_ge : 16 ≤ zfsMetaslabSmBlksz
  blksz_dvd : 8 ∣ zfsMetaslabSmBlksz
  (debugMetaslabVerify debugZioFree metaslabDebugUnload : Bool)

/-- Where a `metaslab_load` stands: not under way, before the read, or after it. -/
inductive MsLoading | no | reading | read (error : Nat)
deriving DecidableEq, Repr

/-- `metaslab_t`. The trees made at the first `metaslab_sync_done` are empty before it (`msReady`). -/
structure Metaslab where
  msSm : Option SpaceMap
  msAllocating : Fin 4 → RangeTree
  (msAllocatable msFreeing msFreed : RangeTree)
  msDefer : Fin 2 → RangeTree
  msCheckpointing : RangeTree
  (msReady msCondensing msCondenseWanted msLoaded : Bool)
  msLoading : MsLoading
  msDeferspace : Int
  msLbas : Nat → Nat
  msSelectedTxg : Nat

/-- `range_tree_add` on `ms_allocatable`, whose callback is `metaslab_rt_add`. -/
def metaslabRtAdd (msCondensing : Bool) (rt : RangeTree) (start size : Nat) : Except Fault RangeTree := do
  let rt ← rangeTreeAdd rt start size
  VERIFY (msCondensing = false)
  .ok rt

/-- `range_tree_remove` on `ms_allocatable`, whose callback is `metaslab_rt_remove`. -/
def metaslabRtRemove (msCondensing : Bool) (rt : RangeTree) (start size : Nat) :
    Except Fault RangeTree := do
  let rt ← rangeTreeRemove rt start size
  VERIFY (msCondensing = false)
  .ok rt

/-- `range_tree_vacate(rt, ms_loaded ? range_tree_add : NULL, ms_allocatable)`. -/
def vacateToAllocatable (ms : Metaslab) (rt : RangeTree) : Except Fault RangeTree :=
  if ms.msLoaded then rangeTreeWalk rt (metaslabRtAdd ms.msCondensing) ms.msAllocatable
  else .ok ms.msAllocatable

section
variable (c : MetaslabConfig) (ms : Metaslab)

/-- `P2PHASE(x, 1ULL << vdev_ashift) == 0`. -/
def unitAligned (x : Nat) : Prop := BitField.phase x (1 <<< c.smShift) = 0

instance (x : Nat) : Decidable (unitAligned c x) := inferInstanceAs (Decidable (_ = _))

def metaslabVerifySpace (txg spaSyncingTxg : Nat) : Except Fault Unit :=
  if c.debugMetaslabVerify = false then .ok ()
  else if txg ≠ spaSyncingTxg ∨ ms.msLoaded = false then .ok ()
  else
    match ms.msSm with
    | none => .ok ()
    | some sm =>
      let smFreeSpace := BitVec.ofNat 64 c.smSize - sm.smAlloc - (sm.smpAlloc - sm.smAlloc)
      let allocated := ((List.range txgConcurrentStates).map fun t =>
        rangeTreeSpace (ms.msAllocating (txgSlot (txg + t)))).sum
      let mspFreeSpace := BitVec.ofNat 64 (rangeTreeSpace ms.msAllocatable + allocated) +
        BitVec.ofInt 64 ms.msDeferspace + BitVec.ofNat 64 (rangeTreeSpace ms.msFreed)
      VERIFY (smFreeSpace = mspFreeSpace)

/-- `metaslab_block_alloc`: the metaslab and the offset, `none` for `-1ULL`. -/
def metaslabBlockAlloc (size txg spaSyncingTxg : Nat) (hit : Nat → Nat) : Except Fault (Metaslab × Option Nat) := do
  VERIFY (ms.msCondensing = false)
  let (start, lbas) ← msopAlloc c.tun c.smSize ms.msAllocatable hit ms.msLbas size c.mcOps
  match start with
  | none => .ok ({ ms with msLbas := lbas }, none)
  | some start =>
    VERIFY (unitAligned c start)
    VERIFY (unitAligned c size)
    VERIFY ((rangeTreeSpace ms.msAllocatable + 2 ^ 64 - size) % 2 ^ 64 ≤ c.smSize)
    let allocatable ← metaslabRtRemove ms.msCondensing ms.msAllocatable start size
    let allocating ← rangeTreeAdd (ms.msAllocating (txgSlot txg)) start size
    let ms := { ms with
      msLbas := lbas
      msAllocatable := allocatable
      msAllocating := Function.update ms.msAllocating (txgSlot txg) allocating }
    metaslabVerifySpace c ms txg spaSyncingTxg
    .ok (ms, some start)

def metaslabCheckFreeImpl (offset size : Nat) : Except Fault Unit :=
  if c.debugZioFree = false then .ok ()
  else do
    if ms.msLoaded then rangeTreeVerify ms.msAllocatable offset size
    rangeTreeVerify ms.msFreeing offset size
    rangeTreeVerify ms.msCheckpointing offset size
    rangeTreeVerify ms.msFreed offset size
    rangeTreeVerify (ms.msDefer 0) offset size
    rangeTreeVerify (ms.msDefer 1) offset size

def metaslabFreeConcrete (offset asize : Nat) (checkpoint : Bool) : Except Fault Metaslab := do
  VERIFY (ms.msCondensing = false)
  VERIFY (c.smStart ≤ offset)
  VERIFY (offset + asize ≤ c.smStart + c.smSize)
  VERIFY (unitAligned c offset)
  VERIFY (unitAligned c asize)
  metaslabCheckFreeImpl c ms offset asize
  if checkpoint then
    let checkpointing ← rangeTreeAdd ms.msCheckpointing offset asize
    .ok { ms with msCheckpointing := checkpointing }
  else
    let freeing ← rangeTreeAdd ms.msFreeing offset asize
    .ok { ms with msFreeing := freeing }

/-- `metaslab_unalloc_dva`, from where the metaslab of the DVA is found. -/
def metaslabUnallocDva (offset size txg : Nat) : Except Fault Metaslab := do
  let allocating ← rangeTreeRemove (ms.msAllocating (txgSlot txg)) offset size
  VERIFY (ms.msCondensing = false)
  VERIFY (c.smStart ≤ offset)
  VERIFY (offset + size ≤ c.smStart + c.smSize)
  VERIFY (rangeTreeSpace ms.msAllocatable + size ≤ c.smSize)
  VERIFY (unitAligned c offset)
  VERIFY (unitAligned c size)
  let allocatable ← metaslabRtAdd ms.msCondensing ms.msAllocatable offset size
  .ok { ms with
    msAllocating := Function.update ms.msAllocating (txgSlot txg) allocating
    msAllocatable := allocatable }

/-! ### Loading -/

/-- `metaslab_load` up to where it drops the lock. -/
def metaslabLoadBegin : Except Fault Metaslab := do
  ASSERT (ms.msLoaded = false)
  ASSERT (ms.msLoading = .no)
  .ok { ms with msLoading := .reading }

/-- `metaslab_load` without the lock; `hold` gives the errors of reading. -/
def metaslabLoadRead (hold : Nat → Nat) : Except Fault Metaslab :=
  match ms.msSm with
  | some sm => do
    let (rt, error) ← spaceMapLoad sm ms.msAllocatable .free hold
    .ok { ms with msAllocatable := rt, msLoading := .read error }
  | none => do
    let rt ← metaslabRtAdd ms.msCondensing ms.msAllocatable c.smStart c.smSize
    .ok { ms with msAllocatable := rt, msLoading := .read 0 }

/-- `metaslab_load` from where it takes the lock again. -/
def metaslabLoadEnd (error : Nat) : Except Fault Metaslab :=
  if error = 0 then
    if ms.msSm.isSome then do
      let rt ← rangeTreeWalk (ms.msDefer 0) (metaslabRtRemove ms.msCondensing) ms.msAllocatable
      let rt ← rangeTreeWalk (ms.msDefer 1) (metaslabRtRemove ms.msCondensing) rt
      .ok { ms with msAllocatable := rt, msLoading := .no, msLoaded := true }
    else .ok { ms with msLoading := .no, msLoaded := true }
  else .ok { ms with msLoading := .no }

def metaslabUnload : Metaslab := { ms with msAllocatable := .create, msLoaded := false }

/-! ### Syncing -/

/-- `metaslab_sync` up to the lock: whether there is anything to sync, and the space map allocated. -/
def metaslabSyncBegin (txg : Nat) : Metaslab × Bool :=
  if ms.msReady = false then (ms, false)
  else if rangeTreeIsEmpty (ms.msAllocating (txgSlot txg)) ∧ rangeTreeIsEmpty ms.msFreeing ∧
      rangeTreeIsEmpty ms.msCheckpointing ∧ ¬ (ms.msLoaded ∧ ms.msCondenseWanted) then (ms, false)
  else
    match ms.msSm with
    | some _ => (ms, true)
    | none => ({ ms with msSm := some (.empty c.toSpaceMapRegion c.zfsMetaslabSmBlksz c.blksz_ge c.blksz_dvd) }, true)

/-- `metaslab_condense` up to where it drops the lock: the space allocated or free. -/
def metaslabCondenseTree (txg : Nat) : Except Fault RangeTree := do
  ASSERT (ms.msLoaded)
  let condenseTree ← rangeTreeAdd .create c.smStart c.smSize
  let condenseTree ← rangeTreeWalk ms.msFreeing rangeTreeRemove condenseTree
  let condenseTree ← rangeTreeWalk ms.msFreed rangeTreeRemove condenseTree
  let condenseTree ← rangeTreeWalk (ms.msDefer 0) rangeTreeRemove condenseTree
  let condenseTree ← rangeTreeWalk (ms.msDefer 1) rangeTreeRemove condenseTree
  let condenseTree ← rangeTreeWalk (ms.msAllocating (txgSlot (txg + 1))) rangeTreeRemove condenseTree
  rangeTreeWalk (ms.msAllocating (txgSlot (txg + 2))) rangeTreeRemove condenseTree

/-- `space_map_truncate` of `ms_sm`. -/
def metaslabTruncate : Metaslab :=
  { ms with msSm := ms.msSm.map fun sm =>
      spaceMapTruncate sm c.zfsMetaslabSmBlksz c.blksz_ge c.blksz_dvd }

/-- `space_map_write` to `ms_sm`. -/
def metaslabWrite (rt : RangeTree) (maptype : MapType) (env : WriteEnv) : Except Fault Metaslab :=
  match ms.msSm with
  | none => .error .bounds
  | some sm => do
    let sm ← spaceMapWrite sm rt maptype smNoVdevid env
    .ok { ms with msSm := some sm }

/-- `metaslab_condense`, as it runs without interruptions. -/
def metaslabCondense (txg : Nat) (env1 env2 : WriteEnv) : Except Fault Metaslab := do
  let condenseTree ← metaslabCondenseTree c ms txg
  let ms := metaslabTruncate c { ms with msCondenseWanted := false, msCondensing := true }
  let ms ← metaslabWrite ms condenseTree .alloc env1
  let ms ← metaslabWrite ms ms.msAllocatable .free env2
  .ok { ms with msCondensing := false }

/-- The other branch of `metaslab_sync`: append the allocations and the frees to the space map. -/
def metaslabAppend (txg : Nat) (env1 env2 : WriteEnv) : Except Fault Metaslab := do
  let ms ← metaslabWrite ms (ms.msAllocating (txgSlot txg)) .alloc env1
  metaslabWrite ms ms.msFreeing .free env2

/-- `metaslab_sync` after the space map is written: the frees move on, and the trees are emptied. -/
def metaslabSyncEnd (txg spaSyncPass : Nat) : Except Fault Metaslab := do
  let (freeing, freed) ←
    if spaSyncPass = 1 then rangeTreeSwap ms.msFreeing ms.msFreed
    else rangeTreeVacate ms.msFreeing rangeTreeAdd ms.msFreed
  let allocating := Function.update ms.msAllocating (txgSlot txg) .create
  ASSERT (rangeTreeSpace (allocating (txgSlot txg)) = 0)
  -- `TXG_CLEAN(txg)` is `txg - 1`
  ASSERT (rangeTreeSpace (allocating (txgSlot (txg + 3))) = 0)
  ASSERT (rangeTreeSpace freeing = 0)
  .ok { ms with
    msFreeing := freeing
    msFreed := freed
    msCheckpointing := .create
    msAllocating := allocating }

def metaslabUnloadDelay : Nat := txgSize * 2

/-- The end of `metaslab_sync_done`: unload an idle metaslab. -/
def metaslabUnloadIdle (txg : Nat) : Except Fault Metaslab :=
  if ms.msLoaded ∧ ms.msSelectedTxg + metaslabUnloadDelay < txg then do
    VERIFY (rangeTreeSpace (ms.msAllocating (txgSlot (txg + 1))) = 0)
    VERIFY (rangeTreeSpace (ms.msAllocating (txgSlot (txg + 2))) = 0)
    if c.metaslabDebugUnload then .ok ms else .ok (metaslabUnload ms)
  else .ok ms

/-- `metaslab_sync_done` on the trees: the deferred frees return, and those of this txg are deferred, or
return at once. -/
def metaslabDefer (t : Fin 2) (deferAllowed : Bool) : Except Fault Metaslab := do
  let allocatable ← vacateToAllocatable ms (ms.msDefer t)
  let ms := { ms with msAllocatable := allocatable, msDefer := Function.update ms.msDefer t .create }
  if deferAllowed then
    let (freed, defer) ← rangeTreeSwap ms.msFreed (ms.msDefer t)
    .ok { ms with msFreed := freed, msDefer := Function.update ms.msDefer t defer }
  else
    let allocatable ← vacateToAllocatable ms ms.msFreed
    .ok { ms with msAllocatable := allocatable, msFreed := .create }

/-- `defer_delta`. -/
def metaslabDeferDelta (t : Fin 2) (deferAllowed : Bool) : Int :=
  if deferAllowed then (rangeTreeSpace ms.msFreed : Int) - rangeTreeSpace (ms.msDefer t)
  else - (rangeTreeSpace (ms.msDefer t) : Int)

/-- `metaslab_sync_done`, after `metaslab_load_wait`. -/
def metaslabSyncDone (txg : Nat) (deferAllowed : Bool) : Except Fault Metaslab := do
  ASSERT (rangeTreeSpace ms.msFreeing = 0)
  ASSERT (rangeTreeSpace ms.msCheckpointing = 0)
  let deferDelta := metaslabDeferDelta ms (deferSlot txg) deferAllowed
  let ms ← metaslabDefer ms (deferSlot txg) deferAllowed
  let ms := { ms with
    msReady := true
    msSm := ms.msSm.map spaceMapUpdate
    msDeferspace := ms.msDeferspace + deferDelta }
  ASSERT (0 ≤ ms.msDeferspace)
  ASSERT (ms.msDeferspace ≤ (c.smSize : Int))
  let ms ← metaslabUnloadIdle c ms txg
  ASSERT (rangeTreeSpace (ms.msAllocating (txgSlot txg)) = 0)
  ASSERT (rangeTreeSpace ms.msFreed = 0)
  .ok ms

end

end Unleashed.Zfs
