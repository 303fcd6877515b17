import Unleashed.Lib.BitField
import Unleashed.Lib.Drain

/-!
# Lists of block pointers (`bpobj.c`)

A bpobj is an array of block pointers and, in a second object, an array of the numbers of
sub-objects that belong to it. `bpobj_enqueue_subobj` hands a bpobj over to another one, which
makes it a tree: an object number is modelled by the object it names. Arrays are listed from
their last element on, the order in which `bpobj_iterate` visits and removes. Every object has
the header of the current version (`bpo_havecomp`, `bpo_havesubobj`).
-/

namespace Unleashed.Zfs

open Lib Lib.BitField

/-- `dva_t`. -/
structure Dva where
  (word0 word1 : Nat)
deriving DecidableEq, Repr

/-- `zio_cksum_t`. -/
structure ZioCksum where
  (word0 word1 word2 word3 : Nat)
deriving DecidableEq, Repr

/-- `blkptr_t`. -/
structure Blkptr where
  (blkDva0 blkDva1 blkDva2 : Dva)
  (blkProp blkPad0 blkPad1 blkPhysBirth blkBirth blkFill : Nat)
  blkCksum : ZioCksum
deriving DecidableEq, Repr

/-- `bzero` of a block pointer. -/
def Blkptr.zero : Blkptr := ⟨⟨0, 0⟩, ⟨0, 0⟩, ⟨0, 0⟩, 0, 0, 0, 0, 0, 0, ⟨0, 0, 0, 0⟩⟩

/-- What sizes depend on: `spa_deflate`, the ratios and `ot_metadata`. -/
structure Spa where
  spaDeflate : Bool
  vdevDeflateRatio : Nat → Nat
  otMetadata : Nat → Bool

section
variable (spa : Spa) (bp : Blkptr)

def dvaGetAsize (dva : Dva) : Nat := decode dva.word0 0 24 <<< 9

def dvaGetVdev (dva : Dva) : Nat := decode dva.word0 32 24

def bpIsEmbedded : Bool := decode bp.blkProp 39 1 ≠ 0

def bpGetDedup : Bool := decode bp.blkProp 62 1 ≠ 0

def bpIsHole : Bool := !bpIsEmbedded bp && decide (bp.blkDva0 = ⟨0, 0⟩)

/-- `BPE_GET_LSIZE` of embedded data, or the logical size. -/
def bpGetLsize : Nat :=
  if bpIsEmbedded bp then
    if decode bp.blkProp 40 8 = 0 then decode bp.blkProp 0 25 + 1 else 0
  else (decode bp.blkProp 0 16 + 1) <<< 9

def bpGetPsize : Nat := if bpIsEmbedded bp then 0 else (decode bp.blkProp 16 16 + 1) <<< 9

def dmuOtIsMetadata (ot : Nat) : Bool :=
  if ot &&& 0x80 ≠ 0 then ot &&& 0x40 ≠ 0 else spa.otMetadata ot

def bpIsMetadata : Bool := decode bp.blkProp 56 5 > 0 || dmuOtIsMetadata spa (decode bp.blkProp 48 8)

def bpGetUcsize : Nat := if bpIsMetadata spa bp then bpGetPsize bp else bpGetLsize bp

def bpGetNdvas : Nat :=
  if bpIsEmbedded bp then 0
  else ([bp.blkDva0, bp.blkDva1, bp.blkDva2].filter fun dva => dvaGetAsize dva ≠ 0).length

def dvaGetDsizeSync (dva : Dva) : Nat :=
  if dvaGetAsize dva ≠ 0 ∧ spa.spaDeflate then dvaGetAsize dva >>> 9 * spa.vdevDeflateRatio (dvaGetVdev dva)
  else dvaGetAsize dva

def bpGetDsizeSync : Nat :=
  (([bp.blkDva0, bp.blkDva1, bp.blkDva2].take (bpGetNdvas bp)).map (dvaGetDsizeSync spa)).sum

end

/-- What `bpobj_enqueue` stores of a block pointer. -/
def storedBp (bp : Blkptr) : Blkptr :=
  let stored :=
    if bpIsEmbedded bp then { Blkptr.zero with blkProp := bp.blkProp, blkBirth := bp.blkBirth }
    else if !bpGetDedup bp then { bp with blkCksum := ⟨0, 0, 0, 0⟩ }
    else bp
  { stored with blkFill := 0 }

/-- `bpobj_phys_t`. `bpoSubobjs` says whether it has a list of sub-objects. -/
structure BpobjPhys where
  (bpoBytes bpoComp bpoUncomp : Int)
  bpoSubobjs : Bool
  bpoNumSubobjs : Nat
deriving DecidableEq, Repr

/-- A bpobj with the objects it names. -/
inductive Bpobj where
  | mk (phys : BpobjPhys) (blkptrs : List Blkptr) (subobjs : List Bpobj)

def Bpobj.phys : Bpobj → BpobjPhys
  | mk phys _ _ => phys

def Bpobj.blkptrs : Bpobj → List Blkptr
  | mk _ blkptrs _ => blkptrs

def Bpobj.subobjs : Bpobj → List Bpobj
  | mk _ _ subobjs => subobjs

def bpobjAlloc : Bpobj := .mk ⟨0, 0, 0, false, 0⟩ [] []

def bpobjIsEmpty (bpo : Bpobj) : Bool := bpo.blkptrs.isEmpty && decide (bpo.phys.bpoNumSubobjs = 0)

/-- `bpobj_space`: used, compressed and uncompressed. -/
def bpobjSpace (bpo : Bpobj) : Int × Int × Int := (bpo.phys.bpoBytes, bpo.phys.bpoComp, bpo.phys.bpoUncomp)

/-- Take space out of the totals. -/
def BpobjPhys.release (phys : BpobjPhys) (used comp uncomp : Int) : BpobjPhys :=
  { phys with bpoBytes := phys.bpoBytes - used, bpoComp := phys.bpoComp - comp, bpoUncomp := phys.bpoUncomp - uncomp }

/-- Add space to the totals. -/
def BpobjPhys.charge (phys : BpobjPhys) (used comp uncomp : Int) : BpobjPhys :=
  { phys with bpoBytes := phys.bpoBytes + used, bpoComp := phys.bpoComp + comp, bpoUncomp := phys.bpoUncomp + uncomp }

def bpobjEnqueue (spa : Spa) (bpo : Bpobj) (bp : Blkptr) : Except Fault Bpobj := do
  ASSERT (bpIsHole bp = false)
  let phys := bpo.phys.charge (bpGetDsizeSync spa bp) (bpGetPsize bp) (bpGetUcsize spa bp)
  .ok (.mk phys (storedBp bp :: bpo.blkptrs) bpo.subobjs)

/-- Sub-objects a block (`SPA_OLD_MAXBLOCKSIZE / sizeof (uint64_t)`). -/
def subobjEpb : Nat := 2 ^ 17 / 8

/-- `bpobj_enqueue_subobj`; `oneBlock` is `doi_max_offset == doi_data_block_size` of the list. -/
def bpobjEnqueueSubobj (bpo sub : Bpobj) (oneBlock : Bool) : Except Fault Bpobj :=
  let (used, comp, uncomp) := bpobjSpace sub
  -- `bpobj_free` of the sub-object
  if bpobjIsEmpty sub then .ok bpo
  else do
    let phys := { bpo.phys with bpoSubobjs := true, bpoNumSubobjs := bpo.phys.bpoNumSubobjs + 1 }
    let (phys, subobjs) ←
      if sub.phys.bpoSubobjs && oneBlock then do
        let numsubsub := sub.phys.bpoNumSubobjs
        VERIFY (numsubsub * 8 ≤ subobjEpb * 8)
        .ok ({ phys with bpoNumSubobjs := phys.bpoNumSubobjs + numsubsub },
          sub.subobjs ++ .mk { sub.phys with bpoSubobjs := false } sub.blkptrs [] :: bpo.subobjs)
      else .ok (phys, sub :: bpo.subobjs)
    .ok (.mk (phys.charge used comp uncomp) bpo.blkptrs subobjs)

section
variable {σ : Type} (spa : Spa) (func : σ → Blkptr → Except Fault (σ × Nat))

/-- The first loop of `bpobj_iterate_impl`: what is left, the callback's state and the error. -/
def iterateBlkptrs : BpobjPhys → List Blkptr → σ → Except Fault ((BpobjPhys × List Blkptr) × σ × Nat)
  | phys, [], arg => .ok ((phys, []), arg, 0)
  | phys, bp :: bps, arg => do
    let (arg, err) ← func arg bp
    if err ≠ 0 then .ok ((phys, bp :: bps), arg, err)
    else do
      let phys := phys.release (bpGetDsizeSync spa bp) (bpGetPsize bp) (bpGetUcsize spa bp)
      ASSERT (phys.bpoBytes ≥ 0)
      iterateBlkptrs phys bps arg

/-- `out:` of `bpobj_iterate_impl`. -/
def iterateOut (bpo : Bpobj) (arg : σ) (err : Nat) : Except Fault (Bpobj × σ × Nat) := do
  if bpobjIsEmpty bpo then do
    ASSERT (bpo.phys.bpoBytes = 0)
    ASSERT (bpo.phys.bpoComp = 0)
    ASSERT (bpo.phys.bpoUncomp = 0)
  .ok (bpo, arg, err)

mutual

/-- `bpobj_iterate_impl` that frees. -/
def bpobjIterateImpl : Bpobj → σ → Except Fault (Bpobj × σ × Nat)
  | .mk phys bps subs, arg => do
    let ((phys, bps), arg, err) ← iterateBlkptrs spa func phys bps arg
    if err ≠ 0 ∨ phys.bpoSubobjs = false then iterateOut (.mk phys bps subs) arg err
    else do
      let ((phys, subs), arg, err) ← iterateSubobjs phys subs arg
      iterateOut (.mk phys bps subs) arg err

/-- The second loop of `bpobj_iterate_impl`. -/
def iterateSubobjs : BpobjPhys → List Bpobj → σ → Except Fault ((BpobjPhys × List Bpobj) × σ × Nat)
  | phys, [], arg => .ok ((phys, []), arg, 0)
  | phys, sublist :: subs, arg => do
    let (usedBefore, compBefore, uncompBefore) := bpobjSpace sublist
    let (sublist, arg, err) ← bpobjIterateImpl sublist arg
    let (usedAfter, compAfter, uncompAfter) := bpobjSpace sublist
    let phys := phys.release (usedBefore - usedAfter) (compBefore - compAfter) (uncompBefore - uncompAfter)
    ASSERT (phys.bpoBytes ≥ 0)
    if err ≠ 0 then .ok ((phys, sublist :: subs), arg, err)
    else do
      ASSERT (phys.bpoNumSubobjs > 0)
      iterateSubobjs { phys with bpoNumSubobjs := phys.bpoNumSubobjs - 1 } subs arg

end

def bpobjIterate (bpo : Bpobj) (arg : σ) : Except Fault (Bpobj × σ × Nat) := bpobjIterateImpl spa func bpo arg

end

end Unleashed.Zfs
