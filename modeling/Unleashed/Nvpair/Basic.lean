import Unleashed.Lib.Fault
import Unleashed.Lib.Buckets

/-!
# Name/value lists (`nvpair.c`)

The pairs of an nvlist are on a doubly linked list, in the order in which they were added, and in
the buckets of a hash table by name. The table is there from the first pair on; it doubles and
halves with the number of pairs. A pair is its buffer: the address tells two pairs apart.

The value of a pair is of an arbitrary type. What `nvlist_add_common` checks of it, and the copy
that it makes of it, are parameters.
-/

namespace Unleashed.Nvpair

open Lib

/-- A C string without its terminator. -/
abbrev NvName := List (BitVec 8)

/-- `data_type_t`, the types of pairs. -/
inductive DataType where
  | boolean | byte | int16 | uint16 | int32 | uint32 | int64 | uint64 | string
  | byteArray | int16Array | uint16Array | int32Array | uint32Array | int64Array | uint64Array | stringArray
  | hrtime | nvlist | nvlistArray | booleanValue | int8 | uint8 | booleanArray | int8Array | uint8Array | double
deriving DecidableEq, Repr

/-- The errors that are returned. -/
inductive NvErr where
  | ENOENT
  | ENOMEM
  | EINVAL
deriving DecidableEq, Repr

/-- `nvl_nvflag`: `NV_UNIQUE_NAME` and `NV_UNIQUE_NAME_TYPE`. -/
structure NvFlag where
  (uniqueName uniqueNameType : Bool)
deriving DecidableEq, Repr

/-- `i_nvp_t` with its `nvpair_t`, at its address. -/
structure NvPair (V : Type) where
  addr : Nat
  name : NvName
  type : DataType
  nelem : Nat
  value : V
deriving DecidableEq

/-- `nvlist_t` with its `nvpriv_t`. -/
structure Nvlist (V : Type) where
  nvlNvflag : NvFlag
  nvpList : List (NvPair V)
  nvpHashtable : Option (Nat → List (NvPair V))
  (nvpNbuckets nvpNentries : Nat)

def nvlistHashtableInitSize : Nat := 16

def uint32 (n : Nat) : Nat := n % 2 ^ 32

/-- A byte of a name in `nvt_hash`; `char` is signed. -/
def nvtHashByte (hval : BitVec 32) (c : BitVec 8) : BitVec 32 :=
  let hval := (hval <<< 4) + c.signExtend 32
  let g := hval &&& 0xf0000000#32
  let hval := if g ≠ 0 then hval ^^^ (g >>> 24) else hval
  hval &&& ~~~g

def nvtHash (name : NvName) : BitVec 32 := name.foldl nvtHashByte 0

/-- The bucket of a name. -/
def nvtIndex (nbuckets : Nat) (name : NvName) : Nat := (nvtHash name).toNat &&& (nbuckets - 1)

section
variable {V : Type}

/-- `nvt_lookup_name_type`; no type is `DATA_TYPE_DONTCARE`. -/
def nvtLookupNameType (nvl : Nvlist V) (name : NvName) (type : Option DataType) : Except Fault (Option (NvPair V)) :=
  match nvl.nvpHashtable with
  | none => do
    ASSERT (nvl.nvpList.isEmpty = true)
    ASSERT (nvl.nvpNbuckets = 0)
    ASSERT (nvl.nvpNentries = 0)
    .ok none
  | some tab => do
    ASSERT (nvl.nvpNbuckets ≠ 0)
    let index := nvtIndex nvl.nvpNbuckets name
    ASSERT (index < nvl.nvpNbuckets)
    .ok ((tab index).find? fun e => decide (e.name = name ∧ (type = none ∨ type = some e.type)))

def nvtLookupName (nvl : Nvlist V) (name : NvName) : Except Fault (Option (NvPair V)) := nvtLookupNameType nvl name none

/-- The migration of an entry in `nvt_resize`, and the entries so far. -/
def nvtMigrate (newSize : Nat) (acc : (Nat → List (NvPair V)) × Nat) (e : NvPair V) : (Nat → List (NvPair V)) × Nat :=
  (pushBucket (fun e => nvtIndex newSize e.name) acc.1 e, uint32 (acc.2 + 1))

/-- `nvt_resize`; `alloc` is whether the new table can be allocated. -/
def nvtResize (nvl : Nvlist V) (newSize : Nat) (alloc : Bool) : Except Fault (Nvlist V × Option NvErr) :=
  match nvl.nvpHashtable with
  | none => .error .bounds
  | some tab => do
    ASSERT (newSize &&& (newSize - 1) = 0)
    if alloc = false then .ok (nvl, some .ENOMEM)
    else do
      let (newTab, nentries) := (List.range nvl.nvpNbuckets).foldl (fun acc i => (tab i).foldl (nvtMigrate newSize) acc)
        (fun _ => [], 0)
      ASSERT (nentries = nvl.nvpNentries)
      .ok ({ nvl with nvpHashtable := some newTab, nvpNbuckets := newSize, nvpNentries := nentries }, none)

def nvtNeedsToshrink (nvl : Nvlist V) : Except Fault Bool := do
  ASSERT (nvl.nvpNbuckets ≥ nvlistHashtableInitSize)
  if nvl.nvpNbuckets = nvlistHashtableInitSize then .ok false
  else .ok (decide (nvl.nvpNentries ≤ nvl.nvpNbuckets >>> 2))

def nvtShrink (nvl : Nvlist V) (alloc : Bool) : Except Fault (Nvlist V × Option NvErr) := do
  ASSERT (nvl.nvpNbuckets ≥ nvlistHashtableInitSize)
  nvtResize nvl (nvl.nvpNbuckets >>> 1) alloc

/-- The table that `nvt_remove_nvpair` looks in. -/
def nvtShrinkFirst (nvl : Nvlist V) (alloc : Bool) : Except Fault (Nvlist V × Option NvErr) := do
  if ← nvtNeedsToshrink nvl then nvtShrink nvl alloc else .ok (nvl, none)

end

section
variable {V : Type}

def nvpBufLink (nvl : Nvlist V) (nvp : NvPair V) : Nvlist V := { nvl with nvpList := nvl.nvpList ++ [nvp] }

variable (check : DataType → Nat → V → Bool) (copy : V → Option V)

end

end Unleashed.Nvpair
