import Unleashed.Zfs.Bpobj.Basic

/-!
# Deadlists (`dsl_deadlist.c`)

A deadlist sorts the block pointers of a dataset by birth into one bpobj for each key: the one under `dle_mintxg` has
the births after it, up to the next key. The tree is the list of entries by key. A key without blocks has the pool's
empty bpobj, `none` here.
-/

namespace Unleashed.Zfs

open Lib

/-- `dsl_deadlist_entry_t`. -/
structure DslDeadlistEntry where
  dleMintxg : Nat
  dleBpobj : Option Bpobj

/-- `dsl_deadlist_t` with its `dsl_deadlist_phys_t`. -/
structure DslDeadlist where
  (dlUsed dlComp dlUncomp : Int)
  dlTree : List DslDeadlistEntry

/-- `dsl_deadlist_alloc`, and what `dsl_deadlist_merge` leaves of its source. -/
def dslDeadlistAlloc : DslDeadlist := ⟨0, 0, 0, []⟩

def DslDeadlist.charge (dl : DslDeadlist) (used comp uncomp : Int) : DslDeadlist :=
  { dl with dlUsed := dl.dlUsed + used, dlComp := dl.dlComp + comp, dlUncomp := dl.dlUncomp + uncomp }

def DslDeadlist.release (dl : DslDeadlist) (used comp uncomp : Int) : DslDeadlist :=
  { dl with dlUsed := dl.dlUsed - used, dlComp := dl.dlComp - comp, dlUncomp := dl.dlUncomp - uncomp }

/-- `avl_find` of a key: the entries below it, its own and those above. -/
def dlTreeFind (tree : List DslDeadlistEntry) (key : Nat) :
    List DslDeadlistEntry × Option DslDeadlistEntry × List DslDeadlistEntry :=
  let (before, rest) := tree.span fun dle => decide (dle.dleMintxg < key)
  match rest with
  | [] => (before, none, [])
  | dle :: after => if dle.dleMintxg = key then (before, some dle, after) else (before, none, dle :: after)

/-- Change the last entry of `before` (AVL_PREV and AVL_BEFORE), else a null pointer is followed. -/
def onPrevious (before : List DslDeadlistEntry) (change : DslDeadlistEntry → Except Fault DslDeadlistEntry) :
    Except Fault (List DslDeadlistEntry) :=
  match before with
  | [] => .error .bounds
  | [dle] => do
    let dle ← change dle
    .ok [dle]
  | dle :: before => do
    let before ← onPrevious before change
    .ok (dle :: before)

section
variable (spa : Spa) (oneBlock : Nat → Bpobj → Bool)

/-- `bpobj_space` of an entry. -/
def dleSpace (dle : DslDeadlistEntry) : Int × Int × Int := bpobjSpace (dle.dleBpobj.getD bpobjAlloc)

def dleEnqueue (dle : DslDeadlistEntry) (bp : Blkptr) : Except Fault DslDeadlistEntry := do
  let bpo ← bpobjEnqueue spa (dle.dleBpobj.getD bpobjAlloc) bp
  .ok { dle with dleBpobj := some bpo }

/-- `bpobj_enqueue_subobj` of the object under `key`, perhaps the empty one. -/
def bpobjEnqueueObj (bpo : Bpobj) (key : Nat) : (obj : Option Bpobj) → Except Fault Bpobj
  | none => .ok bpo
  | some obj => bpobjEnqueueSubobj bpo obj (oneBlock key obj)

def dleEnqueueSubobj (dle : DslDeadlistEntry) (key : Nat) (obj : Option Bpobj) : Except Fault DslDeadlistEntry :=
  match dle.dleBpobj with
  | some bpo => do
    let bpo ← bpobjEnqueueObj oneBlock bpo key obj
    .ok { dle with dleBpobj := some bpo }
  | none => .ok { dle with dleBpobj := obj }

def dslDeadlistInsert (dl : DslDeadlist) (bp : Blkptr) : Except Fault DslDeadlist := do
  let dl := dl.charge (bpGetDsizeSync spa bp) (bpGetPsize bp) (bpGetUcsize spa bp)
  let (before, dle, after) := dlTreeFind dl.dlTree bp.blkBirth
  let before ← onPrevious before fun dle => dleEnqueue spa dle bp
  .ok { dl with dlTree := before ++ (dle.toList ++ after) }

/-- `dsl_deadlist_add_key`; `avl_add` panics if the key is there. -/
def dslDeadlistAddKey (dl : DslDeadlist) (mintxg : Nat) : Except Fault DslDeadlist :=
  match dlTreeFind dl.dlTree mintxg with
  | (before, none, after) => .ok { dl with dlTree := before ++ ⟨mintxg, none⟩ :: after }
  | (_, some _, _) => .error .verify

def dslDeadlistRemoveKey (dl : DslDeadlist) (mintxg : Nat) : Except Fault DslDeadlist :=
  match dlTreeFind dl.dlTree mintxg with
  | (_, none, _) => .error .bounds
  | (before, some dle, after) => do
    let before ← onPrevious before fun prev => dleEnqueueSubobj oneBlock prev dle.dleMintxg dle.dleBpobj
    .ok { dl with dlTree := before ++ after }

def dslDeadlistInsertBpobj (dl : DslDeadlist) (obj : Option Bpobj) (birth : Nat) : Except Fault DslDeadlist := do
  let (used, comp, uncomp) := bpobjSpace (obj.getD bpobjAlloc)
  let dl := dl.charge used comp uncomp
  match dlTreeFind dl.dlTree birth with
  | (before, some dle, after) => do
    let dle ← dleEnqueueSubobj oneBlock dle birth obj
    .ok { dl with dlTree := before ++ dle :: after }
  | (before, none, after) => do
    let before ← onPrevious before fun dle => dleEnqueueSubobj oneBlock dle birth obj
    .ok { dl with dlTree := before ++ after }

/-- `dsl_deadlist_merge`, the entries of the source in ZAP order. -/
def dslDeadlistMerge (dl : DslDeadlist) : List DslDeadlistEntry → Except Fault DslDeadlist
  | [] => .ok dl
  | za :: zas => do
    let dl ← dslDeadlistInsertBpobj oneBlock dl za.dleBpobj za.dleMintxg
    dslDeadlistMerge dl zas

/-- The loop of `dsl_deadlist_move_bpobj`. -/
def moveLoop (dl : DslDeadlist) (bpo : Bpobj) : List DslDeadlistEntry → Except Fault (DslDeadlist × Bpobj)
  | [] => .ok (dl, bpo)
  | dle :: dles => do
    let bpo ← bpobjEnqueueObj oneBlock bpo dle.dleMintxg dle.dleBpobj
    let (used, comp, uncomp) := dleSpace dle
    ASSERT (dl.dlUsed ≥ used)
    ASSERT (dl.dlComp ≥ comp)
    ASSERT (dl.dlUncomp ≥ uncomp)
    moveLoop (dl.release used comp uncomp) bpo dles

def dslDeadlistMoveBpobj (dl : DslDeadlist) (bpo : Bpobj) (mintxg : Nat) : Except Fault (DslDeadlist × Bpobj) :=
  let (before, dle, after) := dlTreeFind dl.dlTree mintxg
  moveLoop oneBlock { dl with dlTree := before } bpo (dle.toList ++ after)

/-- The loop of `dsl_deadlist_space_range`. -/
def spaceLoop (maxtxg : Nat) : List DslDeadlistEntry → Int × Int × Int
  | [] => (0, 0, 0)
  | dle :: dles => if dle.dleMintxg < maxtxg then dleSpace dle + spaceLoop maxtxg dles else (0, 0, 0)

def dslDeadlistSpaceRange (dl : DslDeadlist) (mintxg maxtxg : Nat) : Except Fault (Int × Int × Int) :=
  let (_, dle, after) := dlTreeFind dl.dlTree mintxg
  match dle with
  | some dle => .ok (spaceLoop maxtxg (dle :: after))
  | none => do
    ASSERT (after.isEmpty = true)
    .ok (0, 0, 0)

end

end Unleashed.Zfs
