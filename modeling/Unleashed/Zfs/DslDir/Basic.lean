import Unleashed.Lib.Fault

/-!
# Space accounting of dataset directories (`dsl_dir.c`)

Each directory counts the space used by it and below it, broken down by what uses it, and passes every change on to
its parent. A reservation counts for the parent as far as it is not used. The 64-bit counters and changes are integers
here: the operations that are allowed keep every counter below `2 ^ 63`, where the arithmetic of the source is exact.
-/

namespace Unleashed.Zfs

open Lib Function

/-- `dd_used_t`. -/
inductive DdUsed where
  | head
  | snap
  | child
  | childRsrv
  | refrsrv
deriving DecidableEq, Repr

/-- The counters of `dsl_dir_phys_t`; `usedBreakdown` is DD_FLAG_USED_BREAKDOWN. -/
structure DslDirPhys where
  (ddUsedBytes ddCompressedBytes ddUncompressedBytes ddReserved : Int)
  usedBreakdown : Bool
  ddUsedBreakdown : DdUsed → Int

/-- The sum of `dd_used_breakdown`. -/
def DslDirPhys.breakdownSum (phys : DslDirPhys) : Int :=
  phys.ddUsedBreakdown .head + phys.ddUsedBreakdown .snap + phys.ddUsedBreakdown .child +
    phys.ddUsedBreakdown .childRsrv + phys.ddUsedBreakdown .refrsrv

/-- `dd_parent` of the directories of a pool; nothing is its own ancestor. -/
structure DirTree (D : Type) where
  ddParent : D → Option D
  wf : WellFounded fun p d => ddParent d = some p

/-- A directory and the ones below it. -/
def DirTree.Below {D : Type} (tree : DirTree D) (d top : D) : Prop :=
  Relation.ReflTransGen (fun d p => tree.ddParent d = some p) d top

def parentDelta (phys : DslDirPhys) (used delta : Int) : Int :=
  let oldAccounted := max used phys.ddReserved
  let newAccounted := max (used + delta) phys.ddReserved
  newAccounted - oldAccounted

/-- What `dsl_dir_diduse_space` does to the directory itself. -/
def chargeDir (phys : DslDirPhys) (type : DdUsed) (used compressed uncompressed : Int) : Except Fault DslDirPhys := do
  ASSERT (used ≥ 0 ∨ phys.ddUsedBytes ≥ -used)
  ASSERT (compressed ≥ 0 ∨ phys.ddCompressedBytes ≥ -compressed)
  ASSERT (uncompressed ≥ 0 ∨ phys.ddUncompressedBytes ≥ -uncompressed)
  let phys := { phys with
    ddUsedBytes := phys.ddUsedBytes + used
    ddUncompressedBytes := phys.ddUncompressedBytes + uncompressed
    ddCompressedBytes := phys.ddCompressedBytes + compressed }
  if phys.usedBreakdown then do
    ASSERT (used > 0 ∨ phys.ddUsedBreakdown type ≥ -used)
    let phys := { phys with
      ddUsedBreakdown := update phys.ddUsedBreakdown type (phys.ddUsedBreakdown type + used) }
    ASSERT (phys.breakdownSum = phys.ddUsedBytes)
    .ok phys
  else .ok phys

def dslDirTransferSpace (phys : DslDirPhys) (delta : Int) (oldtype newtype : DdUsed) : Except Fault DslDirPhys :=
  if delta = 0 ∨ phys.usedBreakdown = false then .ok phys
  else do
    ASSERT (if delta > 0 then phys.ddUsedBreakdown oldtype ≥ delta else phys.ddUsedBreakdown newtype ≥ -delta)
    ASSERT (phys.ddUsedBytes ≥ |delta|)
    let breakdown := update phys.ddUsedBreakdown oldtype (phys.ddUsedBreakdown oldtype - delta)
    .ok { phys with ddUsedBreakdown := update breakdown newtype (breakdown newtype + delta) }

section
variable {D : Type} [DecidableEq D] (tree : DirTree D)

def dslDirDiduseSpace (dirs : D → DslDirPhys) (dd : D) (type : DdUsed) (used compressed uncompressed : Int) :
    Except Fault (D → DslDirPhys) := do
  let accountedDelta := parentDelta (dirs dd) (dirs dd).ddUsedBytes used
  let phys ← chargeDir (dirs dd) type used compressed uncompressed
  let dirs := update dirs dd phys
  match _h : tree.ddParent dd with
  | none => .ok dirs
  | some parent => do
    let dirs ← dslDirDiduseSpace dirs parent .child accountedDelta compressed uncompressed
    let phys ← dslDirTransferSpace (dirs parent) (used - accountedDelta) .childRsrv .child
    .ok (update dirs parent phys)
termination_by tree.wf.wrap dd
decreasing_by exact ‹tree.ddParent dd = some parent›

def dslDirSetReservationSyncImpl (dirs : D → DslDirPhys) (dd : D) (value : Int) : Except Fault (D → DslDirPhys) :=
  let used := (dirs dd).ddUsedBytes
  let delta := max used value - max used (dirs dd).ddReserved
  let dirs := update dirs dd { dirs dd with ddReserved := value }
  match tree.ddParent dd with
  | none => .ok dirs
  | some parent => dslDirDiduseSpace tree dirs parent .childRsrv delta 0 0

/-- The accounting of `dsl_dir_rename_sync` from one parent to another. -/
def renameSpace (dirs : D → DslDirPhys) (dd parent newparent : D) : Except Fault (D → DslDirPhys) :=
  if newparent = parent then .ok dirs
  else do
    let dirs ← dslDirDiduseSpace tree dirs parent .child (-(dirs dd).ddUsedBytes) (-(dirs dd).ddCompressedBytes)
      (-(dirs dd).ddUncompressedBytes)
    let dirs ← dslDirDiduseSpace tree dirs newparent .child (dirs dd).ddUsedBytes (dirs dd).ddCompressedBytes
      (dirs dd).ddUncompressedBytes
    if (dirs dd).ddReserved > (dirs dd).ddUsedBytes then do
      let unusedRsrv := (dirs dd).ddReserved - (dirs dd).ddUsedBytes
      let dirs ← dslDirDiduseSpace tree dirs parent .childRsrv (-unusedRsrv) 0 0
      dslDirDiduseSpace tree dirs newparent .childRsrv unusedRsrv 0 0
    else .ok dirs

variable {tree}

/-- The tree without a link to a parent, or with another parent that is not below. -/
lemma wf_update {dd : D} {newparent : Option D} (hnew : ∀ p, newparent = some p → ¬ tree.Below p dd) :
    WellFounded fun p d => update tree.ddParent dd newparent d = some p := by
  -- first the directories that are not below it, whose ancestors did not change
  have haway : ∀ d, ¬ tree.Below d dd → Acc (fun p d => update tree.ddParent dd newparent d = some p) d := by
    intro d
    induction d using tree.wf.induction with
    | _ d ih =>
      intro hd
      refine ⟨_, fun p hp => ?_⟩
      have hne : d ≠ dd := fun h => hd (h ▸ .refl)
      rw [update_of_ne hne] at hp
      exact ih p hp fun hbelow => hd (.head hp hbelow)
  refine ⟨fun d => ?_⟩
  induction d using tree.wf.induction with
  | _ d ih =>
    refine ⟨_, fun p hp => ?_⟩
    rcases eq_or_ne d dd with rfl | hne
    · rw [update_self] at hp
      exact haway p (hnew p hp)
    · rw [update_of_ne hne] at hp
      exact ih p hp

/-- `dsl_dir_rename_sync` to a parent that is not below the directory. -/
def dslDirRenameSync (tree : DirTree D) (dirs : D → DslDirPhys) (dd newparent : D) (hnew : ¬ tree.Below newparent dd) :
    Except Fault (DirTree D × (D → DslDirPhys)) :=
  match tree.ddParent dd with
  | none => .error .bounds
  | some parent => do
    let dirs ← renameSpace tree dirs dd parent newparent
    .ok (⟨update tree.ddParent dd (some newparent), wf_update fun _ h => Option.some.inj h ▸ hnew⟩, dirs)

end

end Unleashed.Zfs
