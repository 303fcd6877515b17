import Unleashed.Zfs.Metaslab.Basic

/-!
# Runs of a metaslab

The operations on one metaslab in the order that the SPA enforces. One txg syncs at a time; `spa_sync` makes any
number of passes over it, each with at most one `metaslab_sync`, and `metaslab_sync_done` follows. Allocations are
made for the txg that syncs and the two after it. The points at which `ms_lock` is not held are states of the run.
-/

namespace Unleashed.Zfs

open Lib

/-- Where a `metaslab_sync` stands while it does not hold `ms_lock`. -/
inductive SyncPoint
  /-- The space map exists; next, choose whether to condense. -/
  | branch
  /-- Not condensing: next, write the allocations of the txg. -/
  | writeAlloc
  /-- Not condensing: next, write the frees of the pass. -/
  | writeFree
  /-- Condensing: next, truncate. -/
  | truncate (condenseTree : RangeTree)
  /-- Condensing: next, write the condense tree as allocated. -/
  | writeCondensed (condenseTree : RangeTree)
  /-- Condensing: next, write `ms_allocatable` as free. -/
  | writeAllocatable
  /-- Next, finish the pass. -/
  | finish

/-- What `spa_sync` is doing. `listed` metaslabs are visited by `vdev_sync_done`. -/
inductive SpaPhase
  | idle
  | pass (spaSyncPass : Nat) (listed : Bool)
  | metaslabSync (spaSyncPass : Nat) (at_ : SyncPoint)

/-- A metaslab and the SPA's place among the txgs; the one after `lastSynced` syncs. -/
structure MetaslabRun where
  ms : Metaslab
  lastSynced : Nat
  phase : SpaPhase

/-- `spa_syncing_txg`, which keeps its value between two syncs. -/
def MetaslabRun.spaSyncingTxg (s : MetaslabRun) : Nat :=
  match s.phase with
  | .idle => s.lastSynced
  | _ => s.lastSynced + 1

/-- An operation on the metaslab, or a step of the SPA. -/
inductive MetaslabOp
  /-- `metaslab_group_alloc_normal` with this metaslab. -/
  | alloc (size txg : Nat) (hit : Nat → Nat)
  | unalloc (offset size txg : Nat)
  | free (offset asize : Nat) (checkpoint : Bool)
  /-- `ms_condense_wanted` is set. -/
  | condenseWanted
  /-- `metaslab_preload` after the load. -/
  | preload
  | loadBegin
  | loadRead (hold : Nat → Nat)
  | loadEnd
  /-- `spa_sync` of the next txg begins. -/
  | spaSync
  /-- A pass in which the metaslab is not dirty. -/
  | nextPass
  | syncBegin
  /-- The choice at `SyncPoint.branch`; `shouldCondense` is `metaslab_should_condense`. -/
  | syncBranch (shouldCondense : Bool)
  | syncWrite (env : WriteEnv)
  /-- The txg is synced; `deferAllowed` is computed from the free space. -/
  | syncDone (deferAllowed : Bool)

section
variable (c : MetaslabConfig) (s : MetaslabRun)

/-- The step at a point where `metaslab_sync` does not hold the lock. -/
def execSyncWrite (n : Nat) (env : WriteEnv) : SyncPoint → Except Fault MetaslabRun
  | .branch => .ok s
  | .writeAlloc => do
    let ms ← metaslabWrite s.ms (s.ms.msAllocating (txgSlot (s.lastSynced + 1))) .alloc env
    .ok { s with ms, phase := .metaslabSync n .writeFree }
  | .writeFree => do
    let ms ← metaslabWrite s.ms s.ms.msFreeing .free env
    .ok { s with ms, phase := .metaslabSync n .finish }
  | .truncate condenseTree =>
    .ok { s with ms := metaslabTruncate c s.ms, phase := .metaslabSync n (.writeCondensed condenseTree) }
  | .writeCondensed condenseTree => do
    let ms ← metaslabWrite s.ms condenseTree .alloc env
    .ok { s with ms, phase := .metaslabSync n .writeAllocatable }
  | .writeAllocatable => do
    let ms ← metaslabWrite s.ms s.ms.msAllocatable .free env
    .ok { s with ms := { ms with msCondensing := false }, phase := .metaslabSync n .finish }
  | .finish => do
    let ms ← metaslabSyncEnd s.ms (s.lastSynced + 1) n
    .ok { s with ms, phase := .pass (n + 1) true }

/-- One operation of the run. -/
def MetaslabRun.exec : MetaslabOp → Except Fault MetaslabRun
  | .alloc size txg hit => do
    let (ms, _) ← metaslabBlockAlloc c { s.ms with msSelectedTxg := txg } size txg s.spaSyncingTxg hit
    .ok { s with ms }
  | .unalloc offset size txg => do
    let ms ← metaslabUnallocDva c s.ms offset size txg
    .ok { s with ms }
  | .free offset asize checkpoint => do
    let ms ← metaslabFreeConcrete c s.ms offset asize checkpoint
    .ok { s with ms }
  | .condenseWanted => .ok { s with ms := { s.ms with msCondenseWanted := true } }
  | .preload => .ok { s with ms := { s.ms with msSelectedTxg := s.spaSyncingTxg } }
  | .loadBegin => do
    let ms ← metaslabLoadBegin s.ms
    .ok { s with ms }
  | .loadRead hold => do
    let ms ← metaslabLoadRead c s.ms hold
    .ok { s with ms }
  | .loadEnd =>
    match s.ms.msLoading with
    | .read error => do
      let ms ← metaslabLoadEnd s.ms error
      .ok { s with ms }
    | _ => .ok s
  | .spaSync => .ok { s with phase := .pass 1 false }
  | .nextPass =>
    match s.phase with
    | .pass n listed => .ok { s with phase := .pass (n + 1) listed }
    | _ => .ok s
  | .syncBegin =>
    match s.phase with
    | .pass n _ =>
      let (ms, dirty) := metaslabSyncBegin c s.ms (s.lastSynced + 1)
      .ok { s with ms, phase := if dirty then .metaslabSync n .branch else .pass (n + 1) true }
    | _ => .ok s
  | .syncBranch shouldCondense =>
    match s.phase with
    | .metaslabSync n .branch =>
      if s.ms.msLoaded ∧ shouldCondense then do
        let condenseTree ← metaslabCondenseTree c s.ms (s.lastSynced + 1)
        .ok { s with
          ms := { s.ms with msCondenseWanted := false, msCondensing := true }
          phase := .metaslabSync n (.truncate condenseTree) }
      else .ok { s with phase := .metaslabSync n .writeAlloc }
    | _ => .ok s
  | .syncWrite env =>
    match s.phase with
    | .metaslabSync n at_ => execSyncWrite c s n env at_
    | _ => .ok s
  | .syncDone deferAllowed =>
    match s.phase with
    | .pass _ true => do
      let ms ← metaslabSyncDone c s.ms (s.lastSynced + 1) deferAllowed
      .ok { ms, lastSynced := s.lastSynced + 1, phase := .idle }
    | _ => .ok { s with lastSynced := s.lastSynced + 1, phase := .idle }

/-- The set of offsets that replaying the whole space map leaves allocated. -/
def Metaslab.replaySet (ms : Metaslab) : Finset Nat :=
  match ms.msSm with
  | none => ∅
  | some sm =>
    match spaceMapLoad (spaceMapUpdate sm) .create .alloc (fun _ => 0) with
    | .ok (rt, _) => rt.cover
    | .error _ => ∅

/-- The tree of the allocations of the txg that syncs. -/
def MetaslabRun.alloctree (s : MetaslabRun) : RangeTree := s.ms.msAllocating (txgSlot (s.lastSynced + 1))

/-- The offsets allocated on disk: the space map without what `metaslab_sync` has just written. -/
def MetaslabRun.stillAllocated (s : MetaslabRun) : Finset Nat :=
  match s.phase with
  | .metaslabSync _ .writeFree => s.ms.replaySet \ s.alloctree.cover
  | .metaslabSync _ .finish => (s.ms.replaySet ∪ s.ms.msFreeing.cover) \ s.alloctree.cover
  | .metaslabSync _ (.writeCondensed condenseTree) =>
    (condenseTree.cover ∪ s.ms.msFreeing.cover) \ (s.ms.msAllocatable.cover ∪ s.alloctree.cover)
  | .metaslabSync _ .writeAllocatable =>
    (s.ms.replaySet ∪ s.ms.msFreeing.cover) \ (s.ms.msAllocatable.cover ∪ s.alloctree.cover)
  | _ => s.ms.replaySet

/-- A non-empty range of whole units. -/
structure UnitRange (start size : Nat) : Prop where
  pos : 0 < size
  lt : size < 2 ^ 64
  start_dvd : 2 ^ c.smShift ∣ start
  size_dvd : 2 ^ c.smShift ∣ size

/-- A request for which no sum of the allocators wraps, and the shift of `metaslab_ndf_alloc` is defined. -/
structure Request (size : Nat) : Prop extends UnitRange c 0 size where
  sums : c.smStart + c.smSize + 2 * size ≤ 2 ^ 64
  clump : c.mcOps = .ndf → highbit64 size + c.tun.metaslabNdfClumpShift < 64

/-- The txgs with allocations: the syncing one, except during `metaslab_sync`, and the two after it. -/
structure MetaslabRun.TxgOpen (txg : Nat) : Prop where
  gt : s.lastSynced < txg
  le : txg ≤ s.lastSynced + txgConcurrentStates
  quiet : ∀ n at_, s.phase = .metaslabSync n at_ → txg ≠ s.lastSynced + 1

/-- When the SPA lets an operation happen. -/
def MetaslabRun.Enabled : MetaslabOp → Prop
  | .alloc size txg _ =>
    s.ms.msReady = true ∧ s.ms.msLoaded = true ∧ s.ms.msCondensing = false ∧ Request c size ∧ s.TxgOpen txg
  | .unalloc offset size txg =>
    UnitRange c offset size ∧ s.TxgOpen txg ∧ Finset.Ico offset (offset + size) ⊆ (s.ms.msAllocating (txgSlot txg)).cover \
        (s.ms.msFreeing.cover ∪ s.ms.msCheckpointing.cover)
  | .free offset asize _ =>
    -- what is allocated, on disk or in the txg that syncs, and not already freed
    (∃ n listed, s.phase = .pass n listed) ∧ s.ms.msReady = true ∧ UnitRange c offset asize ∧
      Finset.Ico offset (offset + asize) ⊆ (s.ms.replaySet ∪ s.alloctree.cover) \
        (s.ms.msFreeing.cover ∪ s.ms.msCheckpointing.cover)
  | .condenseWanted => True
  | .preload => True
  | .loadBegin => s.ms.msLoaded = false ∧ s.ms.msLoading = .no
  | .loadRead _ => s.ms.msLoading = .reading
  | .loadEnd => ∃ error, s.ms.msLoading = .read error
  | .spaSync => s.phase = .idle
  | .nextPass => ∃ n listed, s.phase = .pass n listed
  | .syncBegin => ∃ n listed, s.phase = .pass n listed
  | .syncBranch _ => ∃ n, s.phase = .metaslabSync n .branch
  | .syncWrite _ => ∃ n at_, s.phase = .metaslabSync n at_
  | .syncDone _ =>
    -- the last pass left nothing to sync, and a load was waited for
    (∃ n listed, s.phase = .pass n listed) ∧ s.ms.msLoading = .no ∧
      s.alloctree.cover = ∅ ∧ s.ms.msFreeing.cover = ∅ ∧ s.ms.msCheckpointing.cover = ∅

/-- A metaslab as `metaslab_init` leaves it: new, or with a space map of whole units. -/
structure MetaslabRun.Initial : Prop where
  phase : s.phase = .idle
  allocating : ∀ t, s.ms.msAllocating t = .create
  allocatable : s.ms.msAllocatable = .create
  freeing : s.ms.msFreeing = .create
  freed : s.ms.msFreed = .create
  defer : ∀ t, s.ms.msDefer t = .create
  checkpointing : s.ms.msCheckpointing = .create
  condensing : s.ms.msCondensing = false
  loaded : s.ms.msLoaded = false
  loading : s.ms.msLoading = .no
  deferspace : s.ms.msDeferspace = 0
  lbas : s.ms.msLbas = fun _ => 0
  sm : ∀ sm, s.ms.msSm = some sm → sm.toSpaceMapRegion = c.toSpaceMapRegion ∧
    ∃ A, sm.Allocates A ∧ sm.Synced A ∧ Segs.Whole (2 ^ c.smShift) A

/-- The states of runs. -/
inductive MetaslabRun.Reachable : MetaslabRun → Prop
  | init {s : MetaslabRun} : s.Initial c → Reachable s
  | step {s s' : MetaslabRun} (op : MetaslabOp) : Reachable s → s.Enabled c op → s.exec c op = .ok s' → Reachable s'

end

end Unleashed.Zfs
