import Unleashed.Lib.Fault

/-!
# The transaction group pipeline (`txg.c`)

The open txg is quiesced by one thread and synced by another, while any number of threads hold txgs open. A step is a
section under `tx_sync_lock`, the acquisition or release of a `tc_open_lock`, or a section under one `tc_lock`;
`spa_sync` is outside all locks. Waits are steps that are not enabled.
-/

namespace Unleashed.Zfs.Txg

open Lib

/-- `TXG_SIZE`, and a txg's slot (`txg & TXG_MASK`). -/
def txgSize : Nat := 4

def txgSlot (txg : Nat) : Nat := txg &&& (txgSize - 1)

def txgConcurrentStates : Nat := 3
def txgDeferSize : Nat := 2

/-- Who has the `tc_open_lock` of a CPU. -/
inductive OpenLock where
  | free
  -- a thread in `txg_hold_open` that has read `tx_open_txg` and has not counted itself yet
  | entering (txg : Nat)
  -- a thread with a handle, until `txg_rele_to_quiesce`
  | held
  | quiesce
deriving DecidableEq, Repr

/-- `txg_handle_t`. -/
structure TxgHandle where
  (thCpu thTxg : Nat)
deriving DecidableEq, Repr

/-- A commit callback with the txg of the handle that registered it. -/
structure TxCallback where
  (txg ident : Nat)
deriving DecidableEq, Repr

/-- Where the quiesce thread is: outside `txg_quiesce`, or in one of its loops. -/
inductive QuiescePhase where
  | idle
  | locking (c : Nat)
  | releasing (c : Nat)
  | waiting (c : Nat)
deriving DecidableEq, Repr

/-- Where the sync thread is: waiting, in `spa_sync`, in `txg_dispatch_callbacks`. -/
inductive SyncPhase where
  | idle
  | syncing
  | dispatching (c : Nat)
deriving DecidableEq, Repr

/-- `tx_state_t` with the `tx_cpu_t` of every CPU, the handles, the places of the two threads, and what was done: the
txgs synced, the callbacks registered and those dispatched. -/
structure TxState where
  (maxNcpus txOpenTxg txQuiescingTxg txQuiescedTxg txSyncingTxg txSyncedTxg txSyncTxgWaiting txQuiesceTxgWaiting : Nat)
  tcOpenLock : Nat → OpenLock
  tcCount : Nat → Nat → Nat
  tcCallbacks : Nat → Nat → Multiset TxCallback
  handles : Multiset TxgHandle
  quiesce : QuiescePhase
  sync : SyncPhase
  spaSyncs : List Nat
  registered : Multiset TxCallback
  dispatched : Multiset (TxCallback × Nat)

def txgInit (maxNcpus txg : Nat) : TxState where
  maxNcpus := maxNcpus
  txOpenTxg := txg
  txQuiescingTxg := 0
  txQuiescedTxg := 0
  txSyncingTxg := 0
  txSyncedTxg := 0
  txSyncTxgWaiting := 0
  txQuiesceTxgWaiting := 0
  tcOpenLock := fun _ => .free
  tcCount := fun _ _ => 0
  tcCallbacks := fun _ _ => 0
  handles := 0
  quiesce := .idle
  sync := .idle
  spaSyncs := []
  registered := 0
  dispatched := 0

/-- A change of one slot of one CPU. -/
def setSlot {α : Type} (f : Nat → Nat → α) (c g : Nat) (x : α) : Nat → Nat → α :=
  Function.update f c (Function.update (f c) g x)

/-- The steps of the threads. -/
inductive TxgStep where
  -- `txg_hold_open`: the lock and the open txg, then the count of what was read
  | enter (c : Nat)
  | hold (c : Nat)
  | releToQuiesce (c : Nat)
  | registerCallbacks (th : TxgHandle) (idents : Multiset Nat)
  | releToSync (th : TxgHandle)
  -- `txg_quiesce_thread`
  | quiesceStart
  | quiesceLock
  | quiesceOpen
  | quiesceRelease
  | quiesceWait
  | quiesceDone
  -- `txg_sync_thread`
  | syncPrompt
  | syncStart
  | syncDone
  | dispatch
  -- `txg_wait_synced`, `txg_wait_open` and `txg_kick`
  | waitSynced (txg : Nat)
  | waitOpen (txg : Nat)
  | kick

namespace TxState

/-- Whether `tx_sync_lock` is free: dispatching keeps it. -/
def syncLockFree (s : TxState) : Bool :=
  match s.sync with
  | .dispatching _ => false
  | _ => true

/-- A step needs its lock, its condition and its thread. -/
def enabled (s : TxState) : TxgStep → Bool
  | .enter c => decide (c < s.maxNcpus ∧ s.tcOpenLock c = .free)
  | .hold c =>
    match s.tcOpenLock c with
    | .entering _ => decide (c < s.maxNcpus)
    | _ => false
  | .releToQuiesce c => decide (c < s.maxNcpus ∧ s.tcOpenLock c = .held)
  | .registerCallbacks th _ => decide (th ∈ s.handles)
  | .releToSync th => decide (th ∈ s.handles)
  | .quiesceStart =>
    s.syncLockFree && decide (s.quiesce = .idle ∧ ¬ (s.txOpenTxg ≥ s.txQuiesceTxgWaiting ∨ s.txQuiescedTxg ≠ 0))
  | .quiesceLock =>
    match s.quiesce with
    | .locking c => decide (c < s.maxNcpus ∧ s.tcOpenLock c = .free)
    | _ => false
  | .quiesceOpen => decide (s.quiesce = .locking s.maxNcpus)
  | .quiesceRelease =>
    match s.quiesce with
    | .releasing c => decide (c ≤ s.maxNcpus)
    | _ => false
  | .quiesceWait =>
    match s.quiesce with
    | .waiting c => decide (c < s.maxNcpus ∧ s.tcCount c (txgSlot s.txQuiescingTxg) = 0)
    | _ => false
  | .quiesceDone => s.syncLockFree && decide (s.quiesce = .waiting s.maxNcpus)
  | .syncPrompt => decide (s.sync = .idle ∧ s.txQuiescedTxg = 0)
  | .syncStart => decide (s.sync = .idle ∧ s.txQuiescedTxg ≠ 0)
  | .syncDone => decide (s.sync = .syncing)
  | .dispatch =>
    match s.sync with
    | .dispatching c => decide (c ≤ s.maxNcpus)
    | _ => false
  | .waitSynced _ => s.syncLockFree
  | .waitOpen _ => s.syncLockFree
  | .kick => s.syncLockFree

/-- What a step does. -/
def run (s : TxState) : TxgStep → Except Fault TxState
  | .enter c => .ok { s with tcOpenLock := Function.update s.tcOpenLock c (.entering s.txOpenTxg) }
  | .hold c =>
    match s.tcOpenLock c with
    | .entering txg =>
      .ok { s with
        tcCount := setSlot s.tcCount c (txgSlot txg) (s.tcCount c (txgSlot txg) + 1)
        handles := ⟨c, txg⟩ ::ₘ s.handles
        tcOpenLock := Function.update s.tcOpenLock c .held }
    | _ => .ok s
  | .releToQuiesce c => .ok { s with tcOpenLock := Function.update s.tcOpenLock c .free }
  | .registerCallbacks th idents =>
    let callbacks := idents.map fun ident => ⟨th.thTxg, ident⟩
    .ok { s with
      tcCallbacks := setSlot s.tcCallbacks th.thCpu (txgSlot th.thTxg) (s.tcCallbacks th.thCpu (txgSlot th.thTxg) + callbacks)
      registered := s.registered + callbacks }
  | .releToSync th => do
    ASSERT (s.tcCount th.thCpu (txgSlot th.thTxg) ≠ 0)
    .ok { s with
      tcCount := setSlot s.tcCount th.thCpu (txgSlot th.thTxg) (s.tcCount th.thCpu (txgSlot th.thTxg) - 1)
      handles := s.handles.erase th }
  | .quiesceStart => .ok { s with txQuiescingTxg := s.txOpenTxg, quiesce := .locking 0 }
  | .quiesceLock =>
    match s.quiesce with
    | .locking c => .ok { s with tcOpenLock := Function.update s.tcOpenLock c .quiesce, quiesce := .locking (c + 1) }
    | _ => .ok s
  | .quiesceOpen => do
    ASSERT (s.txQuiescingTxg = s.txOpenTxg)
    .ok { s with txOpenTxg := s.txOpenTxg + 1, quiesce := .releasing 0 }
  | .quiesceRelease =>
    match s.quiesce with
    | .releasing c =>
      if c = s.maxNcpus then .ok { s with quiesce := .waiting 0 }
      else .ok { s with tcOpenLock := Function.update s.tcOpenLock c .free, quiesce := .releasing (c + 1) }
    | _ => .ok s
  | .quiesceWait =>
    match s.quiesce with
    | .waiting c => .ok { s with quiesce := .waiting (c + 1) }
    | _ => .ok s
  | .quiesceDone => .ok { s with txQuiescedTxg := s.txQuiescingTxg, txQuiescingTxg := 0, quiesce := .idle }
  | .syncPrompt =>
    .ok { s with txQuiesceTxgWaiting :=
      if s.txQuiesceTxgWaiting < s.txOpenTxg + 1 then s.txOpenTxg + 1 else s.txQuiesceTxgWaiting }
  | .syncStart => do
    ASSERT (s.txQuiescedTxg ≠ 0)
    .ok { s with
      txSyncingTxg := s.txQuiescedTxg
      txQuiescedTxg := 0
      sync := .syncing
      spaSyncs := s.spaSyncs ++ [s.txQuiescedTxg] }
  | .syncDone => .ok { s with txSyncedTxg := s.txSyncingTxg, txSyncingTxg := 0, sync := .dispatching 0 }
  | .dispatch =>
    match s.sync with
    | .dispatching c =>
      if c = s.maxNcpus then .ok { s with sync := .idle }
      else .ok { s with
        tcCallbacks := setSlot s.tcCallbacks c (txgSlot s.txSyncedTxg) 0
        dispatched := s.dispatched + (s.tcCallbacks c (txgSlot s.txSyncedTxg)).map fun cb => (cb, s.txSyncedTxg)
        sync := .dispatching (c + 1) }
    | _ => .ok s
  | .waitSynced txg =>
    let txg := if txg = 0 then s.txOpenTxg + txgDeferSize else txg
    .ok { s with txSyncTxgWaiting := if s.txSyncTxgWaiting < txg then txg else s.txSyncTxgWaiting }
  | .waitOpen txg =>
    let txg := if txg = 0 then s.txOpenTxg + 1 else txg
    .ok { s with txQuiesceTxgWaiting := if s.txQuiesceTxgWaiting < txg then txg else s.txQuiesceTxgWaiting }
  | .kick =>
    if s.txSyncingTxg = 0 ∧ s.txQuiescingTxg = 0 ∧ s.txQuiesceTxgWaiting ≤ s.txOpenTxg ∧
        s.txSyncTxgWaiting ≤ s.txSyncedTxg ∧ s.txQuiescedTxg ≤ s.txSyncedTxg then
      .ok { s with txQuiesceTxgWaiting := s.txOpenTxg + 1 }
    else .ok s

end TxState

/-- The states that any interleaving reaches from `txg_init`. -/
inductive TxReachable (maxNcpus first : Nat) : TxState → Prop where
  | init : TxReachable maxNcpus first (txgInit maxNcpus first)
  | step {s s' : TxState} (t : TxgStep) :
      TxReachable maxNcpus first s → s.enabled t = true → s.run t = .ok s' → TxReachable maxNcpus first s'

end Unleashed.Zfs.Txg
