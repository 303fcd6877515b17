import Unleashed.Lib.Fault

/-!
# Turnstiles (`turnstile.c`)

A thread that blocks on a lock sleeps on the active turnstile of the lock. The first one gives its own turnstile for
this, the others leave theirs on its free list; a thread that wakes up takes one back. The owner of the lock inherits
priority through it.

Linked lists are lists. The chain lock makes each function here one step; the priority walk is a step for each thread
that it visits.
-/

namespace Unleashed.Kernel.Turnstile

open Lib

/-- Threads, turnstiles and synchronization objects by their addresses. -/
abbrev Tid := Nat
abbrev Tsid := Nat
abbrev Sobj := Nat

/-- The two sleep queues of a turnstile. -/
inductive TsQueue where
  | TS_WRITER_Q
  | TS_READER_Q
deriving DecidableEq, Repr

/-- `turnstile_t`. -/
structure TsData where
  tsFree : List Tsid
  tsSobj : Sobj
  (tsWaiters tsEpri : Nat)
  tsInheritor : Option Tid
  tsSleepq : TsQueue → List Tid

/-- What turnstiles use of `kthread_t`. -/
structure Kthread where
  tTs : Tsid
  tWchan : Option Sobj
  tSleepq : Option (Tsid × TsQueue)
  (tPri tEpri : Nat)
  tWriter : Bool
  tPrioinv : List Tsid

def dispPrio (t : Kthread) : Nat := if t.tEpri > t.tPri then t.tEpri else t.tPri

def cmpPrio (t : Kthread) : Nat := dispPrio t <<< 1 + t.tWriter.toNat

/-- The turnstiles, the threads and the owners of the objects (`SOBJ_OWNER`). -/
structure TsState where
  turnstileTable : Nat → List Tsid
  ts : Tsid → TsData
  thread : Tid → Kthread
  owner : Sobj → Option Tid

def turnstileHashSize : Nat := 128

/-- Where `upimutextab` is, and its size. -/
structure UpiTab where
  (base size : Nat)

section
variable (upi : UpiTab)

/-- `IS_UPI`; the subtraction is unsigned. -/
def isUpi (sobj : Sobj) : Bool := decide (upi.base ≤ sobj ∧ sobj - upi.base < upi.size)

def turnstileSobjBucket (sobj : Sobj) : Nat :=
  (if isUpi upi sobj then 0 else turnstileHashSize) + (((sobj >>> 2) + (sobj >>> 9)) &&& (turnstileHashSize - 1))

def TsState.setTs (s : TsState) (x : Tsid) (d : TsData) : TsState := { s with ts := Function.update s.ts x d }

def TsState.setThread (s : TsState) (t : Tid) (k : Kthread) : TsState := { s with thread := Function.update s.thread t k }

/-- `sleepq_insert`: after the threads of the same or a higher priority. -/
def sleepqInsert (pri : Tid → Nat) (t : Tid) : List Tid → List Tid
  | [] => [t]
  | next :: q => if pri t > pri next then t :: next :: q else next :: sleepqInsert pri t q

def TsState.setSleepq (s : TsState) (x : Tsid) (q : TsQueue) (l : List Tid) : TsState :=
  s.setTs x { s.ts x with tsSleepq := Function.update (s.ts x).tsSleepq q l }

/-- `sleepq_insert` of a thread on a queue of a turnstile. -/
def TsState.sleepqInsert (s : TsState) (x : Tsid) (q : TsQueue) (t : Tid) : Except Fault TsState := do
  ASSERT ((s.thread t).tSleepq = none)
  let s := s.setSleepq x q (Turnstile.sleepqInsert (fun u => cmpPrio (s.thread u)) t ((s.ts x).tsSleepq q))
  .ok (s.setThread t { s.thread t with tSleepq := some (x, q) })

def TsState.sleepqDequeue (s : TsState) (t : Tid) : Except Fault TsState :=
  match (s.thread t).tSleepq with
  | none => .error .assert
  | some (x, q) =>
    let s := s.setSleepq x q (((s.ts x).tsSleepq q).erase t)
    .ok (s.setThread t { s.thread t with tSleepq := none })

/-- `thread_change_epri` of a thread that is awake, or in a turnstile, where it is put back into its queue. -/
def threadChangeEpri (s : TsState) (t : Tid) (pri : Nat) : Except Fault TsState :=
  if (s.thread t).tEpri = pri then .ok s
  else
    match (s.thread t).tSleepq with
    | none => .ok (s.setThread t { s.thread t with tEpri := pri })
    | some (x, q) => do
      let s ← s.sleepqDequeue t
      let s := s.setThread t { s.thread t with tEpri := pri }
      s.sleepqInsert x q t

/-- The record of an inheritance: a new one, or a higher priority. -/
def recordInheritor (s : TsState) (x : Tsid) (inheritor : Tid) (epri : Nat) : Except Fault TsState :=
  match (s.ts x).tsInheritor with
  | none =>
    let s := s.setTs x { s.ts x with tsInheritor := some inheritor, tsEpri := epri }
    .ok (s.setThread inheritor { s.thread inheritor with tPrioinv := x :: (s.thread inheritor).tPrioinv })
  | some t => do
    ASSERT (t = inheritor)
    .ok (if (s.ts x).tsEpri < epri then s.setTs x { s.ts x with tsEpri := epri } else s)

def turnstilePiInherit (s : TsState) (x : Tsid) (inheritor : Tid) (epri : Nat) : Except Fault TsState :=
  if epri ≤ (s.thread inheritor).tPri then .ok s
  else do
    let s ← recordInheritor s x inheritor epri
    if epri > dispPrio (s.thread inheritor) then threadChangeEpri s inheritor epri else .ok s

/-- `turnstile_pi_tsdelete`: the new priority, and the list without the turnstile. -/
def turnstilePiTsdelete (s : TsState) (x : Option Tsid) (inheritor : Tid) : Nat × TsState :=
  let rest := (s.thread inheritor).tPrioinv.filter (some · ≠ x)
  ((rest.map fun y => (s.ts y).tsEpri).foldl max 0, s.setThread inheritor { s.thread inheritor with tPrioinv := rest })

/-- What `turnstile_pi_waive` and `turnstile_pi_recalc` share. -/
def piRecompute (s : TsState) (x : Option Tsid) (inheritor : Tid) : Except Fault TsState :=
  let (newEpri, s) := turnstilePiTsdelete s x inheritor
  if newEpri ≠ dispPrio (s.thread inheritor) then threadChangeEpri s inheritor newEpri else .ok s

/-- `turnstile_pi_waive`, by the current thread. -/
def turnstilePiWaive (s : TsState) (x : Tsid) (inheritor curthread : Tid) : Except Fault TsState := do
  ASSERT (inheritor = curthread)
  let s ← piRecompute s (some x) inheritor
  .ok (s.setTs x { s.ts x with tsInheritor := none })

def turnstilePiRecalc (s : TsState) (curthread : Tid) : Except Fault TsState := piRecompute s none curthread

def turnstileLookup (s : TsState) (sobj : Sobj) : Option Tsid :=
  (s.turnstileTable (turnstileSobjBucket upi sobj)).find? fun x => decide ((s.ts x).tsSobj = sobj)

/-- The start of `turnstile_block`: the turnstile to sleep on. -/
def blockTurnstile (s : TsState) (t : Tid) (sobj : Sobj) : Option Tsid → Except Fault (TsState × Tsid)
  | none => do
    let x := (s.thread t).tTs
    let bucket := turnstileSobjBucket upi sobj
    let s := s.setTs x { s.ts x with tsSobj := sobj }
    let s := { s with turnstileTable := Function.update s.turnstileTable bucket (x :: s.turnstileTable bucket) }
    ASSERT ((s.ts x).tsWaiters = 0)
    .ok (s, x)
  | some x => do
    let myts := (s.thread t).tTs
    let s := s.setTs x { s.ts x with tsFree := myts :: (s.ts x).tsFree }
    let s := s.setThread t { s.thread t with tTs := x }
    ASSERT ((s.ts x).tsSobj = sobj)
    ASSERT ((s.ts x).tsWaiters > 0)
    .ok (s, x)

/-- `turnstile_lookup` and `turnstile_block`, to where the thread sleeps, with the priority `pri` of `CL_SLEEP`. -/
def turnstileBlock (s : TsState) (t : Tid) (q : TsQueue) (sobj : Sobj) (isMutex : Bool) (pri : Nat) : Except Fault TsState := do
  let (s, x) ← blockTurnstile upi s t sobj (turnstileLookup upi s sobj)
  ASSERT ((s.thread t).tWchan = none)
  let s := s.setThread t { s.thread t with tPri := pri, tWchan := some sobj }
  let s := s.setTs x { s.ts x with tsWaiters := (s.ts x).tsWaiters + 1 }
  let s ← s.sleepqInsert x q t
  VERIFY (isMutex = true → s.owner sobj ≠ none)
  .ok s

/-- The end of an inheritance in `turnstile_dequeue`. -/
def dropInheritor (s : TsState) (x : Tsid) : TsState :=
  match (s.ts x).tsInheritor with
  | none => s
  | some inheritor =>
    let s := (turnstilePiTsdelete s (some x) inheritor).2
    s.setTs x { s.ts x with tsInheritor := none }

/-- The search on a chain ends at the turnstile, or runs off the chain. -/
def unlinkTurnstile (s : TsState) (x : Tsid) : Except Fault TsState :=
  let bucket := turnstileSobjBucket upi (s.ts x).tsSobj
  if x ∈ s.turnstileTable bucket then
    .ok { s with turnstileTable := Function.update s.turnstileTable bucket ((s.turnstileTable bucket).erase x) }
  else .error .bounds

/-- The turnstile that a thread takes with it in `turnstile_dequeue`. -/
def dequeueTurnstile (s : TsState) (t : Tid) (x : Tsid) : Except Fault TsState :=
  match (s.ts x).tsFree with
  | tsfree :: rest => do
    ASSERT ((s.ts x).tsWaiters > 1)
    ASSERT ((s.ts tsfree).tsWaiters = 0)
    let s := s.setThread t { s.thread t with tTs := tsfree }
    .ok (s.setTs x { s.ts x with tsFree := rest })
  | [] => do
    ASSERT ((s.ts x).tsWaiters = 1)
    let s ← unlinkTurnstile upi (dropInheritor s x) x
    ASSERT ((s.thread t).tTs = x)
    .ok s

def turnstileDequeue (s : TsState) (t : Tid) : Except Fault TsState := do
  let x := (s.thread t).tTs
  let s ← dequeueTurnstile upi s t x
  let s := s.setTs x { s.ts x with tsWaiters := (s.ts x).tsWaiters - 1 }
  let s ← s.sleepqDequeue t
  .ok (s.setThread t { s.thread t with tWchan := none })

/-- The priority of the first thread of a queue. -/
def firstPrio (s : TsState) (x : Tsid) (q : TsQueue) : Nat :=
  match ((s.ts x).tsSleepq q).head? with
  | none => 0
  | some t => dispPrio (s.thread t)

/-- The loop of `turnstile_wakeup`; `CL_WAKEUP` gives the threads their priorities. -/
def wakeupLoop (x : Tsid) (q : TsQueue) (pri : Tid → Nat) : (nthreads : Nat) → TsState → Option Tid → Except Fault (TsState × Option Tid)
  | 0, s, owner => .ok (s, owner)
  | nthreads + 1, s, owner =>
    match ((s.ts x).tsSleepq q).head? with
    | none => .error .bounds
    | some t => do
      ASSERT ((s.thread t).tTs = x)
      ASSERT ((s.ts x).tsWaiters > 1 ∨ (s.ts x).tsInheritor = none)
      let s ← turnstileDequeue upi s t
      let s := s.setThread t { s.thread t with tPri := pri t }
      if owner = some t then do
        let s ← turnstilePiInherit s x t (max (firstPrio s x .TS_WRITER_Q) (firstPrio s x .TS_READER_Q))
        wakeupLoop x q pri nthreads s none
      else wakeupLoop x q pri nthreads s owner

/-- The start of `turnstile_wakeup`. -/
def waiveInherited (s : TsState) (x : Tsid) (curthread : Tid) : Except Fault TsState :=
  match (s.ts x).tsInheritor with
  | none => .ok s
  | some inheritor => turnstilePiWaive s x inheritor curthread

def turnstileWakeup (s : TsState) (curthread : Tid) (x : Tsid) (q : TsQueue) (nthreads : Nat) (owner : Option Tid) (pri : Tid → Nat) :
    Except Fault TsState := do
  let s ← waiveInherited s x curthread
  let (s, owner) ← wakeupLoop upi x q pri nthreads s owner
  VERIFY (owner = none)
  .ok s

/-- `turnstile_unsleep`; `CL_SETRUN` gives the thread the priority `pri`. -/
def turnstileUnsleep (s : TsState) (t : Tid) (pri : Nat) : Except Fault TsState := do
  let s ← turnstileDequeue upi s t
  .ok (s.setThread t { s.thread t with tPri := pri })

/-- One visit of the walk of `turnstile_block`: the owner of what `t` sleeps on inherits. -/
def willPriority (s : TsState) (t owner : Tid) : Except Fault TsState :=
  turnstilePiInherit s (s.thread t).tTs owner (dispPrio (s.thread t))

end

end Unleashed.Kernel.Turnstile
