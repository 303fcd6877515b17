import Unleashed.Lib.DList

/-!
# Memory lists (`memlist_new.c`)

A doubly linked list of spans in increasing order, with nodes from a free list that all memory lists share. A `struct
memlist` is a node of the list library, and 0 is `NULL`.
-/

namespace Unleashed.Kernel

open Lib

structure Span where
  (mlAddress mlSize : Nat)
deriving DecidableEq, Repr

/-- `ml_address + ml_size`, in 64 bits. -/
def Span.mlEnd (e : Span) : Nat := (e.mlAddress + e.mlSize) % 2 ^ 64

abbrev Memlist := DNode Span

/-- The nodes in memory, `*curmemlistp` and `memlist_freelist`. -/
structure Memlists where
  mem : DMem Span
  (curmemlistp memlistFreelist : Nat)

/-- `MEML_SPANOP_OK`, `MEML_SPANOP_ESPAN` and `MEML_SPANOP_EALLOC`. -/
inductive SpanOp | ok | espan | ealloc
deriving DecidableEq, Repr

/-- `memlist_get_one`; 0 if there is none. -/
def memlistGetOne (s : Memlists) : Except Fault (Nat × Memlists) :=
  if s.memlistFreelist ≠ 0 then do
    let n ← s.mem.load s.memlistFreelist
    .ok (s.memlistFreelist, { s with memlistFreelist := n.next })
  else .ok (0, s)

def memlistFreeOne (s : Memlists) (mlp : Nat) : Except Fault Memlists := do
  ASSERT (mlp ≠ 0)
  let mem ← s.mem.setNext mlp s.memlistFreelist
  .ok { s with mem, memlistFreelist := mlp }

/-! ## Single elements -/

/-- `new` goes before `cur`, whose fields are `n`. -/
def insertAt (s : Memlists) (new cur : Nat) (n : Memlist) : Except Fault Memlists := do
  let mem ← s.mem.setNext new cur
  let mem ← mem.setPrev new n.prev
  let mem ← mem.setPrev cur new
  if cur = s.curmemlistp then .ok { s with mem, curmemlistp := new }
  else do
    let mem ← mem.setNext n.prev new
    .ok { s with mem }

/-- The end of `memlist_insert`. -/
def insertLast (s : Memlists) (new last : Nat) : Except Fault Memlists := do
  let mem ← s.mem.setNext new 0
  let mem ← mem.setPrev new last
  let mem ← mem.setNextIf last new
  .ok { s with mem }

/-- The loop of `memlist_insert`. -/
def insertLoop (s : Memlists) (new start stop : Nat) : Nat → Nat → Nat → Except Fault Memlists
  | 0, _, _ => .error .fuel
  | fuel + 1, last, cur =>
    if cur = 0 then insertLast s new last
    else do
      let n ← s.mem.load cur
      if n.payload.mlAddress ≥ stop then insertAt s new cur n
      else if n.payload.mlEnd > start then .error .verify
      else insertLoop s new start stop fuel cur n.next

/-- `memlist_insert`; a munged list is a panic. -/
def memlistInsert (fuel : Nat) (s : Memlists) (new : Nat) : Except Fault Memlists := do
  let n ← s.mem.load new
  insertLoop s new n.payload.mlAddress n.payload.mlEnd fuel 0 s.curmemlistp

/-- The walk with which `memlist_del` looks for the element. -/
def onListLoop (mem : DMem Span) (memlistp : Nat) : Nat → Nat → Except Fault Bool
  | 0, _ => .error .fuel
  | fuel + 1, mlp =>
    if mlp = 0 then .ok false
    else if mlp = memlistp then .ok true
    else do
      let n ← mem.load mlp
      onListLoop mem memlistp fuel n.next

/-- The link from the element before, in `memlist_del`. -/
def delPrev (mem : DMem Span) (memlistp : Nat) (n : Memlist) : Except Fault (DMem Span) :=
  if n.prev ≠ 0 then do
    let p ← mem.load n.prev
    ASSERT (p.next = memlistp)
    mem.setNext n.prev n.next
  else .ok mem

/-- The link from the element after, in `memlist_del`. -/
def delNext (mem : DMem Span) (memlistp : Nat) (n : Memlist) : Except Fault (DMem Span) :=
  if n.next ≠ 0 then do
    let p ← mem.load n.next
    ASSERT (p.prev = memlistp)
    mem.setPrev n.next n.prev
  else .ok mem

def memlistDel (fuel : Nat) (s : Memlists) (memlistp : Nat) : Except Fault Memlists := do
  let found ← onListLoop s.mem memlistp fuel s.curmemlistp
  ASSERT (found = true)
  let n ← s.mem.load memlistp
  ASSERT (s.curmemlistp = memlistp → n.prev = 0)
  let mem ← delPrev s.mem memlistp n
  let mem ← delNext mem memlistp n
  .ok { s with mem, curmemlistp := if s.curmemlistp = memlistp then n.next else s.curmemlistp }

/-! ## Adding a span -/

/-- The span joins `next`, with the fields `n`, and the next element, `mlp`. -/
def concatenate (s : Memlists) (bytes next : Nat) (n : Memlist) (mlp : Nat) (m : Memlist) : Except Fault (SpanOp × Memlists) := do
  let cur := if next = s.curmemlistp then n.next else s.curmemlistp
  let mem ← s.mem.setPayload mlp ⟨n.payload.mlAddress, ((m.payload.mlSize + n.payload.mlSize) % 2 ^ 64 + bytes) % 2 ^ 64⟩
  let mem ← mem.setNextIf n.prev mlp
  let mem ← mem.setPrev mlp n.prev
  let s ← memlistFreeOne { s with mem, curmemlistp := cur } next
  .ok (.ok, s)

/-- `next->ml_size += bytes`. -/
def growNext (s : Memlists) (bytes next : Nat) (n : Memlist) : Except Fault (SpanOp × Memlists) := do
  let mem ← s.mem.setPayload next ⟨n.payload.mlAddress, (n.payload.mlSize + bytes) % 2 ^ 64⟩
  .ok (.ok, { s with mem })

/-- The span starts where `next` ends. -/
def appendToNext (s : Memlists) (address bytes next : Nat) (n : Memlist) : Except Fault (SpanOp × Memlists) :=
  if n.next ≠ 0 then do
    let m ← s.mem.load n.next
    if (address + bytes) % 2 ^ 64 > m.payload.mlAddress then .ok (.espan, s)
    else if (address + bytes) % 2 ^ 64 = m.payload.mlAddress then concatenate s bytes next n n.next m
    else growNext s bytes next n
  else growNext s bytes next n

/-- A new element between `prev` and `next`. -/
def insertBeforeNext (s : Memlists) (dst prev next : Nat) : Except Fault (SpanOp × Memlists) := do
  let mem ← s.mem.setPrev dst prev
  let mem ← mem.setNext dst next
  let mem ← mem.setPrev next dst
  if prev = 0 then .ok (.ok, { s with mem, curmemlistp := dst })
  else do
    let mem ← mem.setNext prev dst
    .ok (.ok, { s with mem })

/-- `memlist_add_span` at the element it does not pass. -/
def addSpanHere (s : Memlists) (address bytes dst prev next : Nat) (n : Memlist) : Except Fault (SpanOp × Memlists) :=
  if (address + bytes) % 2 ^ 64 = n.payload.mlAddress then do
    let s ← memlistFreeOne s dst
    let mem ← s.mem.setPayload next ⟨address, (n.payload.mlSize + bytes) % 2 ^ 64⟩
    .ok (.ok, { s with mem })
  else if address = n.payload.mlEnd then do
    let s ← memlistFreeOne s dst
    appendToNext s address bytes next n
  else if (address + bytes) % 2 ^ 64 > n.payload.mlAddress then do
    let s ← memlistFreeOne s dst
    .ok (.espan, s)
  else insertBeforeNext s dst prev next

/-- After the loop: `prev` is the last element. -/
def addSpanLast (s : Memlists) (dst prev : Nat) : Except Fault (SpanOp × Memlists) := do
  let mem ← s.mem.setNext prev dst
  let mem ← mem.setPrev dst prev
  let mem ← mem.setNext dst 0
  .ok (.ok, { s with mem })

/-- The loop of `memlist_add_span`. -/
def addSpanLoop (s : Memlists) (address bytes dst : Nat) : Nat → Nat → Nat → Except Fault (SpanOp × Memlists)
  | 0, _, _ => .error .fuel
  | fuel + 1, prev, next =>
    if next = 0 then addSpanLast s dst prev
    else do
      let n ← s.mem.load next
      if address > n.payload.mlEnd then addSpanLoop s address bytes dst fuel next n.next
      else addSpanHere s address bytes dst prev next n

/-- `memlist_add_span` with the node it got. -/
def addSpanWith (fuel : Nat) (s : Memlists) (address bytes dst : Nat) : Except Fault (SpanOp × Memlists) := do
  let mem ← s.mem.setPayload dst ⟨address, bytes⟩
  if s.curmemlistp = 0 then do
    let mem ← mem.setPrev dst 0
    let mem ← mem.setNext dst 0
    .ok (.ok, { s with mem, curmemlistp := dst })
  else addSpanLoop { s with mem } address bytes dst fuel 0 s.curmemlistp

def memlistAddSpan (fuel : Nat) (s : Memlists) (address bytes : Nat) : Except Fault (SpanOp × Memlists) := do
  let r ← memlistGetOne s
  if r.1 = 0 then .ok (.ealloc, r.2)
  else addSpanWith fuel r.2 address bytes r.1

/-! ## Deleting a span -/

/-- The loop of `memlist_delete_span`: the element that contains `address`. -/
def deleteSpanFind (mem : DMem Span) (address : Nat) : Nat → Nat → Except Fault (Option (Nat × Memlist))
  | 0, _ => .error .fuel
  | fuel + 1, next =>
    if next = 0 then .ok none
    else do
      let n ← mem.load next
      if address ≥ n.payload.mlAddress ∧ address < n.payload.mlEnd then .ok (some (next, n))
      else deleteSpanFind mem address fuel n.next

/-- The element goes as a whole. -/
def deleteElement (s : Memlists) (next : Nat) (n : Memlist) : Except Fault (SpanOp × Memlists) := do
  let cur := if next = s.curmemlistp then n.next else s.curmemlistp
  let mem ← s.mem.setNextIf n.prev n.next
  let mem ← mem.setPrevIf n.next n.prev
  let s ← memlistFreeOne { s with mem, curmemlistp := cur } next
  .ok (.ok, s)

/-- The element is split with the node `dst`. -/
def splitElement (s : Memlists) (address bytes next : Nat) (n : Memlist) (dst : Nat) : Except Fault (SpanOp × Memlists) := do
  let stop := (address + bytes) % 2 ^ 64
  let mem ← s.mem.setPayload dst ⟨stop, (n.payload.mlEnd + 2 ^ 64 - stop) % 2 ^ 64⟩
  let mem ← mem.setPayload next ⟨n.payload.mlAddress, (address + 2 ^ 64 - n.payload.mlAddress) % 2 ^ 64⟩
  let mem ← mem.setNext dst n.next
  let mem ← mem.setPrev dst next
  let mem ← mem.setPrevIf n.next dst
  let mem ← mem.setNext next dst
  .ok (.ok, { s with mem })

/-- The rest of `memlist_delete_span`, at that element. -/
def deleteSpanHere (s : Memlists) (address bytes next : Nat) (n : Memlist) : Except Fault (SpanOp × Memlists) :=
  if (address + bytes) % 2 ^ 64 > n.payload.mlEnd then .ok (.espan, s)
  else if address = n.payload.mlAddress then
    if bytes = n.payload.mlSize then deleteElement s next n
    else do
      let mem ← s.mem.setPayload next ⟨(n.payload.mlAddress + bytes) % 2 ^ 64, (n.payload.mlSize + 2 ^ 64 - bytes) % 2 ^ 64⟩
      .ok (.ok, { s with mem })
  else if (address + bytes) % 2 ^ 64 = n.payload.mlEnd then do
    let mem ← s.mem.setPayload next ⟨n.payload.mlAddress, (n.payload.mlSize + 2 ^ 64 - bytes) % 2 ^ 64⟩
    .ok (.ok, { s with mem })
  else do
    let r ← memlistGetOne s
    if r.1 = 0 then .ok (.ealloc, r.2)
    else splitElement r.2 address bytes next n r.1

def memlistDeleteSpan (fuel : Nat) (s : Memlists) (address bytes : Nat) : Except Fault (SpanOp × Memlists) := do
  let found ← deleteSpanFind s.mem address fuel s.curmemlistp
  match found with
  | none => .ok (.espan, s)
  | some (next, n) => deleteSpanHere s address bytes next n

end Unleashed.Kernel
