import Unleashed.Kernel.Kmem.Basic

/-!
# The calls on a cache

A step is what happens under one lock. A call between two steps has its buffers and perhaps `cc_lock`.
-/

namespace Unleashed.Kernel.Kmem

open Lib

/-- What a call does after it has put a buffer into a magazine. -/
inductive Cont where
  | finish
  | prefill (rest : List Nat) (buf : Nat)

/-- Where a running call is. -/
inductive Call where
  | get (i : Nat)
  | getFull (i : Nat) (fmp : Mag)
  | slabAlloc
  | slabCreate
  | slabInsert (i : Nat) (sp : Slab)
  | construct (buf : Nat)
  | put (i buf : Nat) (k : Cont)
  | putEmpty (i buf : Nat) (k : Cont) (emp : Mag)
  | magAlloc (i buf : Nat) (k : Cont) (mt : Nat)
  | magGot (i buf : Nat) (k : Cont) (mt : Nat)
  | slabFrees (bufs : List Nat) (buf : Option Nat)

/-- Where the task of `kmem_taskq` is. `resize` is a reap for `kmem_cache_magazine_resize`. -/
inductive Task where
  | idle
  | purge (i : Nat)
  | purgeFree (i : Nat) (bufs : List Nat)
  | reap (resize : Bool)
  | reapFull (n : Nat) (resize : Bool)
  | reapFree (n : Nat) (bufs : List Nat) (resize : Bool)
  | reapRead (resize : Bool)
  | reapEmpty (n : Nat) (resize : Bool)
  | setType
  | enable (i : Nat)

structure KmemState where
  slabs : SlabLayer
  mags : MagLayer
  client : Multiset Nat
  calls : Multiset Call
  task : Task

/-- What a step finds: slabs, the CPU, and whether an allocation or a constructor succeeds. -/
structure Choice where
  first : Option Nat
  newSlab : Option (Nat × Slab)
  cpu : Nat
  (ok enabled : Bool)
  magRound : Nat → Nat

variable (c : Cache)

/-- The layers after a step, the call, and what the client gets. -/
structure CallOut where
  slabs : SlabLayer
  mags : MagLayer
  next : Option Call
  given : Option Nat

def Cont.next (i : Nat) : Cont → Option Call
  | .finish => none
  | .prefill [] buf => some (.construct buf)
  | .prefill (b :: rest) buf => some (.put i b (.prefill rest buf))

/-- The buffers that found no place in a magazine go back to their slabs. -/
def Cont.fallback (b : Nat) : Cont → Call
  | .finish => .slabFrees [b] none
  | .prefill rest buf => .slabFrees (b :: rest) (some buf)

/-- The call after the loop of `kmem_cache_alloc`. -/
def getNext (S : SlabLayer) (i : Nat) : GetResult × MagLayer → CallOut
  | (.done buf, m) => ⟨S, m, none, some buf⟩
  | (.slab, m) => ⟨S, m, some .slabAlloc, none⟩
  | (.full fmp, m) => ⟨S, m, some (.getFull i fmp), none⟩

/-- The call after the loop of `kmem_cache_free`. -/
def putNext (S : SlabLayer) (i buf : Nat) (k : Cont) : PutResult × MagLayer → CallOut
  | (.done, m) => ⟨S, m, k.next i, none⟩
  | (.slab, m) => ⟨S, m, some (k.fallback buf), none⟩
  | (.empty emp, m) => ⟨S, m, some (.putEmpty i buf k emp), none⟩
  | (.magazine, m) => ⟨S, m, some (.magAlloc i buf k m.cacheMagtype), none⟩

/-- The next step of a call. -/
def callRun (S : SlabLayer) (m : MagLayer) (ch : Choice) : Call → Except Fault CallOut
  | .get i => do
    let r ← getLoop i 2 m
    .ok (getNext S i r)
  | .getFull i fmp => do
    let m ← getFull i fmp m
    let r ← getLoop i 2 m
    .ok (getNext S i r)
  | .slabAlloc =>
    match ch.first with
    | none => .ok ⟨S, m, some .slabCreate, none⟩
    | some i => do
      let (buf, more, S) ← kmemSlabAllocImpl c S i (S.slab i) ch.enabled
      .ok ⟨S, m, (Cont.prefill more buf).next ch.cpu, none⟩
  | .slabCreate =>
    match ch.newSlab with
    | none => .ok ⟨S, m, none, none⟩
    | some (i, sp) => .ok ⟨S, m, some (.slabInsert i sp), none⟩
  | .slabInsert i sp => do
    let (buf, more, S) ← kmemSlabAllocImpl c (S.setSlab i sp) i sp ch.enabled
    .ok ⟨S, m, (Cont.prefill more buf).next ch.cpu, none⟩
  | .construct buf =>
    if ch.ok then .ok ⟨S, m, none, some buf⟩ else .ok ⟨S, m, some (.slabFrees [buf] none), none⟩
  | .put i buf k => do
    let r ← putLoop i buf 2 m
    .ok (putNext S i buf k r)
  | .putEmpty i buf k emp => do
    let m ← putEmpty i emp m
    let r ← putLoop i buf 2 m
    .ok (putNext S i buf k r)
  | .magAlloc i buf k mt =>
    .ok ⟨S, m, some (if ch.ok then .magGot i buf k mt else k.fallback buf), none⟩
  | .magGot i buf k mt => do
    let m ← magazineInstall m i mt ⟨mt, ch.magRound⟩
    .ok ⟨S, m, some (.put i buf k), none⟩
  | .slabFrees [] buf => .ok ⟨S, m, none, buf⟩
  | .slabFrees (b :: bufs) buf => do
    let S ← kmemSlabFree c S b
    .ok ⟨S, m, some (.slabFrees bufs buf), none⟩

/-- The next step of the task. -/
def taskRun (S : SlabLayer) (m : MagLayer) : Task → Except Fault (SlabLayer × MagLayer × Task)
  | .idle => .ok (S, m, .idle)
  | .purge i =>
    if i < c.ncpus then do
      let (bufs, m) ← cpuPurge m i
      .ok (S, m, .purgeFree (i + 1) bufs)
    else .ok (S, kmemDepotWsZero m, .reap true)
  | .purgeFree i [] => .ok (S, m, .purge i)
  | .purgeFree i (b :: bufs) => do
    let S ← kmemSlabFree c S b
    .ok (S, m, .purgeFree i bufs)
  | .reap r => .ok (S, m, .reapFull (min m.cacheFull.mlReaplimit m.cacheFull.mlMin) r)
  | .reapFull 0 r => .ok (S, m, .reapRead r)
  | .reapFull (n + 1) r => do
    let (mp, full) ← m.cacheFull.alloc m.cacheMagtype
    match mp with
    | none => .ok (S, m, .reapRead r)
    | some mp => .ok (S, { m with cacheFull := full }, .reapFree n (rounds (some mp) (mtMagsize m.cacheMagtype)) r)
  | .reapFree n [] r => .ok (S, m, .reapFull n r)
  | .reapFree n (b :: bufs) r => do
    let S ← kmemSlabFree c S b
    .ok (S, m, .reapFree n bufs r)
  | .reapRead r => .ok (S, m, .reapEmpty (min m.cacheEmpty.mlReaplimit m.cacheEmpty.mlMin) r)
  | .reapEmpty 0 r => .ok (S, m, if r then .setType else .idle)
  | .reapEmpty (n + 1) r => do
    let (mp, empty) ← m.cacheEmpty.alloc m.cacheMagtype
    match mp with
    | none => .ok (S, m, if r then .setType else .idle)
    | some _ => .ok (S, { m with cacheEmpty := empty }, .reapEmpty n r)
  | .setType => .ok (S, { m with cacheMagtype := m.cacheMagtype + 1 }, .enable 0)
  | .enable i =>
    if c.noMagazine = false ∧ i < c.ncpus then
      .ok (S, m.setCpu i { m.cpu i with ccMagsize := mtMagsize m.cacheMagtype }, .enable (i + 1))
    else .ok (S, m, .idle)

/-- The CPU cache whose lock a call holds between two steps. -/
def Call.locks : Call → Option Nat
  | .getFull i _ => some i
  | .putEmpty i _ _ _ => some i
  | _ => none

/-- The CPU cache whose lock a call takes in its next step. -/
def Call.wants : Call → Option Nat
  | .get i => some i
  | .put i _ _ => some i
  | .magGot i _ _ _ => some i
  | _ => none

def Task.wants : Task → Option Nat
  | .purge i => if i < c.ncpus then some i else none
  | .enable i => some i
  | _ => none

/-- No other call holds the lock. -/
def LockFree (calls : Multiset Call) (want : Option Nat) : Prop := ∀ i, want = some i → ∀ cl ∈ calls, cl.locks ≠ some i

/-- The slabs that have memory: those of the layer, and those just created. -/
def SlabLayer.live (S : SlabLayer) : List Nat := S.cachePartialSlabs ++ S.cacheCompleteSlabs

/-- The chunks of a slab are in its block, aligned where it is found by address. -/
structure Fits (i : Nat) (sp : Slab) : Prop where
  slabChunks : 0 < sp.slabChunks
  low : i ≤ sp.slabBase
  high : sp.slabBase + sp.slabChunks * c.chunksize ≤ i + c.slabsize
  aligned : c.hashed = false → c.slabsize ∣ i

/-- `kmem_slab_create`: a block from the arena, all chunks free. -/
structure NewSlab (s : KmemState) (i : Nat) (sp : Slab) : Prop where
  slabRefcnt : sp.slabRefcnt = 0
  slabHead : sp.slabHead = (sp.bufs c).reverse
  fits : Fits c i sp
  fresh : ∀ j ∈ s.slabs.live, j + c.slabsize ≤ i ∨ i + c.slabsize ≤ j
  unused : ∀ j sp', .slabInsert j sp' ∈ s.calls → j + c.slabsize ≤ i ∨ i + c.slabsize ≤ j

/-- What the outside may answer to a call. -/
structure Answer (s : KmemState) (cl : Call) (ch : Choice) : Prop where
  first : cl = .slabAlloc → match ch.first with
    | none => s.slabs.cachePartialSlabs = []
    | some i => i ∈ s.slabs.cachePartialSlabs
  newSlab : cl = .slabCreate → ∀ i sp, ch.newSlab = some (i, sp) → NewSlab c s i sp
  cpu : ch.cpu < c.ncpus

/-- The steps of the system. -/
inductive Step : KmemState → KmemState → Prop
  | alloc {s : KmemState} (i : Nat) (hi : i < c.ncpus) : Step s { s with calls := .get i ::ₘ s.calls }
  | free {s : KmemState} (i : Nat) (hi : i < c.ncpus) (buf : Nat) (rest : Multiset Nat) (h : s.client = buf ::ₘ rest) :
      Step s { s with client := rest, calls := .put i buf .finish ::ₘ s.calls }
  | call {s : KmemState} (cl : Call) (rest : Multiset Call) (ch : Choice) (out : CallOut) (h : s.calls = cl ::ₘ rest)
      (hl : LockFree rest cl.wants) (ha : Answer c s cl ch) (hrun : callRun c s.slabs s.mags ch cl = .ok out) :
      Step s ⟨out.slabs, out.mags, ((out.given.toList : List Nat) : Multiset Nat) + s.client,
        ((out.next.toList : List Call) : Multiset Call) + rest, s.task⟩
  | wsUpdate {s : KmemState} : Step s { s with mags := kmemDepotWsUpdate s.mags }
  | wsZero {s : KmemState} : Step s { s with mags := kmemDepotWsZero s.mags }
  | startReap {s : KmemState} (h : s.task = .idle) : Step s { s with task := .reap false }
  | startResize {s : KmemState} (h : s.task = .idle) (hb : c.chunksize < mtMaxbuf s.mags.cacheMagtype) :
      Step s { s with task := .purge 0 }
  | task {s : KmemState} {S : SlabLayer} {m : MagLayer} {t : Task} (hl : LockFree s.calls (s.task.wants c))
      (hrun : taskRun c s.slabs s.mags s.task = .ok (S, m, t)) : Step s { s with slabs := S, mags := m, task := t }
  | rescale {s : KmemState} (h : s.task = .idle) (newSize : Nat) (hn : 0 < newSize) :
      Step s { s with slabs := kmemHashRescale c s.slabs newSize }

/-- A new cache, with magazines enabled or not. -/
structure Created (s : KmemState) : Prop where
  partialEmpty : s.slabs.cachePartialSlabs = []
  completeEmpty : s.slabs.cacheCompleteSlabs = []
  hash : s.slabs.cacheHashTable = fun _ => []
  full : s.mags.cacheFull = ⟨[], 0, 0, 0⟩
  empty : s.mags.cacheEmpty = ⟨[], 0, 0, 0⟩
  magtype : s.mags.cacheMagtype < kmemMagtype.length
  cpus : ∀ i, s.mags.cpu i = ⟨none, none, -1, -1, if c.noMagazine then 0 else mtMagsize s.mags.cacheMagtype⟩
  client : s.client = 0
  calls : s.calls = 0
  task : s.task = .idle

inductive Reachable : KmemState → Prop
  | created {s : KmemState} (h : Created c s) : Reachable s
  | step {s s' : KmemState} (h : Reachable s) (hs : Step c s s') : Reachable s'

end Unleashed.Kernel.Kmem
