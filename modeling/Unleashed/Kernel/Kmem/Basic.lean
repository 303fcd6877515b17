import Unleashed.Lib.Fault
import Unleashed.Lib.Buckets

/-!
# Object caches (`kmem.c`)

A cache without debugging flags and without a move callback. Buffers and slabs are addresses, in `Nat`. The state has
a slab layer, under `cache_lock`, and a magazine layer of CPU caches and the depot.
-/

namespace Unleashed.Kernel.Kmem

open Lib

/-- `mt_magsize` and `mt_maxbuf` of `kmem_magtype`. -/
def kmemMagtype : List (Nat × Nat) :=
  [(1, 65536), (3, 32768), (7, 16384), (15, 8192), (31, 4096), (47, 2048), (63, 1024), (95, 512), (143, 0)]

def mtMagsize (mt : Nat) : Nat := (kmemMagtype.getD mt (0, 0)).1

def mtMaxbuf (mt : Nat) : Nat := (kmemMagtype.getD mt (0, 0)).2

/-- What `kmem_cache_create` fixes. -/
structure Cache where
  (hashed prefill noMagazine : Bool)
  (chunksize slabsize hashShift ncpus : Nat)
  chunksize_pos : 0 < chunksize
  prefill_plain : prefill = true → hashed = false

variable (c : Cache)

/-! ## The slab layer -/

/-- `kmem_slab_t`; the free list by the buffers of its bufctls. -/
structure Slab where
  (slabBase slabChunks slabRefcnt : Nat)
  slabHead : List Nat

/-- The chunks of a slab. -/
def Slab.bufs (sp : Slab) : List Nat := (List.range sp.slabChunks).map fun i => sp.slabBase + i * c.chunksize

/-- The partial slabs (a tree in the source), the complete ones, and the hash table. -/
structure SlabLayer where
  slab : Nat → Slab
  (cachePartialSlabs cacheCompleteSlabs : List Nat)
  cacheHashTable : Nat → List (Nat × Nat)
  cacheHashMask : Nat

def SlabLayer.setSlab (L : SlabLayer) (i : Nat) (sp : Slab) : SlabLayer := { L with slab := Function.update L.slab i sp }

def kmemHash (mask : Nat) (e : Nat × Nat) : Nat := (e.1 >>> c.hashShift) &&& mask

def hashAdd (L : SlabLayer) (e : Nat × Nat) : SlabLayer :=
  if c.hashed then { L with cacheHashTable := pushBucket (kmemHash c L.cacheHashMask) L.cacheHashTable e } else L

/-- `KMEM_SLAB_MEMBER`. -/
def slabMember (sp : Slab) (buf : Nat) : Bool := decide (sp.slabBase ≤ buf ∧ buf - sp.slabBase < c.slabsize)

/-- `KMEM_SLAB_IS_PARTIAL`. -/
def slabIsPartial (sp : Slab) : Prop := 0 < sp.slabRefcnt ∧ sp.slabRefcnt < sp.slabChunks

instance (sp : Slab) : Decidable (slabIsPartial sp) := inferInstanceAs (Decidable (_ ∧ _))

/-- The end of `kmem_slab_alloc_impl`. A prefill takes the rest of the free list too. -/
def slabPlace (L : SlabLayer) (i : Nat) (sp : Slab) (newSlab prefill : Bool) : Except Fault (SlabLayer × List Nat) :=
  if sp.slabHead = [] then do
    ASSERT (sp.slabRefcnt = sp.slabChunks)
    ASSERT (if newSlab then sp.slabChunks = 1 else sp.slabChunks > 1)
    .ok ({ L with
      cachePartialSlabs := if newSlab then L.cachePartialSlabs else L.cachePartialSlabs.erase i
      cacheCompleteSlabs := i :: L.cacheCompleteSlabs }, [])
  else do
    ASSERT (slabIsPartial sp)
    if newSlab ∧ prefill ∧ c.prefill then do
      ASSERT (sp.slabRefcnt = 1)
      ASSERT (sp.slabRefcnt < sp.slabChunks ∧ i ∉ L.cachePartialSlabs)
      let L := L.setSlab i { sp with slabHead := [], slabRefcnt := sp.slabChunks }
      .ok ({ L with cacheCompleteSlabs := i :: L.cacheCompleteSlabs }, sp.slabHead)
    else if newSlab then .ok ({ L with cachePartialSlabs := i :: L.cachePartialSlabs }, [])
    else .ok (L, [])

/-- `kmem_slab_alloc_impl` on the slab `sp` at `i`: a buffer, and those for magazines. -/
def kmemSlabAllocImpl (L : SlabLayer) (i : Nat) (sp : Slab) (prefill : Bool) : Except Fault (Nat × List Nat × SlabLayer) := do
  ASSERT (sp.slabRefcnt = 0 ∨ slabIsPartial sp ∧ i ∈ L.cachePartialSlabs)
  match sp.slabHead with
  | [] => .error .bounds
  | buf :: rest => do
    let sp' := { sp with slabRefcnt := sp.slabRefcnt + 1, slabHead := rest }
    let L := hashAdd c (L.setSlab i sp') (buf, i)
    ASSERT (slabMember c sp' buf = true)
    let (L, more) ← slabPlace c L i sp' (decide (sp.slabRefcnt = 0)) prefill
    .ok (buf, more, L)

/-- The lookup of `kmem_slab_free`. Without a table a slab is found by its address. -/
def slabLookup (L : SlabLayer) (buf : Nat) : Option (Nat × SlabLayer) :=
  if c.hashed then
    let bucket := kmemHash c L.cacheHashMask (buf, 0)
    match (L.cacheHashTable bucket).find? (·.1 = buf) with
    | none => none
    | some e => some (e.2, { L with
        cacheHashTable := Function.update L.cacheHashTable bucket ((L.cacheHashTable bucket).eraseP (·.1 = buf)) })
  else
    let i := buf / c.slabsize * c.slabsize
    if i ∈ L.cachePartialSlabs ∨ i ∈ L.cacheCompleteSlabs then some (i, L) else none

/-- The end of `kmem_slab_free`. A slab without allocations is destroyed. -/
def slabRelease (L : SlabLayer) (i buf : Nat) : Except Fault SlabLayer := do
  let sp := L.slab i
  ASSERT (sp.slabRefcnt ≥ 1)
  let L := L.setSlab i { sp with slabHead := buf :: sp.slabHead, slabRefcnt := sp.slabRefcnt - 1 }
  if sp.slabRefcnt - 1 = 0 then
    .ok (if sp.slabChunks = 1 then { L with cacheCompleteSlabs := L.cacheCompleteSlabs.erase i }
      else { L with cachePartialSlabs := L.cachePartialSlabs.erase i })
  else if sp.slabHead = [] then do
    ASSERT (sp.slabRefcnt - 1 = sp.slabChunks - 1)
    ASSERT (sp.slabChunks > 1)
    .ok { L with
      cacheCompleteSlabs := L.cacheCompleteSlabs.erase i
      cachePartialSlabs := i :: L.cachePartialSlabs }
  else .ok L

/-- `kmem_slab_free`; a bad address is an error. -/
def kmemSlabFree (L : SlabLayer) (buf : Nat) : Except Fault SlabLayer :=
  match slabLookup c L buf with
  | none => .error .verify
  | some (i, L) => do
    VERIFY (slabMember c (L.slab i) buf = true)
    slabRelease L i buf

/-- `kmem_hash_rescale`, once the new table is there. -/
def kmemHashRescale (L : SlabLayer) (newSize : Nat) : SlabLayer :=
  { L with
    cacheHashMask := newSize - 1
    cacheHashTable := ((List.range (L.cacheHashMask + 1)).flatMap L.cacheHashTable).foldl
      (pushBucket (kmemHash c (newSize - 1))) fun _ => [] }

/-! ## The magazine layer -/

/-- `kmem_magazine_t`. `mtType` is what `KMEM_MAGAZINE_VALID` reads. -/
structure Mag where
  mtType : Nat
  magRound : Nat → Nat

/-- `kmem_cpu_cache_t`. -/
structure CpuCache where
  (ccLoaded ccPloaded : Option Mag)
  (ccRounds ccProunds : Int)
  ccMagsize : Nat

/-- `kmem_maglist_t`. -/
structure Maglist where
  mlList : List Mag
  (mlTotal mlMin mlReaplimit : Nat)

structure MagLayer where
  cpu : Nat → CpuCache
  (cacheFull cacheEmpty : Maglist)
  cacheMagtype : Nat

def MagLayer.setCpu (m : MagLayer) (i : Nat) (cc : CpuCache) : MagLayer := { m with cpu := Function.update m.cpu i cc }

/-- `kmem_depot_alloc`, for one of the lists. -/
def Maglist.alloc (ml : Maglist) (magtype : Nat) : Except Fault (Option Mag × Maglist) :=
  match ml.mlList with
  | [] => .ok (none, ml)
  | mp :: rest => do
    ASSERT (mp.mtType = magtype)
    .ok (some mp, { ml with mlList := rest, mlTotal := ml.mlTotal - 1, mlMin := min ml.mlMin (ml.mlTotal - 1) })

/-- `kmem_depot_free`. -/
def Maglist.free (ml : Maglist) (magtype : Nat) (mp : Mag) : Except Fault Maglist := do
  ASSERT (mp.mtType = magtype)
  .ok { ml with mlList := mp :: ml.mlList, mlTotal := ml.mlTotal + 1 }

/-- The previously loaded magazine goes to the depot, if there is one. -/
def Maglist.freeOpt (ml : Maglist) (magtype : Nat) : Option Mag → Except Fault Maglist
  | none => .ok ml
  | some mp => ml.free magtype mp

def Maglist.wsUpdate (ml : Maglist) : Maglist := { ml with mlReaplimit := ml.mlMin, mlMin := ml.mlTotal }

def Maglist.wsZero (ml : Maglist) : Maglist := { ml with mlReaplimit := ml.mlTotal, mlMin := ml.mlTotal }

def kmemDepotWsUpdate (m : MagLayer) : MagLayer := { m with cacheFull := m.cacheFull.wsUpdate, cacheEmpty := m.cacheEmpty.wsUpdate }

def kmemDepotWsZero (m : MagLayer) : MagLayer := { m with cacheFull := m.cacheFull.wsZero, cacheEmpty := m.cacheEmpty.wsZero }

def kmemCpuReload (cc : CpuCache) (mp : Option Mag) (rounds : Int) : Except Fault CpuCache := do
  ASSERT (cc.ccLoaded.isNone ∧ cc.ccRounds = -1 ∨ cc.ccLoaded.isSome ∧ cc.ccRounds + rounds = cc.ccMagsize)
  ASSERT (0 < cc.ccMagsize)
  .ok { cc with ccPloaded := cc.ccLoaded, ccProunds := cc.ccRounds, ccLoaded := mp, ccRounds := rounds }

/-- How `kmem_cache_alloc` goes on: with a buffer, in the slab layer, or with a full magazine. -/
inductive GetResult where
  | done (buf : Nat)
  | slab
  | full (mp : Mag)

/-- `kmem_cache_alloc`, under `cc_lock`, to its first use of the depot. -/
def getLoop (i : Nat) : (fuel : Nat) → MagLayer → Except Fault (GetResult × MagLayer)
  | 0, _ => .error .fuel
  | fuel + 1, m =>
    let cc := m.cpu i
    if cc.ccRounds > 0 then
      match cc.ccLoaded with
      | none => .error .bounds
      | some mp => .ok (.done (mp.magRound (cc.ccRounds - 1).toNat), m.setCpu i { cc with ccRounds := cc.ccRounds - 1 })
    else if cc.ccProunds > 0 then do
      let cc ← kmemCpuReload cc cc.ccPloaded cc.ccProunds
      getLoop i fuel (m.setCpu i cc)
    else if cc.ccMagsize = 0 then .ok (.slab, m)
    else do
      let (fmp, full) ← m.cacheFull.alloc m.cacheMagtype
      match fmp with
      | none => .ok (.slab, m)
      | some fmp => .ok (.full fmp, { m with cacheFull := full })

/-- The rest of the turn: the empty magazine goes to the depot. -/
def getFull (i : Nat) (fmp : Mag) (m : MagLayer) : Except Fault MagLayer := do
  let cc := m.cpu i
  let empty ← m.cacheEmpty.freeOpt m.cacheMagtype cc.ccPloaded
  let cc ← kmemCpuReload cc (some fmp) cc.ccMagsize
  .ok ({ m with cacheEmpty := empty }.setCpu i cc)

/-- How `kmem_cache_free` goes on: done, in the slab layer, with an empty magazine, or with one to be made. -/
inductive PutResult where
  | done
  | slab
  | empty (mp : Mag)
  | magazine

/-- `kmem_cache_free` and `kmem_slab_prefill`, under `cc_lock`, to their first use of the depot. -/
def putLoop (i buf : Nat) : (fuel : Nat) → MagLayer → Except Fault (PutResult × MagLayer)
  | 0, _ => .error .fuel
  | fuel + 1, m =>
    let cc := m.cpu i
    if 0 ≤ cc.ccRounds ∧ cc.ccRounds < cc.ccMagsize then
      match cc.ccLoaded with
      | none => .error .bounds
      | some mp => .ok (.done, m.setCpu i { cc with
          ccLoaded := some { mp with magRound := Function.update mp.magRound cc.ccRounds.toNat buf }
          ccRounds := cc.ccRounds + 1 })
    else if cc.ccProunds = 0 then do
      let cc ← kmemCpuReload cc cc.ccPloaded cc.ccProunds
      putLoop i buf fuel (m.setCpu i cc)
    else if cc.ccMagsize = 0 then .ok (.slab, m)
    else do
      ASSERT ((cc.ccRounds = cc.ccMagsize ∨ cc.ccRounds = -1) ∧ (cc.ccProunds = cc.ccMagsize ∨ cc.ccProunds = -1))
      let (emp, empty) ← m.cacheEmpty.alloc m.cacheMagtype
      match emp with
      | none => .ok (.magazine, m)
      | some emp => .ok (.empty emp, { m with cacheEmpty := empty })

/-- The rest of the turn: the full magazine goes to the depot. -/
def putEmpty (i : Nat) (emp : Mag) (m : MagLayer) : Except Fault MagLayer := do
  let cc := m.cpu i
  let full ← m.cacheFull.freeOpt m.cacheMagtype cc.ccPloaded
  let cc ← kmemCpuReload cc (some emp) 0
  .ok ({ m with cacheFull := full }.setCpu i cc)

/-- The end of `kmem_cpucache_magazine_alloc`: the depot gets a magazine of the right size. -/
def magazineInstall (m : MagLayer) (i mt : Nat) (mp : Mag) : Except Fault MagLayer :=
  if (m.cpu i).ccMagsize ≠ mtMagsize mt then .ok m
  else do
    let empty ← m.cacheEmpty.free m.cacheMagtype mp
    .ok { m with cacheEmpty := empty }

/-- The valid rounds of a magazine. -/
def rounds (mp : Option Mag) (n : Int) : List Nat :=
  match mp with
  | none => []
  | some mp => (List.range n.toNat).map mp.magRound

/-- `kmem_cache_magazine_purge`: what the magazines held, and the disabled cache. -/
def cpuPurge (m : MagLayer) (i : Nat) : Except Fault (List Nat × MagLayer) := do
  let cc := m.cpu i
  ASSERT (∀ mp ∈ cc.ccLoaded, mp.mtType = m.cacheMagtype)
  ASSERT (∀ mp ∈ cc.ccPloaded, mp.mtType = m.cacheMagtype)
  .ok (rounds cc.ccLoaded cc.ccRounds ++ rounds cc.ccPloaded cc.ccProunds, m.setCpu i ⟨none, none, -1, -1, 0⟩)

end Unleashed.Kernel.Kmem
