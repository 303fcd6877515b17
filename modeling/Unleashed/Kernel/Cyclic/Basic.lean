import Unleashed.Lib.Fault
import Unleashed.Lib.Heap

/-!
# The cyclic subsystem of a CPU (`cyclic.c`)

Each CPU has an array of cyclics and a heap of indices into it by expiration time; the indices past the first
`cyp_nelems` are the free list. Arrays are functions of the index. Times are integers: no expiration plus interval
passes the range of `hrtime_t`.
-/

namespace Unleashed.Kernel

open Lib

inductive CycLevel where
  | low
  | lock
  | high
deriving DecidableEq, Repr

/-- `cy_flags`: CYF_FREE, CYF_CPU_BOUND and CYF_PART_BOUND. -/
structure CycFlags where
  (free cpuBound partBound : Bool)
deriving DecidableEq, Repr

/-- `cyclic_t`. -/
structure Cyclic where
  (cyExpire cyInterval : Int)
  cyPend : Nat
  cyFlags : CycFlags
  cyLevel : CycLevel
deriving DecidableEq, Repr

def cyfFree : CycFlags := ⟨true, false, false⟩

/-- A cyclic of a new array. -/
def Cyclic.unused : Cyclic := ⟨0, 0, 0, cyfFree, .low⟩

inductive CycState where
  | online
  | offline
  | expanding
  | removing
  | suspended
deriving DecidableEq, Repr

def cyInfinity : Int := 2 ^ 63 - 1

def nanosec : Int := 1000000000

/-- `cyc_cpu_t`; `timer` is the last `cyb_reprogram`, none after `cyb_disable`. -/
structure CycCpu where
  (cypSize cypNelems : Nat)
  cypHeap : Nat → Nat
  cypCyclics : Nat → Cyclic
  cypState : CycState
  cypRpend : Nat
  timer : Option Int

namespace CycCpu

/-- The expiration time of the cyclic at a position of the heap. -/
def expireAt (cpu : CycCpu) (i : Nat) : Int := (cpu.cypCyclics (cpu.cypHeap i)).cyExpire

def setCyclic (cpu : CycCpu) (ndx : Nat) (c : Cyclic) : CycCpu :=
  { cpu with cypCyclics := Function.update cpu.cypCyclics ndx c }

def setExpire (cpu : CycCpu) (ndx : Nat) (exp : Int) : CycCpu :=
  cpu.setCyclic ndx { cpu.cypCyclics ndx with cyExpire := exp }

def cybReprogram (cpu : CycCpu) (exp : Int) : CycCpu := { cpu with timer := some exp }

def cybDisable (cpu : CycCpu) : CycCpu := { cpu with timer := none }

end CycCpu

/-- The state that `cyclic_configure` and going online leave. -/
def cyclicConfigure : CycCpu := ⟨1, 0, fun i => i, fun _ => .unused, .online, 0, none⟩

/-- Change the places of two entries of the heap. -/
def swapEntries (heap : Nat → Nat) (i j : Nat) : Nat → Nat :=
  Function.update (Function.update heap i (heap j)) j (heap i)

/-- The loop of `cyclic_upheap`: whether the root was reached. -/
def upheapLoop (expire : Nat → Int) (heap : Nat → Nat) (heapCurrent : Nat) : (Nat → Nat) × Bool :=
  if heapCurrent = 0 then (heap, true)
  else
    let heapParent := Heap.parent heapCurrent
    if expire (heap heapCurrent) ≥ expire (heap heapParent) then (heap, false)
    else upheapLoop expire (swapEntries heap heapParent heapCurrent) heapParent
termination_by heapCurrent
decreasing_by exact Heap.parent_lt (Nat.pos_of_ne_zero ‹_›)

def cyclicUpheap (cpu : CycCpu) (ndx : Nat) : CycCpu × Bool :=
  let (heap, root) := upheapLoop (fun c => (cpu.cypCyclics c).cyExpire) cpu.cypHeap ndx
  ({ cpu with cypHeap := heap }, root)

/-- The loop of `cyclic_downheap`. -/
def downheapLoop (expire : Nat → Int) (nelems : Nat) (heap : Nat → Nat) (heapMe : Nat) : Nat → Nat :=
  let heapLeft := (heapMe + 1) * 2 - 1
  if heapLeft ≥ nelems then heap
  else
    let heapRight := (heapMe + 1) * 2
    if heapRight < nelems ∧ expire (heap heapRight) < expire (heap heapLeft) then
      if expire (heap heapMe) ≤ expire (heap heapRight) then heap
      else downheapLoop expire nelems (swapEntries heap heapRight heapMe) heapRight
    else if expire (heap heapMe) ≤ expire (heap heapLeft) then heap
    else downheapLoop expire nelems (swapEntries heap heapLeft heapMe) heapLeft
termination_by nelems - heapMe
decreasing_by all_goals omega

def cyclicDownheap (cpu : CycCpu) (ndx : Nat) : CycCpu :=
  { cpu with cypHeap := downheapLoop (fun c => (cpu.cypCyclics c).cyExpire) cpu.cypNelems cpu.cypHeap ndx }

/-- `cyclic_expand` with `cyclic_expand_xcall`. -/
def cyclicExpand (cpu : CycCpu) : Except Fault CycCpu := do
  ASSERT (cpu.cypState = .online)
  let size := cpu.cypSize
  let newSize := if size * 2 = 0 then 1 else size * 2
  ASSERT ((newSize - 1) &&& newSize = 0)
  ASSERT (newSize = size * 2)
  .ok { cpu with
    cypHeap := fun i => if i < size then cpu.cypHeap i else i
    cypCyclics := fun i => if i < size then cpu.cypCyclics i else .unused
    cypSize := newSize
    cypState := .online }

/-- A new cyclic: `cyc_handler_t`, `cyc_time_t` and its flags. -/
structure CycSpec where
  cyhLevel : CycLevel
  (cytWhen cytInterval : Int)
  (cpuBound partBound : Bool)

/-- `cyclic_add_xcall`: the index of the new cyclic. -/
def cyclicAddXcall (cpu : CycCpu) (spec : CycSpec) (gethrtime : Int) : Except Fault (CycCpu × Nat) := do
  ASSERT (cpu.cypNelems < cpu.cypSize)
  let nelems := cpu.cypNelems
  let ndx := cpu.cypHeap nelems
  let cyclic := cpu.cypCyclics ndx
  ASSERT (cyclic.cyFlags = cyfFree)
  let expire :=
    if spec.cytWhen = 0 then (gethrtime / spec.cytInterval + 1) * spec.cytInterval else spec.cytWhen
  let cpu := { cpu with cypNelems := nelems + 1 }.setCyclic ndx
    ⟨expire, spec.cytInterval, cyclic.cyPend, ⟨false, spec.cpuBound, spec.partBound⟩, spec.cyhLevel⟩
  let (cpu, root) := cyclicUpheap cpu nelems
  if root then .ok (cpu.cybReprogram expire, ndx) else .ok (cpu, ndx)

def cyclicAddHere (cpu : CycCpu) (spec : CycSpec) (gethrtime : Int) : Except Fault (CycCpu × Nat) := do
  ASSERT (cpu.cypState = .online)
  ASSERT (spec.cytWhen ≥ 0 ∧ spec.cytInterval > 0)
  if cpu.cypNelems = cpu.cypSize then do
    let cpu ← cyclicExpand cpu
    cyclicAddXcall cpu spec gethrtime
  else cyclicAddXcall cpu spec gethrtime

/-- The end of `cyclic_remove_xcall`, after position `i` of the heap has changed places with `last`. -/
def removeSift (cpu : CycCpu) (i root last : Nat) : Except Fault CycCpu :=
  if i = 0 then do
    let cpu := cyclicDownheap cpu 0
    ASSERT (cpu.cypNelems ≠ 0)
    .ok (cpu.cybReprogram (cpu.expireAt 0))
  else do
    let (cpu, up) := cyclicUpheap cpu i
    if up = false then do
      let cpu := if cpu.cypHeap i = last then cyclicDownheap cpu i else cpu
      ASSERT (cpu.cypHeap 0 = root)
      .ok cpu
    else do
      ASSERT (cpu.cypNelems ≠ 0)
      .ok (cpu.cybReprogram (cpu.expireAt 0))

/-- The rest of `cyclic_remove_xcall`, with the cyclic at position `i`. -/
def removeAt (cpu : CycCpu) (ndx i : Nat) : Except Fault CycCpu :=
  let nelems := cpu.cypNelems - 1
  let cpu := { cpu with cypNelems := nelems }
  let cpu := if nelems = 0 then cpu.cybDisable else cpu
  if i = nelems then .ok cpu
  else
    let root := cpu.cypHeap 0
    let last := cpu.cypHeap nelems
    removeSift { cpu with cypHeap := Function.update (Function.update cpu.cypHeap i last) nelems ndx } i root last

/-- `cyclic_remove_xcall`: the CPU, and whether the cyclic was removed. -/
def cyclicRemoveXcall (cpu : CycCpu) (ndx : Nat) (wait : Bool) : Except Fault (CycCpu × Bool) := do
  ASSERT (cpu.cypNelems > 0)
  let cyclic := cpu.cypCyclics ndx
  if cyclic.cyPend ≠ 0 ∧ wait = false then .ok (cpu, false)
  else do
    ASSERT (cyclic.cyPend ≠ 0 → cyclic.cyLevel ≠ .high)
    let cpu := if cyclic.cyPend ≠ 0 then { cpu with cypRpend := cyclic.cyPend } else cpu
    let cpu := cpu.setCyclic ndx { cyclic with cyPend := 0, cyFlags := cyfFree }
    match (List.range cpu.cypNelems).find? fun i => cpu.cypHeap i = ndx with
    | none => .error .verify
    | some i => do
      let cpu ← removeAt cpu ndx i
      .ok (cpu, true)

/-- `cyclic_remove_here`; with calls pending it waits for the soft interrupt. -/
def cyclicRemoveHere (cpu : CycCpu) (ndx : Nat) (wait : Bool) : Except Fault (CycCpu × Bool) := do
  ASSERT (cpu.cypRpend = 0)
  ASSERT (cpu.cypState = .online)
  let (cpu, removed) ← cyclicRemoveXcall { cpu with cypState := .removing } ndx wait
  if removed then .ok ({ cpu with cypRpend := 0, cypState := .online }, true)
  else .ok ({ cpu with cypState := .online }, false)

def cyclicReprogramCyclic (cpu : CycCpu) (ndx : Nat) (expire : Int) : Except Fault CycCpu := do
  ASSERT (cpu.cypNelems > 0)
  match (List.range cpu.cypNelems).reverse.find? fun i => cpu.cypHeap i = ndx with
  | none => .error .verify
  | some i =>
    let oexpire := (cpu.cypCyclics ndx).cyExpire
    let cpu := cpu.setExpire ndx expire
    let (cpu, reprog) :=
      if expire > oexpire then (cyclicDownheap cpu i, decide (i = 0))
      else if i > 0 then cyclicUpheap cpu i
      else (cpu, true)
    if reprog = true ∧ cpu.cypState ≠ .suspended then .ok (cpu.cybReprogram (cpu.expireAt 0))
    else .ok cpu

def cyclicSuspendXcall (cpu : CycCpu) : Except Fault CycCpu := do
  ASSERT (cpu.cypState = .online ∨ cpu.cypState = .offline)
  let cpu ← if cpu.cypNelems > 0 then do
      ASSERT (cpu.cypState = .online)
      .ok cpu.cybDisable
    else .ok cpu
  .ok (if cpu.cypState = .online then { cpu with cypState := .suspended } else cpu)

def cyclicResumeXcall (cpu : CycCpu) : Except Fault CycCpu := do
  let state := cpu.cypState
  ASSERT (state = .suspended ∨ state = .offline)
  let cpu ← if cpu.cypNelems > 0 then do
      ASSERT (state = .suspended)
      .ok (cpu.cybReprogram (cpu.expireAt 0))
    else .ok cpu
  .ok (if state = .suspended then { cpu with cypState := .online } else cpu)

section
variable {σ : Type} (handler : σ → Nat → σ × Option Int)

/-- `cyclic_expire`. A handler at CY_HIGH_LEVEL may reprogram its own cyclic. -/
def cyclicExpire (cpu : CycCpu) (ndx : Nat) (s : σ) : Except Fault (CycCpu × σ) :=
  let cyclic := cpu.cypCyclics ndx
  if cyclic.cyLevel = .high then
    match handler s ndx with
    | (s, none) => .ok (cpu, s)
    | (s, some expire) => do
      let cpu ← cyclicReprogramCyclic cpu ndx expire
      .ok (cpu, s)
  else
    let pend := if cyclic.cyPend = 2 ^ 32 - 1 then 2 ^ 32 - 1 else cyclic.cyPend + 1
    .ok (cpu.setCyclic ndx { cyclic with cyPend := pend }, s)

/-- The next expiration of a cyclic that expired at `exp`. -/
def nextExpire (now exp interval : Int) : Int :=
  let exp := if interval = cyInfinity then cyInfinity else exp + interval
  if now - exp > nanosec then exp + ((now - exp) / interval + 1) * interval else exp

/-- A round of `cyclic_fire`, for the cyclic `ndx` at the root. -/
def fireRound (now : Int) (cpu : CycCpu) (ndx : Nat) (s : σ) : Except Fault (CycCpu × σ) := do
  let exp := (cpu.cypCyclics ndx).cyExpire
  let (cpu, s) ← cyclicExpire handler cpu ndx s
  let cyclic := cpu.cypCyclics ndx
  -- the handler reprogrammed the cyclic
  if exp ≠ cyclic.cyExpire then .ok (cpu, s)
  else .ok (cyclicDownheap (cpu.setExpire ndx (nextExpire now exp cyclic.cyInterval)) 0, s)

/-- The loop of `cyclic_fire`: the indices that expired, in order. -/
def fireLoop (now : Int) : (fuel : Nat) → CycCpu → σ → Except Fault (CycCpu × σ × List Nat)
  | 0, _, _ => .error .fuel
  | fuel + 1, cpu, s => do
    let ndx := cpu.cypHeap 0
    ASSERT ((cpu.cypCyclics ndx).cyFlags.free = false)
    let exp := (cpu.cypCyclics ndx).cyExpire
    if exp > now then .ok (cpu.cybReprogram exp, s, [])
    else do
      let (cpu, s) ← fireRound handler now cpu ndx s
      let (cpu, s, expired) ← fireLoop now fuel cpu s
      .ok (cpu, s, ndx :: expired)

/-- How late the cyclics are, which bounds the rounds of `cyclic_fire`. -/
def lateness (cpu : CycCpu) (now : Int) : Nat :=
  ∑ i ∈ Finset.range cpu.cypNelems, (now + 1 - cpu.expireAt i).toNat

def cyclicFire (cpu : CycCpu) (now : Int) (s : σ) : Except Fault (CycCpu × σ × List Nat) :=
  if cpu.cypNelems = 0 then .ok (cpu, s, []) else fireLoop handler now (lateness cpu now + 1) cpu s

end

end Unleashed.Kernel
