import Unleashed.Kernel.Cyclic.Fire

/-!
# Any sequence of operations on a CPU

In each state that the operations reach, the heap is a permutation of the indices with the cyclics in use in front,
and the timer is set to the first of them.
-/

namespace Unleashed.Kernel

open Lib Lib.Heap

/-- An operation on the cyclics of a CPU. -/
inductive CycOp where
  | add (spec : CycSpec) (gethrtime : Int)
  | remove (ndx : Nat) (wait : Bool)
  | reprogram (ndx : Nat) (expire : Int)
  | expand
  | fire {σ : Type} (handler : σ → Nat → σ × Option Int) (now : Int) (s : σ)
  -- the soft interrupt has made calls of a cyclic
  | softint (ndx pend : Nat)
  | suspend
  | resume

/-- What the callers of an operation see to. -/
def CycOp.Allowed (cpu : CycCpu) : CycOp → Prop
  | .add spec _ => cpu.cypState = .online ∧ spec.cytWhen ≥ 0 ∧ spec.cytInterval > 0
  | .remove ndx _ => cpu.cypState = .online ∧ ndx < cpu.cypSize ∧ (cpu.cypCyclics ndx).cyFlags.free = false
  | .reprogram ndx _ => ndx < cpu.cypSize ∧ (cpu.cypCyclics ndx).cyFlags.free = false
  | .expand => cpu.cypState = .online
  | .fire handler now _ => now < cyInfinity ∧ ∀ s ndx e, (handler s ndx).2 = some e → now < e
  | .softint ndx pend => pend ≤ (cpu.cypCyclics ndx).cyPend
  | .suspend => cpu.cypState = .online
  | .resume => cpu.cypState = .suspended

def CycOp.run (cpu : CycCpu) : CycOp → Except Fault CycCpu
  | .add spec gethrtime => do
    let (cpu, _) ← cyclicAddHere cpu spec gethrtime
    .ok cpu
  | .remove ndx wait => do
    let (cpu, _) ← cyclicRemoveHere cpu ndx wait
    .ok cpu
  | .reprogram ndx expire => cyclicReprogramCyclic cpu ndx expire
  | .expand => cyclicExpand cpu
  | .fire handler now s => do
    let (cpu, _) ← cyclicFire handler cpu now s
    .ok cpu
  | .softint ndx pend => .ok (cpu.setCyclic ndx { cpu.cypCyclics ndx with cyPend := pend })
  | .suspend => cyclicSuspendXcall cpu
  | .resume => cyclicResumeXcall cpu

/-- The states of a CPU. -/
inductive CycReachable : CycCpu → Prop where
  | configure : CycReachable cyclicConfigure
  | step {cpu cpu' : CycCpu} (op : CycOp) : CycReachable cpu → op.Allowed cpu → op.run cpu = .ok cpu' → CycReachable cpu'

/-- The invariant between operations. -/
structure CycCpu.Quiet (cpu : CycCpu) : Prop extends cpu.Valid where
  rpend : cpu.cypRpend = 0
  idle : cpu.cypNelems = 0 → cpu.timer = none

lemma cyclicConfigure_quiet : cyclicConfigure.Quiet := by
  have hfree : ∀ ndx, (cyclicConfigure.cypCyclics ndx).cyFlags = cyfFree := fun _ => rfl
  refine ⟨⟨⟨⟨0, rfl⟩, ?_, ?_, ?_, ?_, ?_, ?_, ?_⟩, ?_, ?_⟩, rfl, fun _ => rfl⟩
  · exact Nat.zero_le _
  · exact fun i hi => hi
  · exact fun i _ j _ h => h
  · exact fun i _ => ⟨fun h => absurd (hfree _ ▸ h) (by decide), fun h => absurd h (Nat.not_lt_zero i)⟩
  · exact fun i hi => absurd hi (Nat.not_lt_zero i)
  · exact fun ndx _ => hfree ndx
  · exact fun _ _ => rfl
  · exact fun i _ hi => absurd hi (Nat.not_lt_zero i)
  · exact fun _ => rfl

section
variable {cpu cpu' : CycCpu}

lemma CycCpu.Valid.quiet (h : cpu.Valid) (hstate : cpu.cypState = .online) (hrpend : cpu.cypRpend = 0) : cpu.Quiet :=
  ⟨h, hrpend, fun h0 => by rw [h.programmed (by rw [hstate]; decide), if_pos h0]⟩

lemma cyclicSuspendXcall_spec (h : cpu.Quiet) (hstate : cpu.cypState = .online) :
    ∃ cpu', cyclicSuspendXcall cpu = .ok cpu' ∧ cpu'.Quiet := by
  unfold cyclicSuspendXcall
  rw [ASSERT_bind (.inl hstate)]
  split
  · rw [ASSERT_bind hstate]
    refine ⟨_, rfl, ?_⟩
    rw [if_pos (show cpu.cybDisable.cypState = .online from hstate)]
    exact ⟨⟨(h.indexed.timer none).state .suspended _, h.ordered, fun hs => absurd rfl hs⟩, h.rpend, fun _ => rfl⟩
  · refine ⟨_, rfl, ?_⟩
    rw [if_pos hstate]
    exact ⟨⟨h.indexed.state .suspended _, h.ordered, fun hs => absurd rfl hs⟩, h.rpend, h.idle⟩

lemma cyclicResumeXcall_spec (h : cpu.Quiet) (hstate : cpu.cypState = .suspended) :
    ∃ cpu', cyclicResumeXcall cpu = .ok cpu' ∧ cpu'.Quiet := by
  unfold cyclicResumeXcall
  dsimp only
  rw [ASSERT_bind (.inl hstate)]
  simp only [if_pos hstate]
  split
  next hpos =>
    rw [ASSERT_bind hstate]
    refine ⟨_, rfl, CycCpu.Valid.quiet ⟨(h.indexed.timer _).state .online _, h.ordered, fun _ => ?_⟩ rfl h.rpend⟩
    exact (if_neg hpos.ne').symm
  next hpos =>
    have h0 : cpu.cypNelems = 0 := by omega
    refine ⟨_, rfl, CycCpu.Valid.quiet ⟨h.indexed.state .online _, h.ordered, fun _ => ?_⟩ rfl h.rpend⟩
    rw [if_pos h0]
    exact h.idle h0

lemma softint_quiet (h : cpu.Quiet) {ndx pend : Nat} (hpend : pend ≤ (cpu.cypCyclics ndx).cyPend) :
    (cpu.setCyclic ndx { cpu.cypCyclics ndx with cyPend := pend }).Quiet := by
  have hexp : (cpu.setCyclic ndx { cpu.cypCyclics ndx with cyPend := pend }).expireAt = cpu.expireAt := by
    funext i
    unfold CycCpu.expireAt CycCpu.setCyclic
    dsimp only
    rcases eq_or_ne (cpu.cypHeap i) ndx with heq | hne
    · rw [heq, Function.update_self]
    · rw [Function.update_of_ne hne]
  refine ⟨⟨h.indexed.setCyclic rfl rfl fun hc => ?_, ?_, fun hs => ?_⟩, h.rpend, h.idle⟩
  · exact Nat.le_zero.1 (hpend.trans_eq (h.indexed.pend ndx hc))
  · rw [hexp]; exact h.ordered
  · rw [hexp]; exact h.programmed hs

/-- **An operation** returns, and keeps the invariant. -/
theorem CycOp.run_spec (h : cpu.Quiet) {op : CycOp} (hop : op.Allowed cpu) : ∃ cpu', op.run cpu = .ok cpu' ∧ cpu'.Quiet := by
  cases op with
  | add spec gethrtime =>
    obtain ⟨hstate, hwhen, hint⟩ := hop
    obtain ⟨cpu', ndx, heq, h', hstate', hrpend⟩ := cyclicAddHere_spec h.toValid hstate hwhen hint gethrtime
    exact ⟨cpu', by rw [CycOp.run, heq]; rfl, h'.quiet hstate' (hrpend.trans h.rpend)⟩
  | remove ndx wait =>
    obtain ⟨hstate, hndx, hlive⟩ := hop
    obtain ⟨cpu', removed, heq, h', hstate', hrpend⟩ := cyclicRemoveHere_spec h.toValid hstate h.rpend hndx hlive wait
    exact ⟨cpu', by rw [CycOp.run, heq]; rfl, h'.quiet hstate' hrpend⟩
  | reprogram ndx expire =>
    obtain ⟨hndx, hlive⟩ := hop
    obtain ⟨cpu', heq, hidx, hord, hprog, hsame⟩ := cyclicReprogramCyclic_spec h.indexed h.ordered hndx hlive expire
    obtain ⟨i, hi, -⟩ := h.indexed.position hndx hlive
    refine ⟨cpu', heq, ⟨hidx, hord, hprog h.programmed⟩, hsame.rpend.trans h.rpend, fun h0 => ?_⟩
    exact absurd (hsame.nelems.symm.trans h0) (Nat.ne_zero_of_lt hi)
  | expand =>
    obtain ⟨cpu', heq, h', hstate', -, -, hrpend⟩ := cyclicExpand_spec h.toValid hop
    exact ⟨cpu', heq, h'.quiet hstate' (hrpend.trans h.rpend)⟩
  | fire handler now s =>
    obtain ⟨hnow, hhandler⟩ := hop
    rcases Nat.eq_zero_or_pos cpu.cypNelems with h0 | hpos
    · refine ⟨cpu, ?_, h⟩
      rw [CycOp.run, cyclicFire, if_pos h0]
      rfl
    · obtain ⟨cpu', s', expired, heq, h', hfired, -⟩ := cyclicFire_spec h.toValid hnow hhandler s
      refine ⟨cpu', by rw [CycOp.run, heq]; rfl, h', hfired.rpend.trans h.rpend, fun h0 => ?_⟩
      exact absurd (hfired.nelems.symm.trans h0) hpos.ne'
  | softint ndx pend => exact ⟨_, rfl, softint_quiet h hop⟩
  | suspend => exact cyclicSuspendXcall_spec h hop
  | resume => exact cyclicResumeXcall_spec h hop

/-- **Every state of a CPU** satisfies the invariant. -/
theorem CycReachable.quiet (h : CycReachable cpu) : cpu.Quiet := by
  induction h with
  | configure => exact cyclicConfigure_quiet
  | step op _ hop heq ih =>
    obtain ⟨cpu', heq', h'⟩ := CycOp.run_spec ih hop
    rw [heq, Except.ok.injEq] at heq'
    exact heq' ▸ h'

end

/-- The cyclics in use. -/
def CycCpu.Live (cpu : CycCpu) (ndx : Nat) : Prop := ndx < cpu.cypSize ∧ (cpu.cypCyclics ndx).cyFlags.free = false

section
variable {cpu cpu' : CycCpu}

lemma CycCpu.Indexed.bijOn (h : cpu.Indexed) : Set.BijOn cpu.cypHeap (Set.Iio cpu.cypSize) (Set.Iio cpu.cypSize) := by
  refine ⟨fun i hi => h.maps i hi, fun i hi j hj heq => h.inj i hi j hj heq, ?_⟩
  have hsurj := Finset.surjOn_of_injOn_of_card_le (s := Finset.range cpu.cypSize) (t := Finset.range cpu.cypSize) cpu.cypHeap
    (fun i hi => by simpa using h.maps i (by simpa using hi))
    (fun i hi j hj heq => h.inj i (by simpa using hi) j (by simpa using hj) heq) le_rfl
  rwa [Finset.coe_range] at hsurj

lemma CycCpu.Indexed.live_iff (h : cpu.Indexed) {ndx : Nat} : cpu.Live ndx ↔ ∃ i < cpu.cypNelems, cpu.cypHeap i = ndx := by
  constructor
  · rintro ⟨hndx, hlive⟩
    exact h.position hndx hlive
  · rintro ⟨i, hi, rfl⟩
    have hlt := hi.trans_le h.le
    exact ⟨h.maps i hlt, (h.live i hlt).2 hi⟩

lemma CycCpu.Valid.isLeast (h : cpu.Valid) (hpos : 0 < cpu.cypNelems) :
    IsLeast {e | ∃ ndx, cpu.Live ndx ∧ (cpu.cypCyclics ndx).cyExpire = e} (cpu.expireAt 0) := by
  refine ⟨⟨cpu.cypHeap 0, h.indexed.live_iff.2 ⟨0, hpos, rfl⟩, rfl⟩, ?_⟩
  rintro e ⟨ndx, hlive, rfl⟩
  obtain ⟨i, hi, rfl⟩ := h.indexed.live_iff.1 hlive
  exact h.ordered.root_le i hi

/-- **Any sequence of operations** leaves a permutation of the indices, ordered as a heap, with the timer set to the
first expiration. `cyclic_fire` expires what is due and keeps the phase of what its handler does not reprogram. -/
theorem cyclic_heap (h : CycReachable cpu) : Set.BijOn cpu.cypHeap (Set.Iio cpu.cypSize) (Set.Iio cpu.cypSize) ∧
    (∀ ndx, cpu.Live ndx ↔ ∃ i < cpu.cypNelems, cpu.cypHeap i = ndx) ∧
    Ordered cpu.expireAt cpu.cypNelems ∧
    (cpu.cypState ≠ .suspended → 0 < cpu.cypNelems →
      ∃ e, cpu.timer = some e ∧ IsLeast {e | ∃ ndx, cpu.Live ndx ∧ (cpu.cypCyclics ndx).cyExpire = e} e) ∧
    (cpu.cypNelems = 0 → cpu.timer = none) ∧
    (∀ op : CycOp, op.Allowed cpu → ∃ cpu', op.run cpu = .ok cpu' ∧ CycReachable cpu') ∧
    ∀ (σ : Type) (handler : σ → Nat → σ × Option Int) (now : Int) (s : σ), (CycOp.fire handler now s).Allowed cpu →
      ∃ cpu' s' expired, cyclicFire handler cpu now s = .ok (cpu', s', expired) ∧ CycReachable cpu' ∧
        (∀ ndx, cpu'.Live ndx ↔ cpu.Live ndx) ∧
        (∀ ndx, cpu'.Live ndx → now < (cpu'.cypCyclics ndx).cyExpire) ∧
        (∀ ndx, ndx ∈ expired ↔ cpu.Live ndx ∧ (cpu.cypCyclics ndx).cyExpire ≤ now) ∧
        ∀ ndx, (cpu.cypCyclics ndx).cyInterval ≠ cyInfinity →
          ((cpu.cypCyclics ndx).cyLevel ≠ .high ∨ ∀ s, (handler s ndx).2 = none) →
          (cpu.cypCyclics ndx).cyInterval ∣ (cpu'.cypCyclics ndx).cyExpire - (cpu.cypCyclics ndx).cyExpire := by
  have hq := h.quiet
  refine ⟨hq.indexed.bijOn, fun _ => hq.indexed.live_iff, hq.ordered, fun hs hpos => ?_, hq.idle, fun op hop => ?_,
    fun σ handler now s hop => ?_⟩
  · exact ⟨_, (hq.programmed hs).trans (if_neg hpos.ne'), hq.isLeast hpos⟩
  · obtain ⟨cpu', heq, -⟩ := CycOp.run_spec hq hop
    exact ⟨cpu', heq, .step op h hop heq⟩
  · obtain ⟨cpu', s', expired, heq, h', hfired, hfuture⟩ := cyclicFire_spec hq.toValid hop.1 hop.2 s
    have hlive : ∀ ndx, cpu'.Live ndx ↔ cpu.Live ndx := fun ndx => by
      unfold CycCpu.Live
      rw [hfired.size, hfired.flags]
    have hlater : ∀ ndx, cpu'.Live ndx → now < (cpu'.cypCyclics ndx).cyExpire := by
      intro ndx hl
      obtain ⟨i, hi, rfl⟩ := h'.indexed.live_iff.1 hl
      exact hfuture i hi
    refine ⟨cpu', s', expired, heq, .step (.fire handler now s) h hop (by rw [CycOp.run, heq]; rfl), hlive, hlater, fun ndx => ⟨fun hmem => ?_, ?_⟩,
      hfired.modulo⟩
    · obtain ⟨hndx, hl, hdue⟩ := hfired.due ndx hmem
      exact ⟨⟨hndx, hl⟩, hdue⟩
    · rintro ⟨hl, hdue⟩
      by_contra hmem
      have := hlater ndx ((hlive ndx).2 hl)
      rw [hfired.rest ndx hmem] at this
      omega

/-- A CPU with one periodic cyclic at CY_HIGH_LEVEL. -/
def periodicCpu : CycCpu :=
  ⟨1, 1, fun i => i, Function.update (fun _ => .unused) 0 ⟨10, 10, 0, ⟨false, false, false⟩, .high⟩, .online, 0, some 10⟩

lemma periodicCpu_reachable : CycReachable periodicCpu := by
  refine .step (.add ⟨.high, 10, 10, false, false⟩ 0) .configure ⟨rfl, by decide, by decide⟩ ?_
  have hup : ∀ cpu : CycCpu, cyclicUpheap cpu cyclicConfigure.cypNelems = (cpu, true) := fun cpu => by
    unfold cyclicUpheap
    rw [upheapLoop, if_pos (by decide)]
  have hadd : cyclicAddXcall cyclicConfigure ⟨.high, 10, 10, false, false⟩ 0 = .ok (periodicCpu, 0) := by
    rw [cyclicAddXcall, ASSERT_bind (by decide), ASSERT_bind (by decide)]
    dsimp only
    rw [hup]
    rfl
  rw [CycOp.run, cyclicAddHere, ASSERT_bind (show cyclicConfigure.cypState = .online from rfl), ASSERT_bind (by decide),
    if_neg (by decide), hadd]
  rfl

/-- The second cyclic of a CPU expires before the first and takes its place. -/
lemma cyclicUpheap_second {cpu : CycCpu} (h : cpu.expireAt 1 < cpu.expireAt 0) :
    cyclicUpheap cpu 1 = ({ cpu with cypHeap := swapEntries cpu.cypHeap 0 1 }, true) := by
  have hlt : ¬ (cpu.cypCyclics (cpu.cypHeap 1)).cyExpire ≥ (cpu.cypCyclics (cpu.cypHeap (parent 1))).cyExpire := not_le.2 h
  unfold cyclicUpheap
  rw [upheapLoop, if_neg Nat.one_ne_zero]
  dsimp only
  rw [if_neg hlt, upheapLoop, if_pos (show parent 1 = 0 from rfl)]
  rfl

/-- An earlier cyclic at a low level, which makes room for itself. -/
lemma add_periodicCpu : ∃ cpu, (CycOp.add ⟨.low, 4, 7, false, false⟩ 0).run periodicCpu = .ok cpu ∧ cpu.timer = some 4 ∧
    cpu.cypState = .online ∧ cpu.cypNelems = 2 ∧ cpu.cypSize = 2 ∧ ∀ ndx < 2, cpu.Live ndx ∧ (cpu.cypCyclics ndx).cyExpire ≤ 10 := by
  have hexpand : cyclicExpand periodicCpu = .ok { periodicCpu with
      cypHeap := fun i => if i < 1 then i else i
      cypCyclics := fun i => if i < 1 then periodicCpu.cypCyclics i else .unused
      cypSize := 2 } := rfl
  rw [CycOp.run, cyclicAddHere, ASSERT_bind (show periodicCpu.cypState = .online from rfl), ASSERT_bind (by decide),
    if_pos (show periodicCpu.cypNelems = periodicCpu.cypSize from rfl), hexpand, ok_bind, cyclicAddXcall,
    ASSERT_bind (by decide), ASSERT_bind (by decide)]
  dsimp only
  rw [show periodicCpu.cypNelems = 1 from rfl, cyclicUpheap_second (by decide)]
  refine ⟨_, rfl, rfl, rfl, rfl, rfl, fun ndx hndx => ?_⟩
  interval_cases ndx
  · exact ⟨⟨by decide, rfl⟩, by decide⟩
  · exact ⟨⟨by decide, rfl⟩, by decide⟩

/-- A second cyclic is added and takes the root; both are due at 10. -/
theorem cyclic_heap_two : ∃ cpu cpu' s' expired, (CycOp.add ⟨.low, 4, 7, false, false⟩ 0).run periodicCpu = .ok cpu ∧
    CycReachable cpu ∧ cpu.timer = some 4 ∧
    IsLeast {e | ∃ ndx, cpu.Live ndx ∧ (cpu.cypCyclics ndx).cyExpire = e} 4 ∧
    cyclicFire (fun (_ : Unit) _ => ((), none)) cpu 10 () = .ok (cpu', s', expired) ∧ CycReachable cpu' ∧
    (∀ ndx, ndx ∈ expired ↔ ndx < 2) ∧ ∀ ndx < 2, 10 < (cpu'.cypCyclics ndx).cyExpire := by
  obtain ⟨cpu, hrun, htimer, hstate, hnelems, hsize, hdue⟩ := add_periodicCpu
  have hreach : CycReachable cpu := .step (.add ⟨.low, 4, 7, false, false⟩ 0) periodicCpu_reachable ⟨rfl, by decide, by decide⟩ hrun
  obtain ⟨-, -, -, hleast, -, -, hfire⟩ := cyclic_heap hreach
  obtain ⟨e, he, hmin⟩ := hleast (by rw [hstate]; decide) (by omega)
  obtain rfl : 4 = e := Option.some.inj (htimer.symm.trans he)
  obtain ⟨cpu', s', expired, hrun', hreach', hlive, hlater, hexpired, -⟩ :=
    hfire Unit (fun _ _ => ((), none)) 10 () ⟨by decide, fun _ _ _ h => by cases h⟩
  refine ⟨cpu, cpu', s', expired, hrun, hreach, htimer, hmin, hrun', hreach', fun ndx => ?_, fun ndx hndx => ?_⟩
  · rw [hexpired]
    exact ⟨fun h => hsize ▸ h.1.1, fun h => hdue ndx h⟩
  · exact hlater ndx ((hlive ndx).2 (hdue ndx hndx).1)

/-- The periodic cyclic is reprogrammed, and so is the timer. -/
lemma reprogram_periodicCpu :
    cyclicReprogramCyclic periodicCpu 0 15 = .ok { periodicCpu.setExpire 0 15 with timer := some 15 } := by
  have hdown : ∀ cpu : CycCpu, cpu.cypNelems = 1 → cyclicDownheap cpu 0 = cpu := fun cpu hn => by
    unfold cyclicDownheap
    rw [downheapLoop, if_pos (by rw [hn])]
  have hfind : ((List.range periodicCpu.cypNelems).reverse.find? fun i => decide (periodicCpu.cypHeap i = 0)) = some 0 := rfl
  rw [cyclicReprogramCyclic, ASSERT_bind (by decide), hfind]
  dsimp only
  rw [if_pos (by decide), hdown _ rfl]
  rfl

/-- A handler that reprograms its periodic cyclic changes its phase. -/
theorem cyclicFire_reprogrammed_phase :
    ∃ cpu', CycReachable periodicCpu ∧ (CycOp.fire (fun (_ : Unit) _ => ((), some 15)) 10 ()).Allowed periodicCpu ∧
      cyclicFire (fun (_ : Unit) _ => ((), some 15)) periodicCpu 10 () = .ok (cpu', (), [0]) ∧
      (periodicCpu.cypCyclics 0).cyInterval ≠ cyInfinity ∧
      ¬ (periodicCpu.cypCyclics 0).cyInterval ∣ (cpu'.cypCyclics 0).cyExpire - (periodicCpu.cypCyclics 0).cyExpire := by
  refine ⟨{ periodicCpu.setExpire 0 15 with timer := some 15 }, periodicCpu_reachable, ⟨by decide, ?_⟩, ?_, by decide, by decide⟩
  · intro _ _ e he
    cases he
    decide
  · have hlate : lateness periodicCpu 10 = 1 := by decide
    have hround : fireRound (fun (_ : Unit) _ => ((), some 15)) 10 periodicCpu 0 () =
        .ok ({ periodicCpu.setExpire 0 15 with timer := some 15 }, ()) := by
      rw [fireRound, cyclicExpire, if_pos (show (periodicCpu.cypCyclics 0).cyLevel = .high from rfl)]
      dsimp only
      rw [reprogram_periodicCpu]
      rfl
    rw [cyclicFire, if_neg (by decide), hlate, fireLoop]
    dsimp only
    rw [ASSERT_bind (by decide), if_neg (by decide)]
    erw [hround]
    rfl

end

end Unleashed.Kernel
