import Unleashed.Kernel.Cyclic.Sift

/-!
# Adding, removing and reprogramming cyclics

Each operation keeps the invariant of a CPU and changes only what it should of the cyclics.
-/

namespace Unleashed.Kernel

open Lib Lib.Heap Function Bool CycCpu Equiv List Nat

variable {cpu : CycCpu} {i ndx : Nat}

lemma find?_of_exists {l : List Nat} {p : Nat → Bool} (h : ∃ i ∈ l, p i = true) :
    ∃ i ∈ l, l.find? p = some i ∧ p i = true := by
  cases hf : l.find? p with
  | none =>
    obtain ⟨i, hi, hp⟩ := h
    exact absurd hp (List.find?_eq_none.1 hf i hi)
  | some i => exact ⟨i, mem_of_find?_eq_some hf, rfl, List.find?_some hf⟩

lemma cyclicUpheap_spec (hidx : cpu.Indexed) (hi : i < cpu.cypNelems) (hole : UpHole cpu.expireAt cpu.cypNelems i) :
    ∃ p : Perm Nat, (cyclicUpheap cpu i).1 = { cpu with cypHeap := cpu.cypHeap ∘ p } ∧ Fixes p cpu.cypNelems ∧
      (cyclicUpheap cpu i).1.Indexed ∧ Ordered (cyclicUpheap cpu i).1.expireAt cpu.cypNelems ∧ (∀ j, i < j → p j = j) ∧
      ((cyclicUpheap cpu i).2 = true → p 0 = i) ∧ ((cyclicUpheap cpu i).2 = false → 0 < i ∧ p 0 = 0) := by
  obtain ⟨p, heq, hfix, hord, habove, htrue, hfalse⟩ := upheapLoop_spec i cpu.cypHeap hi
    (show UpHole ((fun c => (cpu.cypCyclics c).cyExpire) ∘ cpu.cypHeap) _ i from hole)
  have hcpu : (cyclicUpheap cpu i).1 = { cpu with cypHeap := cpu.cypHeap ∘ p } := by
    rw [← heq]
    rfl
  exact ⟨p, hcpu, hfix, hcpu ▸ hidx.permute hfix, by rw [hcpu]; exact hord, habove, htrue, hfalse⟩

lemma cyclicDownheap_spec (hidx : cpu.Indexed) (hi : i < cpu.cypNelems) (hole : DownHole cpu.expireAt cpu.cypNelems i) :
    ∃ p : Perm Nat, cyclicDownheap cpu i = { cpu with cypHeap := cpu.cypHeap ∘ p } ∧
      (cyclicDownheap cpu i).Indexed ∧ Ordered (cyclicDownheap cpu i).expireAt cpu.cypNelems ∧ ∀ j, j < i → p j = j := by
  obtain ⟨p, heq, hfix, hord, hbelow⟩ := downheapLoop_spec _ cpu.cypHeap i le_rfl hi
    (show DownHole ((fun c => (cpu.cypCyclics c).cyExpire) ∘ cpu.cypHeap) _ i from hole)
  have hcpu : cyclicDownheap cpu i = { cpu with cypHeap := cpu.cypHeap ∘ p } := by
    rw [← heq]
    rfl
  exact ⟨p, hcpu, hcpu ▸ hidx.permute hfix, by rw [hcpu]; exact hord, hbelow⟩

lemma setExpire_expireAt_self (cpu : CycCpu) (i : Nat) (exp : Int) : (cpu.setExpire (cpu.cypHeap i) exp).expireAt i = exp := by
  simp [expireAt, setExpire, setCyclic]

variable {j : Nat}

lemma setExpire_expireAt_ne (hidx : cpu.Indexed) (hi : i < cpu.cypSize) (exp : Int) (hj : j < cpu.cypSize)
    (hne : j ≠ i) : (cpu.setExpire (cpu.cypHeap i) exp).expireAt j = cpu.expireAt j := by
  have : cpu.cypHeap j ≠ cpu.cypHeap i := fun h => hne (hidx.inj j hj i hi h)
  simp [expireAt, setExpire, setCyclic, update_of_ne this]

lemma CycCpu.Indexed.setExpire (h : cpu.Indexed) (ndx : Nat) (exp : Int) : (cpu.setExpire ndx exp).Indexed :=
  h.setCyclic rfl rfl (h.pend ndx)

/-- Only the order of the heap and the timer may change. -/
structure SameCyclics (cpu cpu' : CycCpu) : Prop where
  size : cpu'.cypSize = cpu.cypSize
  nelems : cpu'.cypNelems = cpu.cypNelems
  cyclics : cpu'.cypCyclics = cpu.cypCyclics
  state : cpu'.cypState = cpu.cypState
  rpend : cpu'.cypRpend = cpu.cypRpend

/-- **`cyclic_reprogram_cyclic`** sets the expiration time of its cyclic. -/
theorem cyclicReprogramCyclic_spec (hidx : cpu.Indexed) (hord : Ordered cpu.expireAt cpu.cypNelems)
    (hndx : ndx < cpu.cypSize) (hlive : (cpu.cypCyclics ndx).cyFlags.free = false) (expire : Int) :
    ∃ cpu', cyclicReprogramCyclic cpu ndx expire = .ok cpu' ∧ cpu'.Indexed ∧ Ordered cpu'.expireAt cpu'.cypNelems ∧
      (cpu.Programmed → cpu'.Programmed) ∧ SameCyclics (cpu.setExpire ndx expire) cpu' := by
  have hex : ∃ i ∈ (List.range cpu.cypNelems).reverse, decide (cpu.cypHeap i = ndx) = true := by
    obtain ⟨i, hi, heq⟩ := hidx.position hndx hlive
    exact ⟨i, by simpa using hi, by simpa using heq⟩
  obtain ⟨i, hmem, hfind, hheap⟩ := find?_of_exists hex
  have hi : i < cpu.cypNelems := by simpa using hmem
  have his := hi.trans_le hidx.le
  obtain rfl : cpu.cypHeap i = ndx := by simpa using hheap
  have hidx1 := hidx.setExpire (cpu.cypHeap i) expire
  have hself := setExpire_expireAt_self cpu i expire
  have hother : ∀ j < cpu.cypNelems, j ≠ i → (cpu.setExpire (cpu.cypHeap i) expire).expireAt j = cpu.expireAt j :=
    fun j hj hne => setExpire_expireAt_ne hidx his expire (hj.trans_le hidx.le) hne
  have hold : (cpu.cypCyclics (cpu.cypHeap i)).cyExpire = cpu.expireAt i := rfl
  have hpos : cpu.cypNelems ≠ 0 := by omega
  unfold cyclicReprogramCyclic
  rw [ASSERT_bind (show cpu.cypNelems > 0 by omega), hfind]
  dsimp only
  -- the heap is put in order; the timer is set unless the root stayed
  have finish : ∀ (cpu2 : CycCpu) (reprog : Bool), SameCyclics (cpu.setExpire (cpu.cypHeap i) expire) cpu2 →
      cpu2.timer = cpu.timer → cpu2.Indexed → Ordered cpu2.expireAt cpu.cypNelems →
      (reprog = false → cpu2.expireAt 0 = cpu.expireAt 0) →
      ∃ cpu', (if reprog = true ∧ cpu2.cypState ≠ .suspended then .ok (cpu2.cybReprogram (cpu2.expireAt 0))
          else .ok cpu2 : Except Fault CycCpu) = .ok cpu' ∧
        cpu'.Indexed ∧ Ordered cpu'.expireAt cpu'.cypNelems ∧ (cpu.Programmed → cpu'.Programmed) ∧
        SameCyclics (cpu.setExpire (cpu.cypHeap i) expire) cpu' := by
    intro cpu2 reprog hsame htimer hidx2 hord2 hroot
    have hn : cpu2.cypNelems = cpu.cypNelems := hsame.nelems
    have hst : cpu2.cypState = cpu.cypState := hsame.state
    split
    · refine ⟨_, rfl, { hidx2 with }, hn ▸ hord2, fun _ _ => ?_, { hsame with }⟩
      show some (cpu2.expireAt 0) = if cpu2.cypNelems = 0 then none else some (cpu2.expireAt 0)
      rw [hn, if_neg hpos]
    next hcond =>
      refine ⟨_, rfl, hidx2, hn ▸ hord2, fun hprog hsus => ?_, hsame⟩
      have hr : reprog = false := by
        cases reprog with
        | false => rfl
        | true => exact absurd ⟨rfl, hsus⟩ hcond
      rw [htimer, hprog (hst ▸ hsus), hn, if_neg hpos, if_neg hpos, hroot hr]
  rw [hold]
  split
  next hgt =>
    obtain ⟨p, hcpu, hidx2, hord2, hbelow⟩ := cyclicDownheap_spec hidx1 hi (hord.raise hother (by rw [hself]; exact hgt.le))
    refine finish _ _ (by rw [hcpu]; exact ⟨rfl, rfl, rfl, rfl, rfl⟩) (by rw [hcpu]; rfl) hidx2 hord2 fun hroot => ?_
    have hi0 : 0 < i := pos_of_ne_zero (of_decide_eq_false hroot)
    rw [hcpu]
    show (cpu.setExpire (cpu.cypHeap i) expire).expireAt (p 0) = _
    rw [hbelow 0 hi0, hother 0 (by omega) hi0.ne]
  next hle =>
    have hole : UpHole (cpu.setExpire (cpu.cypHeap i) expire).expireAt cpu.cypNelems i :=
      hord.lower hother (by rw [hself]; exact not_lt.1 hle)
    split
    next hi0 =>
      obtain ⟨p, hcpu, -, hidx2, hord2, -, -, hfalse⟩ := cyclicUpheap_spec hidx1 hi hole
      refine finish _ _ (by rw [hcpu]; exact ⟨rfl, rfl, rfl, rfl, rfl⟩) (by rw [hcpu]; rfl) hidx2 hord2 fun hroot => ?_
      rw [hcpu]
      show (cpu.setExpire (cpu.cypHeap i) expire).expireAt (p 0) = _
      rw [(hfalse hroot).2, hother 0 (by omega) (by omega)]
    next hi0 =>
      exact finish _ _ ⟨rfl, rfl, rfl, rfl, rfl⟩ rfl hidx1 (hole.finish fun h => absurd h hi0) fun h => absurd h.symm false_ne_true

/-- **`cyclic_expand`** doubles the arrays; the new entries are free. -/
theorem cyclicExpand_spec (h : cpu.Valid) (hstate : cpu.cypState = .online) :
    ∃ cpu', cyclicExpand cpu = .ok cpu' ∧ cpu'.Valid ∧ cpu'.cypState = .online ∧ cpu'.cypSize = cpu.cypSize * 2 ∧
      cpu'.cypNelems = cpu.cypNelems ∧ cpu'.cypRpend = cpu.cypRpend := by
  obtain ⟨k, hk⟩ := h.indexed.size
  have hpos : 0 < 2 ^ k := Nat.two_pow_pos k
  have hne : cpu.cypSize * 2 ≠ 0 := by omega
  have hpow : cpu.cypSize * 2 = 2 ^ (k + 1) := by rw [hk, pow_succ]
  have hand : (cpu.cypSize * 2 - 1) &&& (cpu.cypSize * 2) = 0 := by
    rw [hpow, Nat.and_comm, Nat.and_two_pow_sub_one_eq_mod, Nat.mod_self]
  unfold cyclicExpand
  dsimp only
  rw [ASSERT_bind hstate, if_neg hne, ASSERT_bind hand, ASSERT_bind rfl]
  refine ⟨_, rfl, ?_⟩
  generalize hcpu1 : ({ cpu with
    cypHeap := fun i => if i < cpu.cypSize then cpu.cypHeap i else i
    cypCyclics := fun i => if i < cpu.cypSize then cpu.cypCyclics i else .unused
    cypSize := cpu.cypSize * 2
    cypState := .online } : CycCpu) = cpu1
  have hle := h.indexed.le
  have hn : cpu1.cypNelems = cpu.cypNelems := by rw [← hcpu1]
  have hsize : cpu1.cypSize = cpu.cypSize * 2 := by rw [← hcpu1]
  have hst : cpu1.cypState = .online := by rw [← hcpu1]
  have hrpend : cpu1.cypRpend = cpu.cypRpend := by rw [← hcpu1]
  have htimer : cpu1.timer = cpu.timer := by rw [← hcpu1]
  have hheap : ∀ i < cpu.cypSize, cpu1.cypHeap i = cpu.cypHeap i := fun i hi => by rw [← hcpu1]; exact if_pos hi
  have hheap' : ∀ i, ¬ i < cpu.cypSize → cpu1.cypHeap i = i := fun i hi => by rw [← hcpu1]; exact if_neg hi
  have hcyc : ∀ i < cpu.cypSize, cpu1.cypCyclics i = cpu.cypCyclics i := fun i hi => by rw [← hcpu1]; exact if_pos hi
  have hcyc' : ∀ i, ¬ i < cpu.cypSize → cpu1.cypCyclics i = .unused := fun i hi => by rw [← hcpu1]; exact if_neg hi
  have hget : ∀ i < cpu.cypSize, cpu1.cypCyclics (cpu1.cypHeap i) = cpu.cypCyclics (cpu.cypHeap i) := fun i hi => by
    rw [hheap i hi, hcyc _ (h.indexed.maps i hi)]
  refine ⟨⟨⟨⟨k + 1, hsize.trans hpow⟩, by omega, ?_, ?_, ?_, ?_, ?_, ?_⟩, ?_, ?_⟩, hst, hsize, hn, hrpend⟩
  · intro i hi
    rcases Nat.lt_or_ge i cpu.cypSize with hlt | hge
    · rw [hheap i hlt]; have := h.indexed.maps i hlt; omega
    · rw [hheap' i (by omega)]; exact hi
  · intro i hi j hj heq
    rcases Nat.lt_or_ge i cpu.cypSize with h1 | h1 <;> rcases Nat.lt_or_ge j cpu.cypSize with h2 | h2
    · rw [hheap i h1, hheap j h2] at heq; exact h.indexed.inj i h1 j h2 heq
    · rw [hheap i h1, hheap' j (by omega)] at heq; have := h.indexed.maps i h1; omega
    · rw [hheap' i (by omega), hheap j h2] at heq; have := h.indexed.maps j h2; omega
    · rwa [hheap' i (by omega), hheap' j (by omega)] at heq
  · intro i hi
    rcases Nat.lt_or_ge i cpu.cypSize with hlt | hge
    · rw [hget i hlt, hn]; exact h.indexed.live i hlt
    · rw [hheap' i (by omega), hcyc' i (by omega), hn]
      exact ⟨fun hf => absurd hf (by decide), fun hlt => absurd hlt (by omega)⟩
  · intro i hi
    rw [hget i (by omega)]
    exact h.indexed.interval i (by omega)
  · intro ndx hf
    rcases Nat.lt_or_ge ndx cpu.cypSize with hlt | hge
    · rw [hcyc ndx hlt] at hf ⊢; exact h.indexed.flags ndx hf
    · rw [hcyc' ndx (by omega)]; rfl
  · intro ndx hf
    rcases Nat.lt_or_ge ndx cpu.cypSize with hlt | hge
    · rw [hcyc ndx hlt] at hf ⊢; exact h.indexed.pend ndx hf
    · rw [hcyc' ndx (by omega)]; rfl
  · intro i h0 hi
    have hp := parent_lt h0
    unfold CycCpu.expireAt
    rw [hget _ (by omega), hget _ (by omega)]
    exact h.ordered i h0 (by omega)
  · intro _
    have hprog := h.programmed (by rw [hstate]; decide)
    unfold expireAt at hprog ⊢
    rw [hget 0 (by omega), htimer, hn]
    exact hprog

variable {spec : CycSpec}

/-- **`cyclic_add_xcall`** takes the first index of the free list. -/
theorem cyclicAddXcall_spec (h : cpu.Valid) (hlt : cpu.cypNelems < cpu.cypSize) (hstate : cpu.cypState = .online) (hint : spec.cytInterval > 0) (gethrtime : Int) :
    ∃ cpu' ndx, cyclicAddXcall cpu spec gethrtime = .ok (cpu', ndx) ∧ cpu'.Valid ∧ cpu'.cypState = .online ∧
      cpu'.cypRpend = cpu.cypRpend := by
  have hfree : (cpu.cypCyclics (cpu.cypHeap cpu.cypNelems)).cyFlags.free = true := by
    rw [← Bool.not_eq_false]
    exact fun hf => absurd ((h.indexed.live _ hlt).1 hf) (lt_irrefl _)
  have hpend := h.indexed.pend _ (.inl hfree)
  unfold cyclicAddXcall
  dsimp only
  rw [ASSERT_bind hlt, ASSERT_bind (h.indexed.flags _ hfree)]
  generalize (if spec.cytWhen = 0 then (gethrtime / spec.cytInterval + 1) * spec.cytInterval else spec.cytWhen) = exp
  generalize hc : (⟨exp, spec.cytInterval, (cpu.cypCyclics (cpu.cypHeap cpu.cypNelems)).cyPend,
    ⟨false, spec.cpuBound, spec.partBound⟩, spec.cyhLevel⟩ : Cyclic) = c
  generalize hcpu1 : ({ cpu with cypNelems := cpu.cypNelems + 1 } : CycCpu).setCyclic (cpu.cypHeap cpu.cypNelems) c = cpu1
  have hn : cpu1.cypNelems = cpu.cypNelems + 1 := by rw [← hcpu1]; rfl
  have hheap : cpu1.cypHeap = cpu.cypHeap := by rw [← hcpu1]; rfl
  have hsize : cpu1.cypSize = cpu.cypSize := by rw [← hcpu1]; rfl
  have hst : cpu1.cypState = .online := by rw [← hcpu1]; exact hstate
  have hrpend : cpu1.cypRpend = cpu.cypRpend := by rw [← hcpu1]; rfl
  have htimer : cpu1.timer = cpu.timer := by rw [← hcpu1]; rfl
  have hnewc : cpu1.cypCyclics (cpu.cypHeap cpu.cypNelems) = c := by rw [← hcpu1]; exact update_self ..
  have holdc : ∀ ndx, ndx ≠ cpu.cypHeap cpu.cypNelems → cpu1.cypCyclics ndx = cpu.cypCyclics ndx := by
    intro ndx hne
    rw [← hcpu1]
    exact update_of_ne hne ..
  have hold : ∀ i < cpu.cypSize, i ≠ cpu.cypNelems → cpu1.cypCyclics (cpu1.cypHeap i) = cpu.cypCyclics (cpu.cypHeap i) := by
    intro i hi hne
    rw [hheap]
    exact holdc _ fun heq => hne (h.indexed.inj i hi _ hlt heq)
  have hidx : cpu1.Indexed := by
    refine ⟨hsize ▸ h.indexed.size, by omega, ?_, ?_, ?_, ?_, ?_, ?_⟩
    · rw [hsize, hheap]; exact h.indexed.maps
    · rw [hsize, hheap]; exact h.indexed.inj
    · intro i hi
      rw [hsize] at hi
      rcases eq_or_ne i cpu.cypNelems with rfl | hne
      · rw [hheap, hnewc, ← hc, hn]
        exact ⟨fun _ => Nat.lt_succ_self _, fun _ => rfl⟩
      · rw [hold i hi hne, h.indexed.live i hi, hn]
        omega
    · intro i hi
      rcases eq_or_ne i cpu.cypNelems with rfl | hne
      · rw [hheap, hnewc, ← hc]; exact hint
      · rw [hold i (by omega) hne]; exact h.indexed.interval i (by omega)
    · intro ndx hf
      rcases eq_or_ne ndx (cpu.cypHeap cpu.cypNelems) with rfl | hne
      · rw [hnewc, ← hc] at hf; cases hf
      · rw [holdc ndx hne] at hf ⊢; exact h.indexed.flags ndx hf
    · intro ndx hf
      rcases eq_or_ne ndx (cpu.cypHeap cpu.cypNelems) with rfl | hne
      · rw [hnewc, ← hc]; exact hpend
      · rw [holdc ndx hne] at hf ⊢; exact h.indexed.pend ndx hf
  have hat : ∀ i < cpu.cypNelems, cpu1.expireAt i = cpu.expireAt i := fun i hi =>
    congrArg Cyclic.cyExpire (hold i (by omega) hi.ne)
  have hole : UpHole cpu1.expireAt cpu1.cypNelems cpu.cypNelems := by
    constructor
    · intro j h0 hj hne
      have hp := parent_lt h0
      rw [hat _ (by omega), hat j (by omega)]
      exact h.ordered j h0 (by omega)
    · intro _ j h0 hj hp
      have := parent_lt h0
      omega
  obtain ⟨p, hcpu, hfix, hidx2, hord2, -, htrue, hfalse⟩ := cyclicUpheap_spec hidx (by omega) hole
  generalize cyclicUpheap cpu1 cpu.cypNelems = res at hcpu hidx2 hord2 htrue hfalse ⊢
  obtain ⟨cpu2, root⟩ := res
  subst hcpu
  have hne0 : cpu1.cypNelems ≠ 0 := by omega
  cases root with
  | true =>
    rw [if_pos rfl]
    refine ⟨_, _, rfl, ⟨⟨hidx2.size, hidx2.le, hidx2.maps, hidx2.inj, hidx2.live, hidx2.interval, hidx2.flags, hidx2.pend⟩,
      hord2, fun _ => ?_⟩, hst, hrpend⟩
    show some exp = if cpu1.cypNelems = 0 then none else some (cpu1.expireAt (p 0))
    rw [if_neg hne0, htrue rfl, expireAt, hheap, hnewc, ← hc]
  | false =>
    rw [if_neg Bool.false_ne_true]
    refine ⟨_, _, rfl, ⟨hidx2, hord2, fun _ => ?_⟩, hst, hrpend⟩
    obtain ⟨hpos, hp0⟩ := hfalse rfl
    show cpu1.timer = if cpu1.cypNelems = 0 then none else some (cpu1.expireAt (p 0))
    rw [if_neg hne0, hp0, hat 0 hpos, htimer, h.programmed (by rw [hstate]; decide), if_neg hpos.ne']

/-- **`cyclic_add_here`**. -/
theorem cyclicAddHere_spec (h : cpu.Valid) (hstate : cpu.cypState = .online)
    (hwhen : spec.cytWhen ≥ 0) (hint : spec.cytInterval > 0) (gethrtime : Int) :
    ∃ cpu' ndx, cyclicAddHere cpu spec gethrtime = .ok (cpu', ndx) ∧ cpu'.Valid ∧ cpu'.cypState = .online ∧
      cpu'.cypRpend = cpu.cypRpend := by
  unfold cyclicAddHere
  rw [ASSERT_bind hstate, ASSERT_bind ⟨hwhen, hint⟩]
  split
  next hfull =>
    obtain ⟨cpu1, heq, h1, hst, hsize, hn, hrpend⟩ := cyclicExpand_spec h hstate
    obtain ⟨k, hk⟩ := h.indexed.size
    have hpos : 0 < 2 ^ k := Nat.two_pow_pos k
    rw [heq]
    rw [← hrpend]
    exact cyclicAddXcall_spec h1 (by omega) hst hint gethrtime
  next hfull =>
    have := h.indexed.le
    exact cyclicAddXcall_spec h (by omega) hstate hint gethrtime

/-- The CPU when the cyclic at position `i` was freed. -/
abbrev CycCpu.cleared (cpu : CycCpu) (i : Nat) : CycCpu :=
  cpu.setCyclic (cpu.cypHeap i) { cpu.cypCyclics (cpu.cypHeap i) with cyPend := 0, cyFlags := cyfFree }

/-- The cyclic at position `i` was freed and changed places with the last one. -/
def CycCpu.freed (cpu : CycCpu) (i : Nat) : CycCpu :=
  { cpu.setCyclic (cpu.cypHeap i) { cpu.cypCyclics (cpu.cypHeap i) with cyPend := 0, cyFlags := cyfFree } with
    cypNelems := cpu.cypNelems - 1
    cypHeap := cpu.cypHeap ∘ swap i (cpu.cypNelems - 1) }

section
variable (hidx : cpu.Indexed) (hi : i < cpu.cypNelems)

include hidx hi

lemma freed_cyclics (hj : j < cpu.cypSize) (hne : j ≠ cpu.cypNelems - 1) :
    (cpu.freed i).cypCyclics ((cpu.freed i).cypHeap j) = cpu.cypCyclics (cpu.cypHeap (swap i (cpu.cypNelems - 1) j)) := by
  have hle := hidx.le
  have hsw : swap i (cpu.cypNelems - 1) j < cpu.cypSize :=
    (Fixes.lt_iff (fixes_swap (by omega) (by omega))).2 hj
  refine update_of_ne ?_ ..
  intro heq
  have hji : swap i (cpu.cypNelems - 1) j = i := hidx.inj _ hsw _ (by omega) heq
  rw [swap_apply_eq_iff, swap_apply_left] at hji
  exact hne hji

lemma freed_indexed : (cpu.freed i).Indexed := by
  have hle := hidx.le
  have hfix : Fixes (swap i (cpu.cypNelems - 1)) cpu.cypNelems := fixes_swap hi (by omega)
  have hsize : ∀ j, swap i (cpu.cypNelems - 1) j < cpu.cypSize ↔ j < cpu.cypSize :=
    fun j => Fixes.lt_iff fun k hk => hfix k (hle.trans hk)
  have hlast : (cpu.freed i).cypCyclics ((cpu.freed i).cypHeap (cpu.cypNelems - 1)) =
      { cpu.cypCyclics (cpu.cypHeap i) with cyPend := 0, cyFlags := cyfFree } := by
    show (cpu.freed i).cypCyclics (cpu.cypHeap (swap i (cpu.cypNelems - 1) (cpu.cypNelems - 1))) = _
    rw [swap_apply_right]
    exact update_self ..
  have hother : ∀ ndx, ndx ≠ cpu.cypHeap i → (cpu.freed i).cypCyclics ndx = cpu.cypCyclics ndx :=
    fun ndx hne => update_of_ne hne ..
  have hself : (cpu.freed i).cypCyclics (cpu.cypHeap i) =
      { cpu.cypCyclics (cpu.cypHeap i) with cyPend := 0, cyFlags := cyfFree } := update_self ..
  refine ⟨hidx.size, ?_, fun j hj => hidx.maps _ ((hsize j).2 hj), fun j hj k hk heq => ?_, fun j hj => ?_, fun j hj => ?_,
    fun ndx hf => ?_, fun ndx hf => ?_⟩
  · show cpu.cypNelems - 1 ≤ cpu.cypSize
    omega
  · exact (swap i _).injective (hidx.inj _ ((hsize j).2 hj) _ ((hsize k).2 hk) heq)
  · show _ ↔ j < cpu.cypNelems - 1
    rcases eq_or_ne j (cpu.cypNelems - 1) with rfl | hne
    · rw [hlast]
      exact ⟨fun hf => absurd hf (by simp [cyfFree]), fun hlt => absurd hlt (lt_irrefl _)⟩
    · rw [freed_cyclics hidx hi hj hne, hidx.live _ ((hsize j).2 hj), hfix.lt_iff]
      omega
  · have hj' : j < cpu.cypNelems - 1 := hj
    rw [freed_cyclics hidx hi (by omega) hj'.ne]
    exact hidx.interval _ (hfix.lt_iff.2 (by omega))
  · rcases eq_or_ne ndx (cpu.cypHeap i) with rfl | hne
    · rw [hself]
    · rw [hother ndx hne] at hf ⊢; exact hidx.flags ndx hf
  · rcases eq_or_ne ndx (cpu.cypHeap i) with rfl | hne
    · rw [hself]
    · rw [hother ndx hne] at hf ⊢; exact hidx.pend ndx hf

lemma freed_expireAt (hj : j < cpu.cypNelems - 1) (hne : j ≠ i) : (cpu.freed i).expireAt j = cpu.expireAt j := by
  have := hidx.le
  unfold expireAt
  rw [freed_cyclics hidx hi (by omega) hj.ne, swap_apply_of_ne_of_ne hne hj.ne]

/-- A cyclic in the place of the freed one goes down, or up. -/
lemma freed_downHole (hord : Ordered cpu.expireAt cpu.cypNelems)
    (hpar : 0 < i → (cpu.freed i).expireAt (parent i) ≤ (cpu.freed i).expireAt i) :
    DownHole (cpu.freed i).expireAt (cpu.cypNelems - 1) i := by
  have hord' : Ordered cpu.expireAt (cpu.cypNelems - 1) := fun j h0 hj => hord j h0 (by omega)
  have hother := fun j (hj : j < cpu.cypNelems - 1) (hne : j ≠ i) => freed_expireAt hidx hi hj hne
  rcases le_total (cpu.expireAt i) ((cpu.freed i).expireAt i) with hle | hge
  · exact hord'.raise hother hle
  · exact ((hord'.lower hother hge).finish hpar).raise (fun _ _ _ => rfl) le_rfl

end

lemma upheapLoop_stop {expire : Nat → Int} {heap : Nat → Nat} (h0 : 0 < i)
    (h : expire (heap (parent i)) ≤ expire (heap i)) : upheapLoop expire heap i = (heap, false) := by
  rw [upheapLoop, if_neg h0.ne']
  exact if_pos h

lemma CycCpu.Indexed.state (h : cpu.Indexed) (state : CycState) (rpend : Nat) :
    ({ cpu with cypState := state, cypRpend := rpend } : CycCpu).Indexed :=
  { h with }

lemma CycCpu.Indexed.timer (h : cpu.Indexed) (t : Option Int) : ({ cpu with timer := t } : CycCpu).Indexed :=
  { h with }

section
variable (hidx : cpu.Indexed) (hord : Ordered cpu.expireAt cpu.cypNelems) (hprog : cpu.Programmed) (hi : i < cpu.cypNelems)
include hidx hord hprog hi

/-- The order is restored and the timer is set if the root changed. -/
lemma removeSift_spec (hlt : i < cpu.cypNelems - 1) :
    ∃ cpu', removeSift (cpu.freed i) i (cpu.cypHeap 0) (cpu.cypHeap (cpu.cypNelems - 1)) = .ok cpu' ∧
      cpu'.Indexed ∧ Ordered cpu'.expireAt cpu'.cypNelems ∧ cpu'.Programmed ∧ cpu'.cypState = cpu.cypState := by
  have hidx1 := freed_indexed hidx hi
  have hn : (cpu.freed i).cypNelems = cpu.cypNelems - 1 := rfl
  have hne : cpu.cypNelems - 1 ≠ 0 := by omega
  have hin : i < (cpu.freed i).cypNelems := hlt
  -- set the timer to the root
  have reprogram : ∀ cpu2 : CycCpu, cpu2.Indexed → Ordered cpu2.expireAt cpu2.cypNelems →
      cpu2.cypNelems = cpu.cypNelems - 1 → cpu2.cypState = cpu.cypState →
      ∃ cpu', (ASSERT (cpu2.cypNelems ≠ 0) >>= fun _ => .ok (cpu2.cybReprogram (cpu2.expireAt 0))) = .ok cpu' ∧
        cpu'.Indexed ∧ Ordered cpu'.expireAt cpu'.cypNelems ∧ cpu'.Programmed ∧ cpu'.cypState = cpu.cypState := by
    intro cpu2 hidx2 hord2 hn2 hst
    refine ⟨_, ASSERT_bind (by omega) _, hidx2.timer _, hord2, fun _ => ?_, hst⟩
    exact (if_neg (by rw [← hn2] at hne; exact hne)).symm
  -- leave the timer
  have keep : ∀ cpu2 : CycCpu, cpu2.Indexed → Ordered cpu2.expireAt cpu2.cypNelems →
      cpu2.cypNelems = cpu.cypNelems - 1 → cpu2.cypState = cpu.cypState → cpu2.timer = cpu.timer →
      cpu2.cypCyclics = (cpu.freed i).cypCyclics → cpu2.cypHeap 0 = (cpu.freed i).cypHeap 0 → 0 < i →
      ∃ cpu', (ASSERT (cpu2.cypHeap 0 = cpu.cypHeap 0) >>= fun _ => .ok cpu2) = .ok cpu' ∧
        cpu'.Indexed ∧ Ordered cpu'.expireAt cpu'.cypNelems ∧ cpu'.Programmed ∧ cpu'.cypState = cpu.cypState := by
    intro cpu2 hidx2 hord2 hn2 hst htimer hcyc hroot h0
    have hroot' : (cpu.freed i).cypHeap 0 = cpu.cypHeap 0 :=
      congrArg cpu.cypHeap (swap_apply_of_ne_of_ne (by omega) (by omega))
    refine ⟨_, ASSERT_bind (hroot.trans hroot') _, hidx2, hord2, fun hsus => ?_, hst⟩
    have hexp : cpu2.expireAt 0 = cpu.expireAt 0 := by
      rw [← freed_expireAt hidx hi (show 0 < cpu.cypNelems - 1 by omega) h0.ne]
      unfold CycCpu.expireAt
      rw [hcyc, hroot]
    rw [htimer, hprog (hst ▸ hsus), if_neg (by omega), if_neg (by omega), hexp]
  unfold removeSift
  rcases Nat.eq_zero_or_pos i with rfl | h0
  · rw [if_pos rfl]
    obtain ⟨p, hcpu, hidx2, hord2, -⟩ := cyclicDownheap_spec hidx1 hin
      (freed_downHole hidx hi hord fun h => absurd h (lt_irrefl 0))
    exact reprogram _ hidx2 (by rw [hcpu] at hord2 ⊢; exact hord2) (by rw [hcpu]; rfl) (by rw [hcpu]; rfl)
  rw [if_neg h0.ne']
  rcases le_or_gt ((cpu.freed i).expireAt (parent i)) ((cpu.freed i).expireAt i) with hle | hgt
  · -- it stays below its parent, so it can only go down
    have hstop : cyclicUpheap (cpu.freed i) i = (cpu.freed i, false) := by
      unfold cyclicUpheap
      rw [upheapLoop_stop h0 hle]
    have hlast : (cpu.freed i).cypHeap i = cpu.cypHeap (cpu.cypNelems - 1) :=
      congrArg cpu.cypHeap (swap_apply_left _ _)
    obtain ⟨p, hcpu, hidx2, hord2, hbelow⟩ := cyclicDownheap_spec hidx1 hin (freed_downHole hidx hi hord fun _ => hle)
    rw [hstop]
    dsimp only
    rw [if_pos rfl, if_pos hlast]
    exact keep _ hidx2 (by rw [hcpu] at hord2 ⊢; exact hord2) (by rw [hcpu]; rfl) (by rw [hcpu]; rfl) (by rw [hcpu]; rfl)
      (by rw [hcpu]) (by rw [hcpu]; exact congrArg (cpu.freed i).cypHeap (hbelow 0 h0)) h0
  · -- it goes up
    have hpar : parent i < cpu.cypNelems - 1 := (parent_lt h0).trans hlt
    have hlow : (cpu.freed i).expireAt i ≤ cpu.expireAt i := by
      rw [freed_expireAt hidx hi hpar (parent_lt h0).ne] at hgt
      exact hgt.le.trans (hord i h0 hi)
    have hole : UpHole (cpu.freed i).expireAt (cpu.freed i).cypNelems i :=
      Ordered.lower (fun j hj0 hj => hord j hj0 (by omega)) (fun j hj hne => freed_expireAt hidx hi hj hne) hlow
    obtain ⟨p, hcpu, -, hidx2, hord2, -, -, hfalse⟩ := cyclicUpheap_spec hidx1 hin hole
    generalize cyclicUpheap (cpu.freed i) i = res at hcpu hidx2 hord2 hfalse ⊢
    obtain ⟨cpu2, up⟩ := res
    dsimp only at hcpu hidx2 hord2 hfalse ⊢
    have hn2 : cpu2.cypNelems = cpu.cypNelems - 1 := by rw [hcpu]; rfl
    have hord2' : Ordered cpu2.expireAt cpu2.cypNelems := by rw [hn2]; exact hord2
    cases up with
    | true =>
      rw [if_neg (by simp)]
      exact reprogram _ hidx2 hord2' hn2 (by rw [hcpu]; rfl)
    | false =>
      rw [if_pos rfl]
      have hroot : cpu2.cypHeap 0 = (cpu.freed i).cypHeap 0 := by
        rw [hcpu]
        exact congrArg (cpu.freed i).cypHeap (hfalse rfl).2
      split
      · obtain ⟨q, hcpu3, hidx3, hord3, hbelow⟩ := cyclicDownheap_spec hidx2 (by omega)
          (hord2'.raise (fun _ _ _ => rfl) (le_refl (cpu2.expireAt i)))
        refine keep _ hidx3 (by rw [hcpu3] at hord3 ⊢; exact hord3) (by rw [hcpu3]; exact hn2) (by rw [hcpu3, hcpu]; rfl)
          (by rw [hcpu3, hcpu]; rfl) (by rw [hcpu3, hcpu]) ?_ h0
        rw [← hroot, hcpu3]
        exact congrArg cpu2.cypHeap (hbelow 0 h0)
      · exact keep _ hidx2 hord2' hn2 (by rw [hcpu]; rfl) (by rw [hcpu]; rfl) (by rw [hcpu]) hroot h0

/-- **The removal of the cyclic at position `i`.** -/
theorem removeAt_spec : ∃ cpu', removeAt (cpu.cleared i) (cpu.cypHeap i) i = .ok cpu' ∧
      cpu'.Indexed ∧ Ordered cpu'.expireAt cpu'.cypNelems ∧ cpu'.Programmed ∧ cpu'.cypState = cpu.cypState := by
  rcases eq_or_ne i (cpu.cypNelems - 1) with hlast | hne
  · -- the last one: nothing moves
    have hfreed : cpu.freed i = { cpu.cleared i with cypNelems := cpu.cypNelems - 1 } := by
      unfold CycCpu.freed
      rw [← hlast, Equiv.swap_self]
      rfl
    have hidx1 := freed_indexed hidx hi
    have hord1 : Ordered (cpu.freed i).expireAt (cpu.freed i).cypNelems := by
      intro j h0 hj
      have hj' : j < cpu.cypNelems - 1 := hj
      have hp := parent_lt h0
      rw [freed_expireAt hidx hi (by omega) (by omega), freed_expireAt hidx hi hj' (by omega)]
      exact hord j h0 (by omega)
    have heq : removeAt (cpu.cleared i) (cpu.cypHeap i) i =
          .ok (if cpu.cypNelems - 1 = 0 then (cpu.freed i).cybDisable else cpu.freed i) := by
      rw [hfreed]
      exact if_pos hlast
    rw [heq]
    rcases eq_or_ne (cpu.cypNelems - 1) 0 with h0 | h0
    · rw [if_pos h0]
      exact ⟨_, rfl, hidx1.timer _, hord1, fun _ => (if_pos h0).symm, rfl⟩
    · rw [if_neg h0]
      refine ⟨_, rfl, hidx1, hord1, fun hsus => ?_, rfl⟩
      show cpu.timer = if cpu.cypNelems - 1 = 0 then none else some ((cpu.freed i).expireAt 0)
      rw [if_neg h0, freed_expireAt hidx hi (by omega) (by omega), hprog hsus, if_neg (by omega)]
  · have hlt : i < cpu.cypNelems - 1 := by omega
    have hM : ({ cpu.cleared i with
        cypNelems := cpu.cypNelems - 1
        cypHeap := swapEntries cpu.cypHeap i (cpu.cypNelems - 1) } : CycCpu) = cpu.freed i := by
      rw [swapEntries_eq]
      rfl
    have heq : removeAt (cpu.cleared i) (cpu.cypHeap i) i =
          removeSift (cpu.freed i) i (cpu.cypHeap 0) (cpu.cypHeap (cpu.cypNelems - 1)) := by
      unfold removeAt
      dsimp only [CycCpu.cleared, CycCpu.setCyclic]
      rw [if_neg hne, if_neg (show ¬ cpu.cypNelems - 1 = 0 by omega)]
      exact congrArg (fun c => removeSift c i (cpu.cypHeap 0) (cpu.cypHeap (cpu.cypNelems - 1))) hM
    rw [heq]
    exact removeSift_spec hidx hord hprog hi hlt

end

/-- **`cyclic_remove_here`** removes a cyclic, unless calls are pending and it may not wait. -/
theorem cyclicRemoveHere_spec (h : cpu.Valid) (hstate : cpu.cypState = .online) (hrpend : cpu.cypRpend = 0)
    (hndx : ndx < cpu.cypSize) (hlive : (cpu.cypCyclics ndx).cyFlags.free = false) (wait : Bool) :
    ∃ cpu' removed, cyclicRemoveHere cpu ndx wait = .ok (cpu', removed) ∧ cpu'.Valid ∧ cpu'.cypState = .online ∧
      cpu'.cypRpend = 0 := by
  have hprog : cpu.timer = if cpu.cypNelems = 0 then none else some (cpu.expireAt 0) :=
    h.programmed (by rw [hstate]; decide)
  obtain ⟨i0, hi0, heq0⟩ := h.indexed.position hndx hlive
  unfold cyclicRemoveHere
  rw [ASSERT_bind hrpend, ASSERT_bind hstate]
  unfold cyclicRemoveXcall
  dsimp only
  rw [ASSERT_bind (show cpu.cypNelems > 0 by omega)]
  split
  · refine ⟨_, _, rfl, ⟨h.indexed.state _ _, h.ordered, fun _ => hprog⟩, rfl, hrpend⟩
  next hgo =>
    have hlevel : (cpu.cypCyclics ndx).cyPend ≠ 0 → (cpu.cypCyclics ndx).cyLevel ≠ .high :=
      fun hp hl => hp (h.indexed.pend ndx (.inr hl))
    rw [ASSERT_bind hlevel]
    obtain ⟨r, hr⟩ : ∃ r, (if (cpu.cypCyclics ndx).cyPend ≠ 0 then
          ({ cpu with cypState := .removing, cypRpend := (cpu.cypCyclics ndx).cyPend } : CycCpu)
        else { cpu with cypState := .removing }) = { cpu with cypState := .removing, cypRpend := r } := by
      split
      · exact ⟨_, rfl⟩
      · exact ⟨_, rfl⟩
    rw [hr]
    cases hfind : (List.range cpu.cypNelems).find? fun i => cpu.cypHeap i = ndx with
    | none => exact absurd (decide_eq_true heq0) (List.find?_eq_none.1 hfind i0 (mem_range.2 hi0))
    | some i =>
      have hi : i < cpu.cypNelems := mem_range.1 (mem_of_find?_eq_some hfind)
      obtain rfl : cpu.cypHeap i = ndx := by simpa using List.find?_some hfind
      obtain ⟨cpu', heq, hidx', hord', hprog', hst'⟩ := removeAt_spec (h.indexed.state .removing r) h.ordered
        (fun _ => hprog) hi
      split
      next hnone => exact absurd (hnone.symm.trans hfind) (by simp)
      next j hsome =>
        obtain rfl : j = i := Option.some.inj (hsome.symm.trans hfind)
        rw [heq]
        exact ⟨_, _, rfl, ⟨hidx'.state _ _, hord', fun _ => hprog' (by rw [hst']; simp)⟩, rfl, rfl⟩

end Unleashed.Kernel
