import Unleashed.Kernel.Cyclic.Valid

/-!
# Firing, and any sequence of operations

`cyclic_fire` expires the root until it lies in the future. A round makes the root later, which bounds the rounds.
-/

namespace Unleashed.Kernel

open Lib Lib.Heap Function Finset

/-- The next expiration is later, by a multiple of the interval. -/
lemma nextExpire_spec {now exp interval : Int} (hint : 0 < interval) (hexp : exp ≤ now) (hnow : now < cyInfinity) :
    exp < nextExpire now exp interval ∧ (interval ≠ cyInfinity → interval ∣ nextExpire now exp interval - exp) := by
  unfold nextExpire
  rcases eq_or_ne interval cyInfinity with hinf | hfin
  · rw [if_pos hinf, if_neg (by unfold nanosec; omega)]
    exact ⟨by omega, fun h => absurd hinf h⟩
  · rw [if_neg hfin]
    dsimp only
    split
    next hlate =>
      have hq : 0 ≤ (now - (exp + interval)) / interval := Int.ediv_nonneg (by unfold nanosec at hlate; omega) hint.le
      have hmul : 0 < ((now - (exp + interval)) / interval + 1) * interval := Int.mul_pos (by omega) hint
      refine ⟨by omega, fun _ => ⟨(now - (exp + interval)) / interval + 2, ?_⟩⟩
      ring
    · exact ⟨by omega, fun _ => ⟨1, by ring⟩⟩

/-- What expiring the cyclics `expired` at `now` does. -/
structure Fired {σ : Type} (handler : σ → Nat → σ × Option Int) (now : Int) (cpu cpu' : CycCpu) (expired : List Nat) :
    Prop where
  size : cpu'.cypSize = cpu.cypSize
  nelems : cpu'.cypNelems = cpu.cypNelems
  state : cpu'.cypState = cpu.cypState
  rpend : cpu'.cypRpend = cpu.cypRpend
  flags : ∀ j, (cpu'.cypCyclics j).cyFlags = (cpu.cypCyclics j).cyFlags
  interval : ∀ j, (cpu'.cypCyclics j).cyInterval = (cpu.cypCyclics j).cyInterval
  level : ∀ j, (cpu'.cypCyclics j).cyLevel = (cpu.cypCyclics j).cyLevel
  due : ∀ j ∈ expired, j < cpu.cypSize ∧ (cpu.cypCyclics j).cyFlags.free = false ∧ (cpu.cypCyclics j).cyExpire ≤ now
  rest : ∀ j, j ∉ expired → (cpu'.cypCyclics j).cyExpire = (cpu.cypCyclics j).cyExpire
  later : ∀ j, (cpu.cypCyclics j).cyExpire ≤ (cpu'.cypCyclics j).cyExpire
  modulo : ∀ j, (cpu.cypCyclics j).cyInterval ≠ cyInfinity →
    ((cpu.cypCyclics j).cyLevel ≠ .high ∨ ∀ s, (handler s j).2 = none) →
    (cpu.cypCyclics j).cyInterval ∣ (cpu'.cypCyclics j).cyExpire - (cpu.cypCyclics j).cyExpire

section
variable {σ : Type} {handler : σ → Nat → σ × Option Int} {now : Int} {cpu cpu1 cpu' : CycCpu}

lemma Fired.refl (t : Option Int) : Fired handler now cpu { cpu with timer := t } [] :=
  ⟨rfl, rfl, rfl, rfl, fun _ => rfl, fun _ => rfl, fun _ => rfl, fun _ h => absurd h List.not_mem_nil, fun _ _ => rfl,
    fun _ => le_rfl, fun _ _ _ => by simp⟩

lemma Fired.cons {ndx : Nat} {expired : List Nat} (h1 : Fired handler now cpu cpu1 [ndx])
    (h2 : Fired handler now cpu1 cpu' expired) : Fired handler now cpu cpu' (ndx :: expired) := by
  refine ⟨h2.size.trans h1.size, h2.nelems.trans h1.nelems, h2.state.trans h1.state, h2.rpend.trans h1.rpend,
    fun j => (h2.flags j).trans (h1.flags j), fun j => (h2.interval j).trans (h1.interval j),
    fun j => (h2.level j).trans (h1.level j), fun j hj => ?_, fun j hj => ?_, fun j => (h1.later j).trans (h2.later j),
    fun j hint hh => ?_⟩
  · rcases List.mem_cons.1 hj with rfl | hj
    · exact h1.due j List.mem_cons_self
    · obtain ⟨hs, hf, he⟩ := h2.due j hj
      exact ⟨h1.size ▸ hs, h1.flags j ▸ hf, (h1.later j).trans he⟩
  · rw [List.mem_cons, not_or] at hj
    exact (h2.rest j hj.2).trans (h1.rest j (by simpa using hj.1))
  · have hd1 := h1.modulo j hint hh
    have hd2 := h2.modulo j (by rwa [h1.interval]) (by rwa [h1.level])
    rw [h1.interval] at hd2
    have := dvd_add hd2 hd1
    rwa [sub_add_sub_cancel] at this

/-- The sum of the lateness over the cyclics in use, whatever their order. -/
lemma lateness_eq (hidx : cpu.Indexed) (now : Int) : lateness cpu now =
    ∑ j ∈ (Finset.range cpu.cypSize).filter (fun j => (cpu.cypCyclics j).cyFlags.free = false),
      (now + 1 - (cpu.cypCyclics j).cyExpire).toNat := by
  have hle := hidx.le
  refine sum_bij (fun i _ => cpu.cypHeap i) ?_ ?_ ?_ ?_
  · intro i hi
    have hi' : i < cpu.cypNelems := mem_range.1 hi
    rw [mem_filter, mem_range]
    exact ⟨hidx.maps i (by omega), (hidx.live i (by omega)).2 hi'⟩
  · intro i hi j hj heq
    have hi' : i < cpu.cypNelems := mem_range.1 hi
    have hj' : j < cpu.cypNelems := mem_range.1 hj
    exact hidx.inj i (by omega) j (by omega) heq
  · intro j hj
    rw [mem_filter, mem_range] at hj
    obtain ⟨i, hi, heq⟩ := hidx.position hj.1 hj.2
    exact ⟨i, mem_range.2 hi, heq⟩
  · intro i _
    rfl

variable {ndx : Nat}

lemma Fired.lateness_lt (h : Fired handler now cpu cpu1 [ndx]) (hidx : cpu.Indexed) (hidx1 : cpu1.Indexed)
    (hlt : (cpu.cypCyclics ndx).cyExpire < (cpu1.cypCyclics ndx).cyExpire) : lateness cpu1 now < lateness cpu now := by
  obtain ⟨hs, hf, he⟩ := h.due ndx List.mem_cons_self
  rw [lateness_eq hidx, lateness_eq hidx1, h.size,
    filter_congr (q := fun j => (cpu.cypCyclics j).cyFlags.free = false) fun j _ => by rw [h.flags]]
  refine sum_lt_sum (fun j _ => ?_) ⟨ndx, mem_filter.2 ⟨mem_range.2 hs, hf⟩, ?_⟩
  · have := h.later j
    omega
  · omega

variable {c : Cyclic}

/-- What it takes of a round that changes the cyclic `ndx` to `c`. -/
lemma Fired.of_update (hsize : cpu1.cypSize = cpu.cypSize)
    (hnelems : cpu1.cypNelems = cpu.cypNelems) (hstate : cpu1.cypState = cpu.cypState) (hrpend : cpu1.cypRpend = cpu.cypRpend)
    (hcyc : cpu1.cypCyclics = update cpu.cypCyclics ndx c) (hflags : c.cyFlags = (cpu.cypCyclics ndx).cyFlags)
    (hint : c.cyInterval = (cpu.cypCyclics ndx).cyInterval) (hlevel : c.cyLevel = (cpu.cypCyclics ndx).cyLevel)
    (hndx : ndx < cpu.cypSize) (hlive : (cpu.cypCyclics ndx).cyFlags.free = false)
    (hdue : (cpu.cypCyclics ndx).cyExpire ≤ now) (hlt : (cpu.cypCyclics ndx).cyExpire < c.cyExpire)
    (hmod : (cpu.cypCyclics ndx).cyInterval ≠ cyInfinity →
      ((cpu.cypCyclics ndx).cyLevel ≠ .high ∨ ∀ s, (handler s ndx).2 = none) →
      (cpu.cypCyclics ndx).cyInterval ∣ c.cyExpire - (cpu.cypCyclics ndx).cyExpire) : Fired handler now cpu cpu1 [ndx] := by
  have hself : cpu1.cypCyclics ndx = c := by rw [hcyc, update_self]
  have hother : ∀ j, j ≠ ndx → cpu1.cypCyclics j = cpu.cypCyclics j := fun j hne => by rw [hcyc, update_of_ne hne]
  refine ⟨hsize, hnelems, hstate, hrpend, fun j => ?_, fun j => ?_, fun j => ?_, fun j hj => ?_, fun j hj => ?_, fun j => ?_,
    fun j => ?_⟩
  · rcases eq_or_ne j ndx with rfl | hne
    · rw [hself, hflags]
    · rw [hother j hne]
  · rcases eq_or_ne j ndx with rfl | hne
    · rw [hself, hint]
    · rw [hother j hne]
  · rcases eq_or_ne j ndx with rfl | hne
    · rw [hself, hlevel]
    · rw [hother j hne]
  · obtain rfl := List.mem_singleton.1 hj
    exact ⟨hndx, hlive, hdue⟩
  · rw [hother j (by simpa using hj)]
  · rcases eq_or_ne j ndx with rfl | hne
    · rw [hself]; exact hlt.le
    · rw [hother j hne]
  · rcases eq_or_ne j ndx with rfl | hne
    · rw [hself]; exact hmod
    · rw [hother j hne]; exact fun _ _ => by simp

variable (handler) in
lemma advance_spec (hidx : cpu.Indexed) (hord : Ordered cpu.expireAt cpu.cypNelems) (hpos : 0 < cpu.cypNelems)
    (hexp : cpu.expireAt 0 ≤ now) (hnow : now < cyInfinity) (hflags : c.cyFlags = (cpu.cypCyclics (cpu.cypHeap 0)).cyFlags)
    (hint : c.cyInterval = (cpu.cypCyclics (cpu.cypHeap 0)).cyInterval)
    (hlevel : c.cyLevel = (cpu.cypCyclics (cpu.cypHeap 0)).cyLevel) (hpend : c.cyLevel = .high → c.cyPend = 0) :
    ∃ cpu1, cyclicDownheap ((cpu.setCyclic (cpu.cypHeap 0) c).setExpire (cpu.cypHeap 0)
        (nextExpire now (cpu.cypCyclics (cpu.cypHeap 0)).cyExpire c.cyInterval)) 0 = cpu1 ∧ cpu1.Indexed ∧
      Ordered cpu1.expireAt cpu1.cypNelems ∧ Fired handler now cpu cpu1 [cpu.cypHeap 0] ∧
      (cpu.cypCyclics (cpu.cypHeap 0)).cyExpire < (cpu1.cypCyclics (cpu.cypHeap 0)).cyExpire := by
  have h0 : 0 < cpu.cypSize := hpos.trans_le hidx.le
  have hlive := (hidx.live 0 h0).2 hpos
  obtain ⟨hlt, hmod⟩ := nextExpire_spec (hidx.interval 0 hpos) hexp hnow
  rw [hint]
  have hexp0 : cpu.expireAt 0 = (cpu.cypCyclics (cpu.cypHeap 0)).cyExpire := rfl
  rw [← hexp0]
  generalize nextExpire now (cpu.expireAt 0) (cpu.cypCyclics (cpu.cypHeap 0)).cyInterval = e at hlt hmod ⊢
  have hidx0 : (cpu.setCyclic (cpu.cypHeap 0) c).Indexed :=
    hidx.setCyclic hflags hint fun h => h.elim (fun hf => absurd (hflags ▸ hf) (by rw [hlive]; decide)) hpend
  have hidx2 := hidx0.setExpire (cpu.cypHeap 0) e
  generalize hcpu2 : (cpu.setCyclic (cpu.cypHeap 0) c).setExpire (cpu.cypHeap 0) e = cpu2 at hidx2
  have hcyc : cpu2.cypCyclics = update cpu.cypCyclics (cpu.cypHeap 0) { c with cyExpire := e } := by
    rw [← hcpu2]
    simp [CycCpu.setExpire, CycCpu.setCyclic]
  have hheap : cpu2.cypHeap = cpu.cypHeap := by rw [← hcpu2]; rfl
  have hn : cpu2.cypNelems = cpu.cypNelems := by rw [← hcpu2]; rfl
  have hself : cpu2.expireAt 0 = e := by
    unfold CycCpu.expireAt
    rw [hheap, hcyc, update_self]
  have hother : ∀ j < cpu.cypNelems, j ≠ 0 → cpu2.expireAt j = cpu.expireAt j := by
    intro j hj hne
    unfold CycCpu.expireAt
    rw [hheap, hcyc, update_of_ne]
    exact fun heq => hne (hidx.inj j (hj.trans_le hidx.le) 0 h0 heq)
  obtain ⟨p, hcpu, hidx1, hord1, -⟩ := cyclicDownheap_spec (i := 0) hidx2 (by omega)
    (by rw [hn]; exact hord.raise hother (by rw [hself]; exact hlt.le))
  refine ⟨_, rfl, hidx1, by rw [hcpu] at hord1 ⊢; exact hord1, ?_, ?_⟩
  · rw [hcpu]
    refine Fired.of_update (c := { c with cyExpire := e }) (by rw [← hcpu2]; rfl) hn (by rw [← hcpu2]; rfl) (by rw [← hcpu2]; rfl)
      hcyc hflags hint hlevel (hidx.maps 0 h0) hlive hexp hlt fun hfin _ => hmod hfin
  · rw [hcpu]
    rw [hcyc, update_self]
    exact hlt

/-- **A round** expires the root and restores the order. -/
theorem fireRound_spec (hidx : cpu.Indexed) (hord : Ordered cpu.expireAt cpu.cypNelems) (hpos : 0 < cpu.cypNelems)
    (hexp : cpu.expireAt 0 ≤ now) (hnow : now < cyInfinity)
    (hhandler : ∀ s ndx e, (handler s ndx).2 = some e → now < e) (s : σ) :
    ∃ cpu1 s1, fireRound handler now cpu (cpu.cypHeap 0) s = .ok (cpu1, s1) ∧ cpu1.Indexed ∧
      Ordered cpu1.expireAt cpu1.cypNelems ∧ Fired handler now cpu cpu1 [cpu.cypHeap 0] ∧
      (cpu.cypCyclics (cpu.cypHeap 0)).cyExpire < (cpu1.cypCyclics (cpu.cypHeap 0)).cyExpire := by
  have h0 : 0 < cpu.cypSize := hpos.trans_le hidx.le
  have hlive := (hidx.live 0 h0).2 hpos
  have hndx := hidx.maps 0 h0
  unfold fireRound cyclicExpire
  dsimp only
  split
  next hhigh =>
    rcases hh : handler s (cpu.cypHeap 0) with ⟨s1, _ | e⟩
    · obtain ⟨cpu1, heq, hrest⟩ := advance_spec handler (c := cpu.cypCyclics (cpu.cypHeap 0)) hidx hord hpos hexp hnow
        rfl rfl rfl (fun h => hidx.pend _ (.inr h))
      refine ⟨cpu1, s1, ?_, hrest⟩
      dsimp only [ok_bind]
      rw [if_neg (by simp), ← heq]
      simp [CycCpu.setCyclic, update_eq_self]
    · have hlater : now < e := hhandler s _ e (by rw [hh])
      obtain ⟨cpu1, heq, hidx1, hord1, -, hsame⟩ := cyclicReprogramCyclic_spec hidx hord hndx hlive e
      have hcyc : cpu1.cypCyclics (cpu.cypHeap 0) = { cpu.cypCyclics (cpu.cypHeap 0) with cyExpire := e } := by
        rw [hsame.cyclics]
        exact update_self ..
      have hlt : (cpu.cypCyclics (cpu.cypHeap 0)).cyExpire < e := lt_of_le_of_lt hexp hlater
      refine ⟨cpu1, s1, ?_, hidx1, hord1, ?_, by rw [hcyc]; exact hlt⟩
      · dsimp only
        rw [heq]
        dsimp only [ok_bind]
        rw [if_pos (by rw [hcyc]; exact hlt.ne)]
      · refine Fired.of_update hsame.size hsame.nelems hsame.state hsame.rpend hsame.cyclics rfl rfl rfl hndx hlive hexp hlt ?_
        rintro - (hl | hn)
        · exact absurd hhigh hl
        · have := hn s
          rw [hh] at this
          cases this
  next hsoft =>
    obtain ⟨cpu1, heq, hrest⟩ := advance_spec handler (c := { cpu.cypCyclics (cpu.cypHeap 0) with cyPend :=
        if (cpu.cypCyclics (cpu.cypHeap 0)).cyPend = 2 ^ 32 - 1 then 2 ^ 32 - 1 else (cpu.cypCyclics (cpu.cypHeap 0)).cyPend + 1 })
      hidx hord hpos hexp hnow rfl rfl rfl (fun h => absurd h hsoft)
    refine ⟨cpu1, s, ?_, hrest⟩
    have hget : ((cpu.setCyclic (cpu.cypHeap 0) { cpu.cypCyclics (cpu.cypHeap 0) with cyPend :=
        if (cpu.cypCyclics (cpu.cypHeap 0)).cyPend = 2 ^ 32 - 1 then 2 ^ 32 - 1
        else (cpu.cypCyclics (cpu.cypHeap 0)).cyPend + 1 }).cypCyclics (cpu.cypHeap 0)) = _ := update_self ..
    dsimp only [ok_bind]
    rw [hget, if_neg (by simp), ← heq]

/-- **The loop of `cyclic_fire`** ends with every cyclic in the future. -/
theorem fireLoop_spec (hnow : now < cyInfinity) (hhandler : ∀ s ndx e, (handler s ndx).2 = some e → now < e) (fuel : Nat) :
    ∀ (cpu : CycCpu) (s : σ), cpu.Indexed → Ordered cpu.expireAt cpu.cypNelems → 0 < cpu.cypNelems → lateness cpu now < fuel →
      ∃ cpu' s' expired, fireLoop handler now fuel cpu s = .ok (cpu', s', expired) ∧ cpu'.Valid ∧
        Fired handler now cpu cpu' expired ∧ ∀ i < cpu'.cypNelems, now < cpu'.expireAt i := by
  induction fuel with
  | zero => intro cpu s _ _ _ hfuel; omega
  | succ fuel ih =>
    intro cpu s hidx hord hpos hfuel
    have h0 : 0 < cpu.cypSize := hpos.trans_le hidx.le
    rw [fireLoop]
    dsimp only
    rw [ASSERT_bind ((hidx.live 0 h0).2 hpos)]
    split
    next hgt =>
      refine ⟨_, s, [], rfl, ⟨hidx.timer _, hord, fun _ => (if_neg hpos.ne').symm⟩, .refl _, fun i hi => ?_⟩
      exact lt_of_lt_of_le hgt (hord.root_le i hi)
    next hle =>
      obtain ⟨cpu1, s1, heq, hidx1, hord1, hfired, hlt⟩ := fireRound_spec hidx hord hpos (not_lt.1 hle) hnow hhandler s
      have hless := hfired.lateness_lt hidx hidx1 hlt
      obtain ⟨cpu', s', expired, heq', hvalid, hfired', hfuture⟩ :=
        ih cpu1 s1 hidx1 hord1 (by rw [hfired.nelems]; exact hpos) (by omega)
      refine ⟨cpu', s', cpu.cypHeap 0 :: expired, ?_, hvalid, hfired.cons hfired', hfuture⟩
      rw [heq]
      dsimp only [ok_bind]
      rw [heq']
      rfl

/-- **`cyclic_fire`** expires exactly the cyclics that were due. -/
theorem cyclicFire_spec (h : cpu.Valid) (hnow : now < cyInfinity)
    (hhandler : ∀ s ndx e, (handler s ndx).2 = some e → now < e) (s : σ) :
    ∃ cpu' s' expired, cyclicFire handler cpu now s = .ok (cpu', s', expired) ∧ cpu'.Valid ∧
      Fired handler now cpu cpu' expired ∧ ∀ i < cpu'.cypNelems, now < cpu'.expireAt i := by
  unfold cyclicFire
  split
  next h0 => exact ⟨cpu, s, [], rfl, h, .refl cpu.timer, fun i hi => absurd hi (by omega)⟩
  next h0 => exact fireLoop_spec hnow hhandler _ cpu s h.indexed h.ordered (Nat.pos_of_ne_zero h0) (Nat.lt_succ_self _)

end

end Unleashed.Kernel
