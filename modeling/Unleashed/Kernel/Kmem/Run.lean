import Unleashed.Kernel.Kmem.Tasks

/-!
# Conservation of buffers

In every reachable state each chunk of a live slab is in exactly one place.
-/

namespace Unleashed.Kernel.Kmem

open Lib Fault Multiset Call Private

variable {c : Cache} {s s' : KmemState} {m m' : MagLayer} {S S' : SlabLayer}

/-- The buffers of the clients, the calls, the task and the magazines. -/
def KmemState.out (c : Cache) (s : KmemState) : Multiset Nat :=
  s.client + (s.calls.map held).sum + s.task.held + s.mags.held c

/-- The blocks `i` and `j` do not overlap. -/
def Apart (c : Cache) (i j : Nat) : Prop := i + c.slabsize ≤ j ∨ j + c.slabsize ≤ i

structure Inv (c : Cache) (s : KmemState) : Prop where
  slabs : SlabOk c (s.out c) s.slabs
  mags : MagOk c s.mags
  calls : ∀ cl ∈ s.calls, CallOk c s.slabs s.mags cl
  locks : (s.calls.filterMap Call.locks).Nodup
  inserted : (s.calls.filterMap Call.inserted).Nodup
  apart : ∀ i ∈ s.calls.filterMap Call.inserted, ∀ j ∈ s.calls.filterMap Call.inserted, i ≠ j → Apart c i j
  task : TaskOk c s.mags s.task

/-! ## Single calls -/

variable {cl : Call}

lemma CallOk.mono (h : CallOk c S m cl)
    (hm : ∀ i < c.ncpus, (m.cpu i).ccMagsize ≠ 0 → cl.locks = some i → m'.cpu i = m.cpu i ∧ m'.cacheMagtype = m.cacheMagtype)
    (hl : ∀ i, cl.inserted = some i → ∀ j ∈ S'.live, j ∉ S.live → Apart c j i) : CallOk c S' m' cl := by
  cases cl with
  | getFull i fmp =>
    obtain ⟨hcpu, hmt⟩ := hm i h.1 h.2.enabled rfl
    refine ⟨h.1, ?_, ?_, ?_, ?_⟩
    · rw [hmt]
      exact h.2.mtType
    · rw [hcpu]
      exact h.2.enabled
    · rw [hcpu]
      exact h.2.rounds
    · rw [hcpu]
      exact h.2.prounds
  | putEmpty i buf k emp =>
    obtain ⟨hcpu, hmt⟩ := hm i h.1 h.2.enabled rfl
    refine ⟨h.1, ?_, ?_, ?_, ?_⟩
    · rw [hmt]
      exact h.2.mtType
    · rw [hcpu]
      exact h.2.enabled
    · rw [hcpu]
      exact h.2.rounds
    · rw [hcpu]
      exact h.2.prounds
  | slabInsert i sp =>
    refine ⟨slabRefcnt h, slabHead h, fits h, fun j hj => ?_⟩
    by_cases hold : j ∈ S.live
    · exact apart h j hold
    · exact hl i rfl j hj hold
  | get i => exact h
  | slabAlloc => trivial
  | slabCreate => trivial
  | construct buf => trivial
  | put i buf k => exact h
  | magAlloc i buf k mt => exact h
  | magGot i buf k mt => exact h
  | slabFrees bufs buf => trivial

variable {i : Nat}

lemma Call.inserted_eq (h : cl.inserted = some i) : ∃ sp, cl = .slabInsert i sp := by
  cases cl with
  | slabInsert j sp =>
    cases h
    exact ⟨sp, rfl⟩
  | _ => cases h

section
variable {f : Call → Option Nat} {cl cl' : Call} {rest : Multiset Call}

lemma filterMap_le_cons (f : Call → Option Nat) (cl : Call) (rest : Multiset Call) : rest.filterMap f ≤ (cl ::ₘ rest).filterMap f :=
  filterMap_le_filterMap f (le_cons_self rest cl)

lemma nodup_filterMap_rest (h : ((cl ::ₘ rest).filterMap f).Nodup) : (rest.filterMap f).Nodup :=
  nodup_of_le (filterMap_le_cons f cl rest) h

lemma nodup_filterMap_cons (h : (rest.filterMap f).Nodup) (hno : ∀ i, f cl' = some i → i ∉ rest.filterMap f) :
    ((cl' ::ₘ rest).filterMap f).Nodup := by
  cases hf : f cl' with
  | none =>
    rw [filterMap_cons_none _ _ hf]
    exact h
  | some i =>
    rw [filterMap_cons_some _ _ _ hf]
    exact nodup_cons.2 ⟨hno i hf, h⟩

lemma notMem_rest_of_nodup (h : ((cl ::ₘ rest).filterMap f).Nodup) (hi : f cl = some i) : i ∉ rest.filterMap f := by
  rw [filterMap_cons_some _ _ _ hi] at h
  exact (nodup_cons.1 h).1

end

/-! ## The steps -/

/-- A call without a lock starts, and nothing else changes. -/
lemma Inv.start (h : Inv c s) {cl : Call} {client : Multiset Nat} (hok : CallOk c s.slabs s.mags cl) (hl : cl.locks = none)
    (hins : cl.inserted = none) (hheld : client + cl.held = s.client) : Inv c { s with client := client, calls := cl ::ₘ s.calls } := by
  have hl' : (cl ::ₘ s.calls).filterMap Call.locks = s.calls.filterMap Call.locks := filterMap_cons_none _ _ hl
  have hins' : (cl ::ₘ s.calls).filterMap Call.inserted = s.calls.filterMap Call.inserted := filterMap_cons_none _ _ hins
  refine ⟨?_, h.mags, fun cl' hcl' => ?_, hl' ▸ h.locks, hins' ▸ h.inserted, hins' ▸ h.apart, h.task⟩
  · have heq : ({ s with client := client, calls := cl ::ₘ s.calls } : KmemState).out c = s.out c := by
      unfold KmemState.out
      dsimp only
      rw [map_cons, sum_cons, ← add_assoc, hheld]
    rw [heq]
    exact h.slabs
  · rcases mem_cons.1 hcl' with rfl | hcl'
    · exact hok
    · exact h.calls cl' hcl'

lemma Inv.setMags (h : Inv c s) (hm : MagOk c m') (hheld : m'.held c = s.mags.held c) (hq : Quiet c s.mags m') (hcpu : m'.cpu = s.mags.cpu) :
    Inv c { s with mags := m' } := by
  refine ⟨?_, hm, fun cl hcl => (h.calls cl hcl).mono (fun i _ _ _ => ⟨by rw [hcpu], hq.magtype⟩) fun i _ j hj hno => absurd hj hno,
    h.locks, h.inserted, h.apart, h.task.quiet hq⟩
  have hs := h.slabs
  unfold KmemState.out at hs ⊢
  dsimp only
  rw [hheld]
  exact hs

variable {rest : Multiset Call}

lemma Inv.out_cons (h : Inv c s) (hc : s.calls = cl ::ₘ rest) :
    SlabOk c (cl.held + ((s.client + (rest.map Call.held).sum + s.task.held) + s.mags.held c)) s.slabs := by
  have hs := h.slabs
  have heq : s.out c = cl.held + ((s.client + (rest.map Call.held).sum + s.task.held) + s.mags.held c) := by
    unfold KmemState.out
    rw [hc, map_cons, sum_cons]
    abel
  rwa [heq] at hs

lemma Inv.out_task (h : Inv c s) : SlabOk c (s.task.held + ((s.client + (s.calls.map Call.held).sum) + s.mags.held c)) s.slabs := by
  have hs := h.slabs
  have heq : s.out c = s.task.held + ((s.client + (s.calls.map Call.held).sum) + s.mags.held c) := by
    unfold KmemState.out
    abel
  rwa [heq] at hs

lemma Inv.call {out : CallOut} (h : Inv c s) (hc : s.calls = cl ::ₘ rest) (hl : LockFree rest cl.wants)
    (hdone : CallDone c s.slabs s.mags cl (s.client + (rest.map Call.held).sum + s.task.held) out)
    (hnew : ∀ cl', out.next = some cl' → ∀ i, cl'.inserted = some i → ∀ j ∈ rest.filterMap Call.inserted, Apart c j i ∧ i ≠ j) :
    Inv c ⟨out.slabs, out.mags, ((out.given.toList : List Nat) : Multiset Nat) + s.client,
      ((out.next.toList : List Call) : Multiset Call) + rest, s.task⟩ := by
  have hrest : ∀ cl' ∈ rest, cl' ∈ s.calls := fun cl' hcl' => by
    rw [hc]
    exact mem_cons_of_mem hcl'
  have hlocks := h.locks
  have hinserted := h.inserted
  have hapart := h.apart
  rw [hc] at hlocks hinserted hapart
  -- no other call has the lock of the CPU cache that this one uses
  have huses : ∀ i, cl.uses i → i ∉ rest.filterMap Call.locks := by
    rintro i (hi | hi)
    · exact notMem_rest_of_nodup hlocks hi
    · intro hmem
      obtain ⟨cl', hcl', hlock⟩ := (mem_filterMap _ _).1 hmem
      exact hl i hi cl' hcl' hlock
  have hquiet : Quiet c s.mags out.mags := by
    rcases hdone.frame with heq | ⟨i, hi, -, hf⟩
    · rw [heq]
      exact .refl _
    · exact hf.quiet hi
  have hothers : ∀ cl' ∈ rest, CallOk c out.slabs out.mags cl' := fun cl' hcl' => by
    refine (h.calls cl' (hrest cl' hcl')).mono (fun i hi _ hlock => ⟨?_, hquiet.magtype⟩) fun i hins j hj hno => ?_
    · rcases hdone.frame with heq | ⟨k, -, huse, hf⟩
      · rw [heq]
      · refine hf.other i ?_
        rintro rfl
        exact huses i huse ((mem_filterMap _ _).2 ⟨cl', hcl', hlock⟩)
    · rcases hdone.live j hj with hj | hj
      · exact absurd hj hno
      · have hmem : i ∈ rest.filterMap Call.inserted := (mem_filterMap _ _).2 ⟨cl', hcl', hins⟩
        refine hapart j ?_ i (mem_of_le (filterMap_le_cons _ _ _) hmem) ?_
        · exact (mem_filterMap _ _).2 ⟨cl, mem_cons_self _ _, hj⟩
        · rintro rfl
          exact notMem_rest_of_nodup hinserted hj hmem
  have hslabs : SlabOk c (KmemState.out c ⟨out.slabs, out.mags, ((out.given.toList : List Nat) : Multiset Nat) + s.client,
      ((out.next.toList : List Call) : Multiset Call) + rest, s.task⟩) out.slabs := by
    have heq : KmemState.out c ⟨out.slabs, out.mags, ((out.given.toList : List Nat) : Multiset Nat) + s.client,
        ((out.next.toList : List Call) : Multiset Call) + rest, s.task⟩ =
        out.held + ((s.client + (rest.map Call.held).sum + s.task.held) + out.mags.held c) := by
      have hnext : (((out.next.toList : List Call) : Multiset Call).map Call.held).sum = out.next.elim 0 Call.held := by
        cases out.next with
        | none => rfl
        | some cl' => exact sum_singleton _
      unfold KmemState.out CallOut.held
      dsimp only
      rw [map_add, sum_add, hnext]
      abel
    rw [heq]
    exact hdone.slabs
  cases hnext : out.next with
  | none =>
    rw [hnext] at hslabs
    rw [Option.toList_none, coe_nil, zero_add] at hslabs ⊢
    exact ⟨hslabs, hdone.mags, hothers, nodup_filterMap_rest hlocks, nodup_filterMap_rest hinserted,
      fun i hi j hj => hapart i (mem_of_le (filterMap_le_cons _ _ _) hi) j (mem_of_le (filterMap_le_cons _ _ _) hj),
      h.task.quiet hquiet⟩
  | some cl' =>
    rw [hnext] at hslabs
    rw [Option.toList_some, coe_singleton, singleton_add] at hslabs ⊢
    refine ⟨hslabs, hdone.mags, fun cl'' hcl'' => ?_, ?_, ?_, fun i hi j hj hne => ?_, h.task.quiet hquiet⟩
    · rcases mem_cons.1 hcl'' with rfl | hcl''
      · exact hdone.next cl'' hnext
      · exact hothers cl'' hcl''
    · exact nodup_filterMap_cons (nodup_filterMap_rest hlocks) fun i hi => huses i (hdone.locks cl' hnext i hi)
    · exact nodup_filterMap_cons (nodup_filterMap_rest hinserted) fun i hi hmem => (hnew cl' hnext i hi i hmem).2 rfl
    · have hold : ∀ k, k ∈ (cl' ::ₘ rest).filterMap Call.inserted → cl'.inserted = some k ∨ k ∈ rest.filterMap Call.inserted := fun k hk => by
        obtain ⟨cl'', hcl'', hins⟩ := (mem_filterMap _ _).1 hk
        rcases mem_cons.1 hcl'' with rfl | hcl''
        · exact .inl hins
        · exact .inr ((mem_filterMap _ _).2 ⟨cl'', hcl'', hins⟩)
      rcases hold i hi with hi | hi
      · rcases hold j hj with hj | hj
        · exact absurd (Option.some.inj (hi.symm.trans hj)) hne
        · exact (hnew cl' hnext i hi j hj).1.symm
      · rcases hold j hj with hj | hj
        · exact (hnew cl' hnext j hj i hi).1
        · exact hapart i (mem_of_le (filterMap_le_cons _ _ _) hi) j (mem_of_le (filterMap_le_cons _ _ _) hj) hne

/-- A new slab is apart from those that other calls have just created. -/
lemma CallDone.new_apart {ch : Choice} {out : CallOut} {held : Multiset Nat} (hc : s.calls = cl ::ₘ rest)
    (ha : Answer c s cl ch) (hrun : callRun c s.slabs s.mags ch cl = .ok out) (hdone : CallDone c s.slabs s.mags cl held out) :
    ∀ cl', out.next = some cl' → ∀ i, cl'.inserted = some i → ∀ j ∈ rest.filterMap Call.inserted, Apart c j i ∧ i ≠ j := by
  intro cl' hnext i hi j hj
  have hcreate := hdone.inserted cl' hnext i hi
  obtain ⟨sp, rfl⟩ := Call.inserted_eq hi
  obtain ⟨cl'', hcl'', hj⟩ := (mem_filterMap _ _).1 hj
  obtain ⟨sp', rfl⟩ := Call.inserted_eq hj
  have hsp : ch.newSlab = some (i, sp) := by
    rw [hcreate, callRun] at hrun
    cases hch : ch.newSlab with
    | none =>
      rw [hch] at hrun
      cases hrun
      cases hnext
    | some p =>
      rw [hch] at hrun
      cases hrun
      cases hnext
      rfl
  have hnew := ha.newSlab hcreate i sp hsp
  have hap := hnew.unused j sp' (by rw [hc]; exact mem_cons_of_mem hcl'')
  refine ⟨hap, ?_⟩
  rintro rfl
  have := hnew.fits.slabsize_pos
  omega

lemma Inv.created (h : Created c s) : Inv c s := by
  have hout : s.out c = 0 := by
    unfold KmemState.out MagLayer.held
    rw [h.client, h.calls, h.task, h.full, Finset.sum_eq_zero fun i _ => by rw [h.cpus i]; rfl]
    rfl
  have hlive : s.slabs.live = [] := by rw [SlabLayer.live, h.partialEmpty, h.completeEmpty, List.nil_append]
  have hno : ∀ i, i ∉ s.slabs.live := fun i hi => by
    rw [hlive] at hi
    cases hi
  refine ⟨⟨⟨fun i hi => absurd hi (hno i), fun i _ hi => absurd hi (hno i), fun i hi => absurd hi (hno i), fun i hi => absurd hi (hno i),
    fun i hi => absurd hi (hno i), ?_, ?_, fun i hi => absurd hi (hno i), fun _ => ⟨0, ?_, ?_, ?_⟩⟩, ?_, ?_, ?_⟩, ⟨h.magtype, ?_, ?_, ?_⟩, ?_, ?_, ?_, ?_, ?_⟩
  · rw [hout]
    exact nodup_zero
  · intro b hb
    rw [hout] at hb
    exact absurd hb (notMem_zero b)
  · rw [h.hash]
    exact .empty
  · rw [hout]
    rfl
  · exact fun e he => absurd he (notMem_zero e)
  · rw [hlive]
    exact List.nodup_nil
  · intro i hi
    rw [h.partialEmpty] at hi
    cases hi
  · intro i hi
    rw [h.completeEmpty] at hi
    cases hi
  · intro i _
    rw [h.cpus i]
    split
    · exact .disabled
    · exact .unloaded
  · rw [h.full]
    exact ⟨fun _ hmp => (by cases hmp), rfl, le_rfl⟩
  · rw [h.empty]
    exact ⟨fun _ hmp => (by cases hmp), rfl, le_rfl⟩
  · intro cl hcl
    rw [h.calls] at hcl
    exact absurd hcl (notMem_zero cl)
  · rw [h.calls]
    exact nodup_zero
  · rw [h.calls]
    exact nodup_zero
  · intro i hi
    rw [h.calls] at hi
    exact absurd hi (notMem_zero i)
  · rw [h.task]
    trivial

lemma Inv.step (h : Inv c s) (hs : Step c s s') : Inv c s' := by
  cases hs with
  | alloc i hi => exact h.start hi rfl rfl (add_zero _)
  | free i hi buf rest hc => exact h.start hi rfl rfl (by rw [hc]; exact (add_comm _ _).trans (singleton_add _ _))
  | call cl rest ch out hc hl ha hrun =>
    obtain ⟨out', hrun', hdone⟩ := callRun_spec (h.out_cons hc) h.mags (h.calls cl (by rw [hc]; exact mem_cons_self _ _)) ha
    rw [hrun'] at hrun
    cases hrun
    exact h.call hc hl hdone (hdone.new_apart hc ha hrun')
  | wsUpdate => exact h.setMags { h.mags with full := h.mags.full.wsUpdate, empty := h.mags.empty.wsUpdate } rfl (.wsUpdate _) rfl
  | wsZero => exact h.setMags { h.mags with full := h.mags.full.wsZero, empty := h.mags.empty.wsZero } rfl (.wsZero _) rfl
  | startReap ht =>
    have hs := h.slabs
    unfold KmemState.out at hs
    rw [ht] at hs
    exact { h with slabs := hs, task := trivial }
  | startResize ht hb =>
    have hs := h.slabs
    unfold KmemState.out at hs
    rw [ht] at hs
    exact { h with
      slabs := hs
      task := ⟨fun j hj => absurd hj (Nat.not_lt_zero j), mtMaxbuf_next _ h.mags.magtype (Nat.zero_lt_of_lt hb)⟩ }
  | task hl hrun =>
    obtain ⟨S', m', t', hrun', hdone⟩ := taskRun_spec h.out_task h.mags h.task
    rw [hrun'] at hrun
    cases hrun
    refine ⟨?_, hdone.mags, fun cl hcl => ?_, h.locks, h.inserted, h.apart, hdone.task⟩
    · have hs := hdone.slabs
      rwa [← add_assoc, add_comm (Task.held _)] at hs
    · exact (h.calls cl hcl).mono (fun i hi hen hlock => hdone.cpus i hi hen fun hw => hl i hw cl hcl hlock)
        fun i _ j hj hno => absurd (hdone.shrinks.live j hj) hno
  | rescale ht newSize hn =>
    exact ⟨kmemHashRescale_spec h.slabs newSize, h.mags, fun cl hcl => (h.calls cl hcl).mono (fun _ _ _ _ => ⟨rfl, rfl⟩)
      fun i _ j hj hno => absurd hj hno, h.locks, h.inserted, h.apart, h.task⟩

lemma Reachable.inv (h : Reachable c s) : Inv c s := by
  induction h with
  | created h => exact .created h
  | step _ hs ih => exact ih.step hs

/-! ## The result -/

lemma Inv.destroyed (h : Inv c s) (hs : Step c s s') (hi : i ∈ s.slabs.live) (hno : i ∉ s'.slabs.live) :
    (s'.slabs.slab i).slabRefcnt = 0 := by
  cases hs with
  | call cl rest ch out hc hl ha hrun =>
    obtain ⟨out', hrun', hdone⟩ := callRun_spec (h.out_cons hc) h.mags (h.calls cl (by rw [hc]; exact mem_cons_self _ _)) ha
    rw [hrun'] at hrun
    cases hrun
    exact hdone.destroyed i hi hno
  | task hl hrun =>
    obtain ⟨S', m', t', hrun', hdone⟩ := taskRun_spec h.out_task h.mags h.task
    rw [hrun'] at hrun
    cases hrun
    exact hdone.shrinks.destroyed i hi hno
  | _ => exact absurd hi hno

variable {out : Multiset Nat} {b : Nat}

lemma SlabOk.count_eq_one (h : SlabOk c out S) (hi : i ∈ S.live) (hb : b ∈ (S.slab i).bufs c) :
    (S.slab i).slabHead.count b + out.count b = 1 := by
  by_cases hhead : b ∈ (S.slab i).slabHead
  · have hout : b ∉ out := fun hout => by
      obtain ⟨j, hj, hbj, hno⟩ := h.chunks.outMem b hout
      obtain rfl := h.chunks.slab_unique hi hj hb hbj
      exact hno hhead
    rw [List.count_eq_one_of_mem (h.chunks.headNodup i hi) hhead, count_eq_zero_of_notMem hout]
  · rw [List.count_eq_zero_of_not_mem hhead, count_eq_one_of_mem h.chunks.outNodup ((h.chunks.covered i hi b hb).resolve_left hhead)]

/-- The chunks of a slab just created are on its free list. -/
lemma Private.count_eq_one {sp : Slab} (h : SlabOk c out S) (hp : Private c S i sp) (hb : b ∈ sp.bufs c) :
    sp.slabHead.count b + out.count b = 1 := by
  have hout : b ∉ out := fun hout => by
    obtain ⟨j, hj, hbj, -⟩ := h.chunks.outMem b hout
    have hbi := hp.fits.mem hb
    have hbj := (h.chunks.fits j hj).mem hbj
    have := hp.apart j hj
    omega
  have hnd : sp.slabHead.Nodup := by
    rw [hp.slabHead]
    exact List.nodup_reverse.2 sp.bufs_nodup
  have hmem : b ∈ sp.slabHead := by
    rw [hp.slabHead]
    exact List.mem_reverse.2 hb
  rw [List.count_eq_one_of_mem hnd hmem, count_eq_zero_of_notMem hout]

lemma CpuOk.ploaded {mt : Nat} {cc : CpuCache} (h : CpuOk mt cc) : ∀ mp ∈ cc.ccPloaded, cc.ccProunds = 0 ∨ cc.ccProunds = mtMagsize mp.mtType := by
  intro pmp hpmp
  cases h with
  | two mp pmp n p h hp hn hpn =>
    cases hpmp
    rw [hp]
    dsimp only
    omega
  | _ => cases hpmp

lemma Reachable.single {ch : Choice} {out : CallOut} (h : Reachable c s) (cl : Call) (hc : s.calls = cl ::ₘ 0) (ha : Answer c s cl ch)
    (hrun : callRun c s.slabs s.mags ch cl = .ok out) : Reachable c ⟨out.slabs, out.mags, ((out.given.toList : List Nat) : Multiset Nat) + s.client,
      ((out.next.toList : List Call) : Multiset Call) + 0, s.task⟩ :=
  h.step (.call cl 0 ch out hc (fun _ _ cl' hcl' => absurd hcl' (notMem_zero cl')) ha hrun)

/-- Conservation of the buffers of a cache, in every reachable state. -/
theorem objects_conserved (h : Reachable c s) :
    (∀ i ∈ s.slabs.live, ∀ b ∈ (s.slabs.slab i).bufs c, (s.slabs.slab i).slabHead.count b + (s.out c).count b = 1) ∧
    (∀ i sp, .slabInsert i sp ∈ s.calls → ∀ b ∈ sp.bufs c, sp.slabHead.count b + (s.out c).count b = 1) ∧
    (∀ b ∈ s.out c, ∃ i ∈ s.slabs.live, b ∈ (s.slabs.slab i).bufs c) ∧
    (∀ i < c.ncpus, ∀ mp ∈ (s.mags.cpu i).ccPloaded, (s.mags.cpu i).ccProunds = 0 ∨ (s.mags.cpu i).ccProunds = mtMagsize mp.mtType) ∧
    (∀ mp ∈ s.mags.cacheFull.mlList ++ s.mags.cacheEmpty.mlList, mp.mtType = s.mags.cacheMagtype) ∧
    (∀ i ∈ s.slabs.live, (i ∈ s.slabs.cachePartialSlabs ↔ slabIsPartial (s.slabs.slab i)) ∧
      (i ∈ s.slabs.cacheCompleteSlabs ↔ (s.slabs.slab i).slabRefcnt = (s.slabs.slab i).slabChunks)) ∧
    (∀ s', Step c s s' → ∀ i ∈ s.slabs.live, i ∉ s'.slabs.live → (s'.slabs.slab i).slabRefcnt = 0) ∧
    (∀ cl ∈ s.calls, ∀ ch, Answer c s cl ch → ∃ out, callRun c s.slabs s.mags ch cl = .ok out) ∧
    ∃ r, taskRun c s.slabs s.mags s.task = .ok r := by
  have hinv := h.inv
  refine ⟨fun i hi b hb => hinv.slabs.count_eq_one hi hb, fun i sp hcl b hb => Private.count_eq_one hinv.slabs (hinv.calls _ hcl) hb,
    fun b hb => ?_, fun i hi => (hinv.mags.cpus i hi).ploaded, fun mp hmp => ?_, fun i hi => hinv.slabs.lists hi,
    fun s' hs i hi hno => hinv.destroyed hs hi hno, fun cl hcl ch ha => ?_, ?_⟩
  · obtain ⟨i, hi, hbi, -⟩ := hinv.slabs.chunks.outMem b hb
    exact ⟨i, hi, hbi⟩
  · rcases List.mem_append.1 hmp with hmp | hmp
    · exact hinv.mags.full.mtType mp hmp
    · exact hinv.mags.empty.mtType mp hmp
  · obtain ⟨rest, hc⟩ := Multiset.exists_cons_of_mem hcl
    obtain ⟨out, hrun, -⟩ := callRun_spec (hinv.out_cons hc) hinv.mags (hinv.calls cl hcl) ha
    exact ⟨out, hrun⟩
  · obtain ⟨S', m', t', hrun, -⟩ := taskRun_spec hinv.out_task hinv.mags hinv.task
    exact ⟨_, hrun⟩

/-- A cache with slabs of two chunks that fills magazines from new slabs. -/
def pairCache : Cache := ⟨false, true, false, 8, 64, 0, 1, by decide, by decide⟩

def pairCreated : KmemState :=
  ⟨⟨fun _ => ⟨0, 0, 0, []⟩, [], [], fun _ => [], 0⟩, ⟨fun _ => ⟨none, none, -1, -1, 1⟩, ⟨[], 0, 0, 0⟩, ⟨[], 0, 0, 0⟩, 0⟩, 0, 0, .idle⟩

def pairChoice : Choice := ⟨none, some (64, ⟨64, 2, 0, [72, 64]⟩), 0, true, true, fun _ => 0⟩

lemma pairChoice_answer (hfirst : cl = .slabAlloc → s.slabs.cachePartialSlabs = [])
    (hnew : cl = .slabCreate → s.slabs.live = [] ∧ s.calls = .slabCreate ::ₘ 0) : Answer pairCache s cl pairChoice := by
  refine ⟨hfirst, fun hcl i sp heq => ?_, by decide⟩
  cases heq
  obtain ⟨hlive, hcalls⟩ := hnew hcl
  refine ⟨rfl, rfl, ⟨by decide, by decide, by decide, fun _ => by decide⟩, fun j hj => ?_, fun j sp' hj => ?_⟩
  · rw [hlive] at hj
    cases hj
  · rw [hcalls] at hj
    rcases mem_cons.1 hj with hj | hj
    · cases hj
    · exact absurd hj (notMem_zero _)

lemma pairChoice_other (h : cl ≠ .slabAlloc) (h' : cl ≠ .slabCreate) : Answer pairCache s cl pairChoice :=
  pairChoice_answer (absurd · h) (absurd · h')

/-- An allocation creates a slab: the client has one chunk, a magazine the other. -/
lemma exists_filled_run : ∃ s, Reachable pairCache s ∧ s.client = {72} ∧ s.mags.held pairCache = {64} ∧ s.slabs.live = [64] := by
  have h0 : Reachable pairCache pairCreated := .created ⟨rfl, rfl, rfl, rfl, rfl, by decide, fun _ => rfl, rfl, rfl, rfl⟩
  have h1 := h0.step (.alloc 0 (by decide))
  have h2 := h1.single (.get 0) rfl (pairChoice_other nofun nofun) rfl
  have h3 := h2.single .slabAlloc rfl (pairChoice_answer (fun _ => rfl) fun h => by cases h) rfl
  have h4 := h3.single .slabCreate rfl (pairChoice_answer (fun h => by cases h) fun _ => ⟨rfl, rfl⟩) rfl
  have h5 := h4.single (.slabInsert 64 ⟨64, 2, 0, [72, 64]⟩) rfl (pairChoice_other nofun nofun) rfl
  have h6 := h5.single (.put 0 64 (.prefill [] 72)) rfl (pairChoice_other nofun nofun) rfl
  have h7 := h6.single (.magAlloc 0 64 (.prefill [] 72) 0) rfl (pairChoice_other nofun nofun) rfl
  have h8 := h7.single (.magGot 0 64 (.prefill [] 72) 0) rfl (pairChoice_other nofun nofun) rfl
  have h9 := h8.single (.put 0 64 (.prefill [] 72)) rfl (pairChoice_other nofun nofun) rfl
  have h10 := h9.single (.putEmpty 0 64 (.prefill [] 72) ⟨0, fun _ => 0⟩) rfl (pairChoice_other nofun nofun) rfl
  have h11 := h10.single (.construct 72) rfl (pairChoice_other nofun nofun) rfl
  exact ⟨_, h11, rfl, rfl, rfl⟩

theorem objects_conserved_filled : ∃ s, Reachable pairCache s ∧ s.client = {72} ∧ s.mags.held pairCache = {64} ∧
    ∀ b ∈ (s.slabs.slab 64).bufs pairCache, (s.slabs.slab 64).slabHead.count b + (s.out pairCache).count b = 1 := by
  obtain ⟨s, hs, hclient, hheld, hlive⟩ := exists_filled_run
  exact ⟨s, hs, hclient, hheld, (objects_conserved hs).1 64 (by rw [hlive]; exact List.mem_singleton_self 64)⟩

end Unleashed.Kernel.Kmem
