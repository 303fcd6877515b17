import Unleashed.Kernel.Kmem.Slabs
import Unleashed.Kernel.Kmem.Magazines

/-!
# The steps of the calls and of the task

Every step returns, and moves buffers without losing or copying one.
-/

namespace Unleashed.Kernel.Kmem

open Lib Fault Multiset

/-- The buffers that a call still has to see to after the one it works on. -/
def Cont.held : Cont → Multiset Nat
  | .finish => 0
  | .prefill rest buf => buf ::ₘ (rest : Multiset Nat)

/-- The buffers that a running call has. -/
def Call.held : Call → Multiset Nat
  | .getFull _ fmp => fmp.held
  | .construct buf => {buf}
  | .put _ buf k => {buf} + k.held
  | .putEmpty _ buf k _ => {buf} + k.held
  | .magAlloc _ buf k _ => {buf} + k.held
  | .magGot _ buf k _ => {buf} + k.held
  | .slabFrees bufs buf => (bufs : Multiset Nat) + (buf.toList : List Nat)
  | _ => 0

/-- The buffers that the task has. -/
def Task.held : Task → Multiset Nat
  | .purgeFree _ bufs => bufs
  | .reapFree _ bufs _ => bufs
  | _ => 0

/-- What a step of a call leaves with its task: the buffer handed out and those of the call that goes on. -/
def CallOut.held (out : CallOut) : Multiset Nat := (out.given.toList : List Nat) + out.next.elim 0 Call.held

lemma Cont.next_held (i : Nat) (k : Cont) : (k.next i).elim 0 Call.held = k.held := by
  match k with
  | .finish => rfl
  | .prefill [] buf => rfl
  | .prefill (b :: rest) buf =>
    show {b} + buf ::ₘ (rest : Multiset Nat) = buf ::ₘ ((b :: rest : List Nat) : Multiset Nat)
    rw [← cons_coe, singleton_add, cons_swap]

lemma Cont.fallback_held (b : Nat) (k : Cont) : (k.fallback b).held = {b} + k.held := by
  cases k with
  | finish => rfl
  | prefill rest buf =>
    show ((b :: rest : List Nat) : Multiset Nat) + ([buf] : List Nat) = {b} + buf ::ₘ (rest : Multiset Nat)
    rw [← cons_coe, coe_singleton, singleton_add, cons_add, add_comm (rest : Multiset Nat), singleton_add]

variable {c : Cache} {S : SlabLayer} {m m' : MagLayer} {i : Nat} {a b k rest : Multiset Nat}

/-- What an allocation has after its part in the magazines is what that part returned. -/
lemma getNext_held (S : SlabLayer) (i : Nat) (r : GetResult) (m : MagLayer) : (getNext S i (r, m)).held = r.held := by
  cases r with
  | done buf => rfl
  | slab => rfl
  | full fmp => exact zero_add _

/-- What a free has after its part in the magazines: the buffer, unless a magazine took it. -/
lemma putNext_held (S : SlabLayer) (i buf : Nat) (k : Cont) (r : PutResult) (m : MagLayer) :
    (putNext S i buf k (r, m)).held = r.held buf + k.held := by
  cases r with
  | done => exact (zero_add _).trans ((k.next_held i).trans (zero_add _).symm)
  | slab => exact (zero_add _).trans (k.fallback_held buf)
  | empty emp => exact zero_add _
  | magazine => exact zero_add _

/-- The slab layer does not see a buffer move between a task and a magazine. -/
lemma SlabOk.moved (hS : SlabOk c (a + k + (rest + m.held c)) S) (hmv : Moved c i a b m m') : SlabOk c (b + k + (rest + m'.held c)) S := by
  have heq : b + k + (rest + m'.held c) = a + k + (rest + m.held c) := by
    calc b + k + (rest + m'.held c) = (b + m'.held c) + (k + rest) := by abel
      _ = (a + m.held c) + (k + rest) := by rw [hmv.held]
      _ = a + k + (rest + m.held c) := by abel
  rw [heq]
  exact hS

/-! ## Calls -/

/-- What holds for a running call. -/
def CallOk (c : Cache) (S : SlabLayer) (m : MagLayer) : Call → Prop
  | .get i => i < c.ncpus
  | .getFull i fmp => i < c.ncpus ∧ GetReady m i fmp
  | .slabInsert i sp => Private c S i sp
  | .put i _ _ => i < c.ncpus
  | .putEmpty i _ _ emp => i < c.ncpus ∧ PutReady m i emp
  | .magAlloc i _ _ mt => i < c.ncpus ∧ mt < kmemMagtype.length
  | .magGot i _ _ mt => i < c.ncpus ∧ mt < kmemMagtype.length
  | _ => True

/-- The CPU cache that a call works on. -/
def Call.uses (cl : Call) (i : Nat) : Prop := cl.locks = some i ∨ cl.wants = some i

/-- The slab that a call has created. -/
def Call.inserted : Call → Option Nat
  | .slabInsert i _ => some i
  | _ => none

/-- What a step of a call does; `rest` is what others have. -/
structure CallDone (c : Cache) (S : SlabLayer) (m : MagLayer) (cl : Call) (rest : Multiset Nat) (out : CallOut) : Prop where
  slabs : SlabOk c (out.held + (rest + out.mags.held c)) out.slabs
  mags : MagOk c out.mags
  frame : out.mags = m ∨ ∃ i, i < c.ncpus ∧ cl.uses i ∧ Frame i m out.mags
  next : ∀ cl', out.next = some cl' → CallOk c out.slabs out.mags cl'
  locks : ∀ cl', out.next = some cl' → ∀ i, cl'.locks = some i → cl.uses i
  inserted : ∀ cl', out.next = some cl' → ∀ i, cl'.inserted = some i → cl = .slabCreate
  live : ∀ j ∈ out.slabs.live, j ∈ S.live ∨ cl.inserted = some j
  destroyed : ∀ j ∈ S.live, j ∉ out.slabs.live → (out.slabs.slab j).slabRefcnt = 0

lemma Cont.next_ok {i : Nat} (hi : i < c.ncpus) (k : Cont) : ∀ cl', k.next i = some cl' → CallOk c S m cl' ∧ cl'.locks = none ∧ cl'.inserted = none := by
  intro cl' heq
  match k, heq with
  | .prefill [] buf, heq =>
    cases heq
    exact ⟨trivial, rfl, rfl⟩
  | .prefill (b :: rest) buf, heq =>
    cases heq
    exact ⟨hi, rfl, rfl⟩

lemma Cont.fallback_ok (k : Cont) (buf : Nat) : CallOk c S m (k.fallback buf) ∧ (k.fallback buf).locks = none ∧ (k.fallback buf).inserted = none := by
  cases k <;> exact ⟨trivial, rfl, rfl⟩

/-- A step that only moves buffers through the magazines of one CPU. -/
lemma CallDone.moved {cl : Call} {out : CallOut} (hS : SlabOk c (a + k + (rest + m.held c)) S) (hi : i < c.ncpus) (huse : cl.uses i)
    (hmv : Moved c i a b m out.mags) (hslabs : out.slabs = S) (hheld : out.held = b + k)
    (hnext : ∀ cl', out.next = some cl' → CallOk c S out.mags cl' ∧ (∀ j, cl'.locks = some j → cl.uses j) ∧ cl'.inserted = none) :
    CallDone c S m cl rest out := by
  refine ⟨?_, hmv.ok, .inr ⟨i, hi, huse, hmv.frame⟩, fun cl' heq => ?_, fun cl' heq => (hnext cl' heq).2.1, fun cl' heq j hj => ?_,
    fun j hj => .inl (hslabs ▸ hj), fun j hj hno => absurd hj (hslabs ▸ hno)⟩
  · rw [hheld, hslabs]
    exact hS.moved hmv
  · rw [hslabs]
    exact (hnext cl' heq).1
  · rw [(hnext cl' heq).2.2] at hj
    cases hj

variable {m1 : MagLayer}

/-- The magazine part of an allocation. -/
lemma getLoop_done (cl : Call) (hS : SlabOk c (a + (rest + m.held c)) S) (hi : i < c.ncpus) (huse : cl.uses i) (hmv : Moved c i a 0 m m1) :
    ∃ r, getLoop i 2 m1 = .ok r ∧ CallDone c S m cl rest (getNext S i r) := by
  obtain ⟨r, m', hget, hmv', hready⟩ := getLoop_spec hmv.ok hi
  have hall := hmv.trans hmv'
  have hS' : SlabOk c (a + 0 + (rest + m.held c)) S := by rwa [add_zero]
  have hheld : (getNext S i (r, m')).held = r.held + 0 := by rw [getNext_held, add_zero]
  refine ⟨(r, m'), hget, ?_⟩
  cases r with
  | done buf => exact .moved hS' hi huse hall rfl hheld fun cl' heq => by cases heq
  | slab =>
    refine .moved hS' hi huse hall rfl hheld fun cl' heq => ?_
    cases heq
    exact ⟨trivial, fun j hj => (by cases hj), rfl⟩
  | full fmp =>
    refine .moved hS' hi huse hall rfl hheld fun cl' heq => ?_
    cases heq
    exact ⟨⟨hi, hready fmp rfl⟩, fun j hj => (by cases hj; exact huse), rfl⟩

/-- The magazine part of a free. -/
lemma putLoop_done (cl : Call) {buf : Nat} {k : Cont} (hS : SlabOk c ({buf} + k.held + (rest + m.held c)) S)
    (hi : i < c.ncpus) (huse : cl.uses i) (hmv : Moved c i {buf} {buf} m m1) :
    ∃ r, putLoop i buf 2 m1 = .ok r ∧ CallDone c S m cl rest (putNext S i buf k r) := by
  obtain ⟨r, m', hput, hmv', hready⟩ := putLoop_spec hmv.ok hi buf
  have hall := hmv.trans hmv'
  have hheld := putNext_held S i buf k r m'
  refine ⟨(r, m'), hput, ?_⟩
  cases r with
  | done =>
    refine .moved hS hi huse hall rfl hheld fun cl' heq => ?_
    obtain ⟨hok, hl, hins⟩ := k.next_ok hi cl' heq
    exact ⟨hok, fun j hj => (by rw [hl] at hj; cases hj), hins⟩
  | slab =>
    refine .moved hS hi huse hall rfl hheld fun cl' heq => ?_
    cases heq
    obtain ⟨hok, hl, hins⟩ := k.fallback_ok buf
    exact ⟨hok, fun j hj => (by rw [hl] at hj; cases hj), hins⟩
  | empty emp =>
    refine .moved hS hi huse hall rfl hheld fun cl' heq => ?_
    cases heq
    exact ⟨⟨hi, hready emp rfl⟩, fun j hj => (by cases hj; exact huse), rfl⟩
  | magazine =>
    refine .moved hS hi huse hall rfl hheld fun cl' heq => ?_
    cases heq
    exact ⟨⟨hi, hall.ok.magtype⟩, fun j hj => (by cases hj), rfl⟩

variable {next : Option Call}

/-- A step that leaves both layers as they are. -/
lemma CallDone.same {cl : Call} {given : Option Nat} (hS : SlabOk c (cl.held + (rest + m.held c)) S) (hm : MagOk c m)
    (hheld : CallOut.held ⟨S, m, next, given⟩ = cl.held)
    (hnext : ∀ cl', next = some cl' → CallOk c S m cl' ∧ cl'.locks = none ∧ (∀ i, cl'.inserted = some i → cl = .slabCreate)) :
    CallDone c S m cl rest ⟨S, m, next, given⟩ := by
  refine ⟨?_, hm, .inl rfl, fun cl' heq => (hnext cl' heq).1, fun cl' heq i hi => ?_, fun cl' heq i hi => (hnext cl' heq).2.2 i hi,
    fun j hj => .inl hj, fun j hj hno => absurd hj hno⟩
  · rw [hheld]
    exact hS
  · rw [(hnext cl' heq).2.1] at hi
    cases hi

/-- A step in the slab layer. -/
lemma CallDone.slab {cl : Call} {S' : SlabLayer} (hm : MagOk c m)
    (hS : SlabOk c (next.elim 0 Call.held + (rest + m.held c)) S') (hnext : ∀ cl', next = some cl' → CallOk c S' m cl' ∧ cl'.locks = none ∧ cl'.inserted = none)
    (hlive : ∀ j ∈ S'.live, j ∈ S.live ∨ cl.inserted = some j) (hdead : ∀ j ∈ S.live, j ∉ S'.live → (S'.slab j).slabRefcnt = 0) :
    CallDone c S m cl rest ⟨S', m, next, none⟩ := by
  refine ⟨?_, hm, .inl rfl, fun cl' heq => (hnext cl' heq).1, fun cl' heq i hi => ?_, fun cl' heq i hi => ?_, hlive, hdead⟩
  · show SlabOk c (((none : Option Nat).toList : List Nat) + next.elim 0 Call.held + (rest + m.held c)) S'
    rw [Option.toList_none, coe_nil, zero_add]
    exact hS
  · rw [(hnext cl' heq).2.1] at hi
    cases hi
  · rw [(hnext cl' heq).2.2] at hi
    cases hi

variable {s : KmemState} {cl : Call} {ch : Choice}

/-- Every step of a call keeps both layers and neither loses nor doubles a buffer. -/
lemma callRun_spec (hS : SlabOk c (cl.held + (rest + s.mags.held c)) s.slabs) (hm : MagOk c s.mags) (hcl : CallOk c s.slabs s.mags cl)
    (ha : Answer c s cl ch) : ∃ out, callRun c s.slabs s.mags ch cl = .ok out ∧ CallDone c s.slabs s.mags cl rest out := by
  cases cl with
  | get i =>
    obtain ⟨r, hget, hdone⟩ := getLoop_done (.get i) hS hcl (.inr rfl) (.refl hm i 0)
    exact ⟨_, by rw [callRun, hget, ok_bind], hdone⟩
  | getFull i fmp =>
    obtain ⟨m1, hfull, hmv⟩ := getFull_spec hm hcl.1 hcl.2
    obtain ⟨r, hget, hdone⟩ := getLoop_done (.getFull i fmp) hS hcl.1 (.inl rfl) hmv
    exact ⟨_, by rw [callRun, hfull, ok_bind, hget, ok_bind], hdone⟩
  | slabAlloc =>
    have hfirst := ha.first rfl
    rw [callRun]
    cases hch : ch.first with
    | none =>
      refine ⟨_, rfl, .same hS hm rfl fun cl' heq => ?_⟩
      cases heq
      exact ⟨trivial, rfl, fun i hi => by cases hi⟩
    | some i =>
      rw [hch] at hfirst
      obtain ⟨b, S', halloc, hS', hsh⟩ := kmemSlabAllocImpl_old hS hfirst ch.enabled
      dsimp only
      rw [halloc, ok_bind]
      refine ⟨_, rfl, .slab hm ?_ (Cont.next_ok ha.cpu _) (fun j hj => .inl (hsh.live j hj)) hsh.destroyed⟩
      rw [Cont.next_held]
      show SlabOk c (b ::ₘ 0 + (rest + _)) S'
      rw [cons_add]
      exact hS'
  | slabCreate =>
    rw [callRun]
    cases hch : ch.newSlab with
    | none => exact ⟨_, rfl, .same hS hm rfl fun cl' heq => by cases heq⟩
    | some p =>
      obtain ⟨i, sp⟩ := p
      have hnew := ha.newSlab rfl i sp hch
      refine ⟨_, rfl, .same hS hm rfl fun cl' heq => ?_⟩
      cases heq
      exact ⟨⟨hnew.slabRefcnt, hnew.slabHead, hnew.fits, hnew.fresh⟩, rfl, fun _ _ => rfl⟩
  | slabInsert i sp =>
    obtain ⟨b, more, S', halloc, hS', hlive⟩ := kmemSlabAllocImpl_new hS hcl ch.enabled
    rw [callRun, halloc, ok_bind]
    refine ⟨_, rfl, .slab hm ?_ (Cont.next_ok ha.cpu _) (fun j hj => ?_) fun j hj hno => absurd ((hlive j).2 (.inl hj)) hno⟩
    · rw [Cont.next_held]
      show SlabOk c (b ::ₘ (more : Multiset Nat) + (rest + _)) S'
      rw [add_cons] at hS'
      rw [cons_add]
      rwa [show Call.held (.slabInsert i sp) = 0 from rfl, zero_add] at hS'
    · rcases (hlive j).1 hj with hj | rfl
      · exact .inl hj
      · exact .inr rfl
  | construct buf =>
    rw [callRun]
    split
    · exact ⟨_, rfl, .same hS hm rfl fun cl' heq => by cases heq⟩
    · refine ⟨_, rfl, .same hS hm rfl fun cl' heq => ?_⟩
      cases heq
      exact ⟨trivial, rfl, fun i hi => by cases hi⟩
  | put i buf k =>
    obtain ⟨r, hput, hdone⟩ := putLoop_done (.put i buf k) hS hcl (.inr rfl) (.refl hm i _)
    exact ⟨_, by rw [callRun, hput, ok_bind], hdone⟩
  | putEmpty i buf k emp =>
    obtain ⟨m1, hempty, hmv⟩ := putEmpty_spec hm hcl.1 hcl.2
    have hmv' : Moved c i {buf} {buf} s.mags m1 := ⟨hmv.ok, by rw [← zero_add (m1.held c), hmv.held, zero_add], hmv.frame⟩
    obtain ⟨r, hput, hdone⟩ := putLoop_done (.putEmpty i buf k emp) hS hcl.1 (.inl rfl) hmv'
    exact ⟨_, by rw [callRun, hempty, ok_bind, hput, ok_bind], hdone⟩
  | magAlloc i buf k mt =>
    rw [callRun]
    split
    · refine ⟨_, rfl, .same hS hm (zero_add _) fun cl' heq => ?_⟩
      cases heq
      exact ⟨hcl, rfl, fun i hi => by cases hi⟩
    · refine ⟨_, rfl, .same hS hm ((zero_add _).trans (k.fallback_held buf)) fun cl' heq => ?_⟩
      cases heq
      obtain ⟨hok, hl, hins⟩ := k.fallback_ok buf
      exact ⟨hok, hl, fun i hi => by rw [hins] at hi; cases hi⟩
  | magGot i buf k mt =>
    obtain ⟨m', hinst, hmv⟩ := magazineInstall_spec (a := {buf}) hm hcl.1 hcl.2 ⟨mt, ch.magRound⟩ rfl
    rw [callRun, hinst, ok_bind]
    refine ⟨_, rfl, .moved (k := k.held) hS hcl.1 (.inr rfl) hmv rfl (zero_add _) fun cl' heq => ?_⟩
    cases heq
    exact ⟨hcl.1, fun j hj => (by cases hj), rfl⟩
  | slabFrees bufs buf =>
    cases bufs with
    | nil =>
      rw [callRun]
      refine ⟨_, rfl, .same hS hm ?_ fun cl' heq => by cases heq⟩
      show (buf.toList : Multiset Nat) + 0 = ((([] : List Nat) : Multiset Nat)) + _
      rw [coe_nil, add_comm]
    | cons b bufs =>
      have hS' : SlabOk c (b ::ₘ (Call.held (.slabFrees bufs buf) + (rest + s.mags.held c))) s.slabs := by
        rw [← cons_add]
        exact hS
      obtain ⟨S', hfree, hok, hsh⟩ := kmemSlabFree_spec hS'
      rw [callRun, hfree, ok_bind]
      refine ⟨_, rfl, .slab hm hok (fun cl' heq => ?_) (fun j hj => .inl (hsh.live j hj)) hsh.destroyed⟩
      cases heq
      exact ⟨trivial, rfl, rfl⟩

end Unleashed.Kernel.Kmem
