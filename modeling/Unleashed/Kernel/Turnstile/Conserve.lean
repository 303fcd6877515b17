import Unleashed.Kernel.Turnstile.Basic

/-!
# No turnstile is lost

What holds of the turnstiles between any two steps, and that each function of `turnstile.c` keeps it.
-/

namespace Unleashed.Kernel.Turnstile

open Lib Function List

variable {upi : UpiTab} {s s' : TsState} {t u : Tid} {x y : Tsid} {q : TsQueue} {p : Nat} (d : TsData)

@[simp, grind =] lemma setTs_ts : (s.setTs x d).ts y = if y = x then d else s.ts y := by
  simp only [TsState.setTs, update_apply]

@[simp, grind =] lemma setTs_thread : (s.setTs x d).thread = s.thread := rfl
@[simp, grind =] lemma setTs_turnstileTable : (s.setTs x d).turnstileTable = s.turnstileTable := rfl

@[simp, grind =] lemma setTs_owner : (s.setTs x d).owner = s.owner := rfl

variable (k : Kthread)

@[simp, grind =] lemma setThread_thread : (s.setThread t k).thread u = if u = t then k else s.thread u := by
  simp only [TsState.setThread, update_apply]

@[simp, grind =] lemma setThread_ts : (s.setThread t k).ts = s.ts := rfl
@[simp, grind =] lemma setThread_turnstileTable : (s.setThread t k).turnstileTable = s.turnstileTable := rfl

@[simp, grind =] lemma setThread_owner : (s.setThread t k).owner = s.owner := rfl

lemma sleepqInsert_perm (pri : Tid → Nat) (t : Tid) (l : List Tid) : (sleepqInsert pri t l).Perm (t :: l) := by
  induction l with
  | nil => exact .refl _
  | cons next l ih =>
    simp only [sleepqInsert]
    split
    · exact .refl _
    · exact (ih.cons next).trans (.swap t next l)

variable {pri : Tid → Nat} {l : List Tid}

@[grind =] lemma mem_sleepqInsert : u ∈ sleepqInsert pri t l ↔ u = t ∨ u ∈ l := by
  rw [(sleepqInsert_perm pri t l).mem_iff, mem_cons]

@[grind =] lemma length_sleepqInsert : (sleepqInsert pri t l).length = l.length + 1 :=
  (sleepqInsert_perm pri t l).length_eq

variable {d : TsData}

lemma sleepq_of_ts (hts : ∀ z, s'.ts z = if z = x then d else s.ts z)
    (hd : d.tsSleepq = update (s.ts x).tsSleepq q l) (z : Tsid) (r : TsQueue) :
    (s'.ts z).tsSleepq r = if z = x ∧ r = q then l else (s.ts z).tsSleepq r := by
  by_cases hz : z = x <;> by_cases hr : r = q <;> simp [hts, hz, hr, hd]

variable {β : Type}

lemma field_of_ts (f : TsData → β) (hts : ∀ z, s'.ts z = if z = x then d else s.ts z)
    (hd : f d = f (s.ts x)) (z : Tsid) : f (s'.ts z) = f (s.ts z) := by
  rw [hts z]
  split
  next hz =>
    subst hz
    exact hd
  next => rfl

lemma field_of_thread (f : Kthread → β) {k : Kthread} (hth : ∀ u, s'.thread u = if u = t then k else s.thread u)
    (hk : f k = f (s.thread t)) (u : Tid) : f (s'.thread u) = f (s.thread u) := by
  rw [hth u]
  split
  next hu =>
    subst hu
    exact hk
  next => rfl

/-- On the hash chains. -/
def Active (s : TsState) (x : Tsid) : Prop := ∃ b, x ∈ s.turnstileTable b

/-- The sleep queues hold the threads that are on them, once. -/
structure Queued (s : TsState) : Prop where
  queueNodup : ∀ x q, ((s.ts x).tsSleepq q).Nodup
  queued : ∀ x q t, t ∈ (s.ts x).tsSleepq q ↔ (s.thread t).tSleepq = some (x, q)

lemma Queued.nodup_insert (hs : Queued s) (ht : (s.thread t).tSleepq = none) (pri : Tid → Nat) :
    (sleepqInsert pri t ((s.ts x).tsSleepq q)).Nodup :=
  (sleepqInsert_perm pri t _).nodup_iff.2 (nodup_cons.2 ⟨fun h => by simp [(hs.queued x q t).1 h] at ht, hs.queueNodup x q⟩)

/-- A thread leaves its sleep queue. -/
lemma Queued.erase (hs : Queued s) (hq : (s.thread t).tSleepq = some (x, q))
    (hqueue : ∀ z r, (s'.ts z).tsSleepq r = if z = x ∧ r = q then ((s.ts x).tsSleepq q).erase t else (s.ts z).tsSleepq r)
    (hth : ∀ u, (s'.thread u).tSleepq = if u = t then none else (s.thread u).tSleepq) : Queued s' where
  queueNodup z r := by
    rw [hqueue]
    split_ifs
    · exact (hs.queueNodup x q).erase t
    · exact hs.queueNodup z r
  queued z r u := by
    rw [hqueue, hth]
    by_cases hz : z = x ∧ r = q
    · rw [if_pos hz, (hs.queueNodup x q).mem_erase_iff, hs.queued, hz.1, hz.2]
      split_ifs with hu
      · simp only [hu, ne_eq, not_true_eq_false, false_and]
      · exact and_iff_right hu
    · rw [if_neg hz, hs.queued]
      split_ifs with hu
      · -- `t` is on one queue only
        rw [hu, hq, Option.some.injEq, Prod.mk.injEq]
        simp only [iff_false]
        exact fun h => hz ⟨h.1.symm, h.2.symm⟩
      · exact Iff.rfl

/-- A thread that sleeps nowhere joins a sleep queue. -/
lemma Queued.insert (hs : Queued s) (ht : (s.thread t).tSleepq = none)
    (hqueue : ∀ z r, (s'.ts z).tsSleepq r = if z = x ∧ r = q then sleepqInsert pri t ((s.ts x).tsSleepq q) else (s.ts z).tsSleepq r)
    (hth : ∀ u, (s'.thread u).tSleepq = if u = t then some (x, q) else (s.thread u).tSleepq) : Queued s' where
  queueNodup z r := by
    rw [hqueue]
    split_ifs
    · exact hs.nodup_insert ht pri
    · exact hs.queueNodup z r
  queued z r u := by
    rw [hqueue, hth]
    by_cases hz : z = x ∧ r = q
    · rw [if_pos hz, mem_sleepqInsert, hs.queued, hz.1, hz.2]
      split_ifs with hu
      · exact iff_of_true (.inl hu) rfl
      · exact or_iff_right hu
    · rw [if_neg hz, hs.queued]
      split_ifs with hu
      · rw [hu, ht, Option.some.injEq, Prod.mk.injEq]
        simp only [reduceCtorEq, false_iff]
        exact fun h => hz ⟨h.1.symm, h.2.symm⟩
      · exact Iff.rfl

/-- What the turnstiles keep between any two steps. -/
structure Conserved (upi : UpiTab) (s : TsState) : Prop extends Queued s where
  place : ∀ b x, x ∈ s.turnstileTable b → turnstileSobjBucket upi (s.ts x).tsSobj = b
  chain : ∀ b, (s.turnstileTable b).Nodup
  one : ∀ x y, Active s x → Active s y → (s.ts x).tsSobj = (s.ts y).tsSobj → x = y
  counted : ∀ x, (s.ts x).tsWaiters = ((s.ts x).tsSleepq .TS_WRITER_Q).length + ((s.ts x).tsSleepq .TS_READER_Q).length
  freed : ∀ x, Active s x → (s.ts x).tsFree.length + 1 = (s.ts x).tsWaiters
  inactive : ∀ x, ¬ Active s x → (s.ts x).tsFree = [] ∧ (s.ts x).tsInheritor = none
  freeNodup : ∀ x, (s.ts x).tsFree.Nodup
  freeInactive : ∀ x y, y ∈ (s.ts x).tsFree → ¬ Active s y
  freeOnce : ∀ x x' y, y ∈ (s.ts x).tsFree → y ∈ (s.ts x').tsFree → x = x'
  asleep : ∀ t x q, (s.thread t).tSleepq = some (x, q) → Active s x ∧ (s.thread t).tTs = x ∧ (s.thread t).tWchan = some (s.ts x).tsSobj
  awake : ∀ t, (s.thread t).tSleepq = none → (s.thread t).tWchan = none ∧ ¬ Active s (s.thread t).tTs ∧ ∀ x, (s.thread t).tTs ∉ (s.ts x).tsFree
  own : ∀ t u, (s.thread t).tSleepq = none → (s.thread u).tSleepq = none → (s.thread t).tTs = (s.thread u).tTs → t = u
  prioinv : ∀ x t, x ∈ (s.thread t).tPrioinv ↔ (s.ts x).tsInheritor = some t
  prioinvNodup : ∀ t, (s.thread t).tPrioinv.Nodup

/-- A turnstile that is on no chain has no waiter. -/
lemma Conserved.idle (hs : Conserved upi s) (hx : ¬ Active s x) :
    (s.ts x).tsWaiters = 0 ∧ ∀ q, (s.ts x).tsSleepq q = [] := by
  have hempty : ∀ q, (s.ts x).tsSleepq q = [] := fun q =>
    eq_nil_iff_forall_not_mem.2 fun t ht => hx (hs.asleep t x q ((hs.queued x q t).1 ht)).1
  exact ⟨by rw [hs.counted, hempty, hempty]; rfl, hempty⟩

variable {o : Tid}

section
variable (hs : Conserved upi s)
include hs

lemma Conserved.active_of_inheritor (h : (s.ts x).tsInheritor = some o) : Active s x := by
  by_contra hx
  rw [(hs.inactive x hx).2] at h
  cases h

/-- A turnstile with one waiter has one thread on its two queues. -/
lemma Conserved.last_waiter {r : TsQueue} (hw : (s.ts x).tsWaiters = 1)
    (hu : u ∈ (s.ts x).tsSleepq r) (ht : t ∈ (s.ts x).tsSleepq q) : u = t := by
  have hcount := hs.counted x
  have hlu := length_pos_of_mem hu
  have hlt := length_pos_of_mem ht
  by_cases hr : r = q
  · subst hr
    obtain ⟨v, hv⟩ : ∃ v, (s.ts x).tsSleepq r = [v] := length_eq_one_iff.1 (by cases r <;> omega)
    rw [hv, mem_singleton] at hu ht
    exact hu.trans ht.symm
  · cases r <;> cases q <;> first | contradiction | omega

lemma Conserved.mem_table (hx : Active s x) : x ∈ s.turnstileTable (turnstileSobjBucket upi (s.ts x).tsSobj) := by
  obtain ⟨b, hb⟩ := hx
  rwa [hs.place b x hb]

/-- The turnstiles of the chains are those of their objects, as before. -/
lemma Conserved.same_table (htab : s'.turnstileTable = s.turnstileTable) (hsobj : ∀ z, (s'.ts z).tsSobj = (s.ts z).tsSobj) :
    (∀ b z, z ∈ s'.turnstileTable b → turnstileSobjBucket upi (s'.ts z).tsSobj = b) ∧ (∀ b, (s'.turnstileTable b).Nodup) ∧
      ∀ z w, Active s' z → Active s' w → (s'.ts z).tsSobj = (s'.ts w).tsSobj → z = w := by
  unfold Active
  rw [htab]
  refine ⟨fun b z hz => ?_, hs.chain, fun z w hz hw heq => ?_⟩
  · rw [hsobj]
    exact hs.place b z hz
  · rw [hsobj, hsobj] at heq
    exact hs.one z w hz hw heq

lemma Conserved.same_inheritors (hi : ∀ z, (s'.ts z).tsInheritor = (s.ts z).tsInheritor)
    (hl : ∀ u, (s'.thread u).tPrioinv = (s.thread u).tPrioinv) :
    (∀ z u, z ∈ (s'.thread u).tPrioinv ↔ (s'.ts z).tsInheritor = some u) ∧ ∀ u, (s'.thread u).tPrioinv.Nodup := by
  refine ⟨fun z u => ?_, fun u => ?_⟩
  · rw [hl, hi, hs.prioinv]
  · rw [hl]
    exact hs.prioinvNodup u

end

/-! ## Changes of priorities -/

/-- Only priorities, inheritances and the order of the queues differ. -/
structure SameQueues (s s' : TsState) : Prop where
  turnstileTable : s'.turnstileTable = s.turnstileTable
  tsFree : ∀ x, (s'.ts x).tsFree = (s.ts x).tsFree
  tsSobj : ∀ x, (s'.ts x).tsSobj = (s.ts x).tsSobj
  tsWaiters : ∀ x, (s'.ts x).tsWaiters = (s.ts x).tsWaiters
  tsSleepq : ∀ x q, ((s'.ts x).tsSleepq q).Perm ((s.ts x).tsSleepq q)
  tTs : ∀ t, (s'.thread t).tTs = (s.thread t).tTs
  tWchan : ∀ t, (s'.thread t).tWchan = (s.thread t).tWchan
  tSleepq : ∀ t, (s'.thread t).tSleepq = (s.thread t).tSleepq

lemma SameQueues.active (h : SameQueues s s') : Active s' x ↔ Active s x := by
  rw [Active, Active, h.turnstileTable]

/-- Such a change has only to keep the record of inheritances. -/
lemma SameQueues.conserved (h : SameQueues s s') (hs : Conserved upi s) (hinh : ∀ x, ¬ Active s x → (s'.ts x).tsInheritor = none)
    (hprio : ∀ x t, x ∈ (s'.thread t).tPrioinv ↔ (s'.ts x).tsInheritor = some t) (hnodup : ∀ t, (s'.thread t).tPrioinv.Nodup) :
    Conserved upi s' where
  place := (hs.same_table h.turnstileTable h.tsSobj).1
  chain := (hs.same_table h.turnstileTable h.tsSobj).2.1
  one := (hs.same_table h.turnstileTable h.tsSobj).2.2
  counted x := by rw [h.tsWaiters, hs.counted, (h.tsSleepq x _).length_eq, (h.tsSleepq x _).length_eq]
  freed x hx := by
    rw [h.tsFree, h.tsWaiters]
    exact hs.freed x (h.active.1 hx)
  inactive x hx := by
    have hx' : ¬ Active s x := fun ha => hx (h.active.2 ha)
    rw [h.tsFree]
    exact ⟨(hs.inactive x hx').1, hinh x hx'⟩
  freeNodup x := by
    rw [h.tsFree]
    exact hs.freeNodup x
  freeInactive x y hy ha := by
    rw [h.tsFree] at hy
    exact hs.freeInactive x y hy (h.active.1 ha)
  freeOnce x x' y hy hy' := by
    rw [h.tsFree] at hy hy'
    exact hs.freeOnce x x' y hy hy'
  queueNodup x q := (h.tsSleepq x q).nodup_iff.2 (hs.queueNodup x q)
  queued x q t := by rw [(h.tsSleepq x q).mem_iff, h.tSleepq, hs.queued]
  asleep t x q ht := by
    rw [h.tSleepq] at ht
    rw [h.active, h.tTs, h.tWchan, h.tsSobj]
    exact hs.asleep t x q ht
  awake t ht := by
    rw [h.tSleepq] at ht
    simp only [h.active, h.tTs, h.tWchan, h.tsFree]
    exact hs.awake t ht
  own t u ht hu heq := by
    rw [h.tSleepq] at ht hu
    rw [h.tTs, h.tTs] at heq
    exact hs.own t u ht hu heq
  prioinv := hprio
  prioinvNodup := hnodup

/-- A change of one inheritor, its priority and the lists of inheritances. -/
lemma SameQueues.of_inherit {i : Option Tid} {e : Nat} (htab : s'.turnstileTable = s.turnstileTable)
    (hts : ∀ y, s'.ts y = if y = x then { s.ts x with tsInheritor := i, tsEpri := e } else s.ts y)
    (hth : ∀ u, ∃ l, s'.thread u = { s.thread u with tPrioinv := l }) : SameQueues s s' := by
  choose l hth using hth
  refine ⟨htab, field_of_ts TsData.tsFree hts rfl, field_of_ts TsData.tsSobj hts rfl, field_of_ts TsData.tsWaiters hts rfl,
    fun y q => ?_, fun u => by rw [hth], fun u => by rw [hth], fun u => by rw [hth]⟩
  rw [field_of_ts TsData.tsSleepq hts rfl]

/-- Only priorities and the order of the sleep queues differ. -/
structure SameShape (s s' : TsState) : Prop where
  turnstileTable : s'.turnstileTable = s.turnstileTable
  owner : s'.owner = s.owner
  tsFree : ∀ x, (s'.ts x).tsFree = (s.ts x).tsFree
  tsSobj : ∀ x, (s'.ts x).tsSobj = (s.ts x).tsSobj
  tsWaiters : ∀ x, (s'.ts x).tsWaiters = (s.ts x).tsWaiters
  tsInheritor : ∀ x, (s'.ts x).tsInheritor = (s.ts x).tsInheritor
  tsSleepq : ∀ x q, ((s'.ts x).tsSleepq q).Perm ((s.ts x).tsSleepq q)
  tTs : ∀ t, (s'.thread t).tTs = (s.thread t).tTs
  tWchan : ∀ t, (s'.thread t).tWchan = (s.thread t).tWchan
  tSleepq : ∀ t, (s'.thread t).tSleepq = (s.thread t).tSleepq
  tPrioinv : ∀ t, (s'.thread t).tPrioinv = (s.thread t).tPrioinv
  tWriter : ∀ t, (s'.thread t).tWriter = (s.thread t).tWriter

lemma SameShape.refl (s : TsState) : SameShape s s := by
  constructor <;> intros <;> rfl

lemma SameShape.active (h : SameShape s s') : Active s' x ↔ Active s x := by
  rw [Active, Active, h.turnstileTable]

lemma SameShape.sameQueues (h : SameShape s s') : SameQueues s s' :=
  { h with }

lemma SameShape.conserved (h : SameShape s s') (hs : Conserved upi s) : Conserved upi s' := by
  obtain ⟨hprio, hnodup⟩ := hs.same_inheritors h.tsInheritor h.tPrioinv
  refine h.sameQueues.conserved hs (fun x hx => ?_) hprio hnodup
  rw [h.tsInheritor]
  exact (hs.inactive x hx).2

/-- The sleep queues are in the order of `CMP_PRIO`. -/
def Sorted (s : TsState) : Prop :=
  ∀ x q, ((s.ts x).tsSleepq q).Pairwise fun t u => cmpPrio (s.thread u) ≤ cmpPrio (s.thread t)

lemma sleepqInsert_pairwise (h : l.Pairwise fun t u => pri u ≤ pri t) :
    (sleepqInsert pri t l).Pairwise fun t u => pri u ≤ pri t := by
  induction l with
  | nil => exact pairwise_singleton _ _
  | cons next l ih =>
    obtain ⟨hnext, hl⟩ := pairwise_cons.1 h
    simp only [sleepqInsert]
    split
    next hlt =>
      refine pairwise_cons.2 ⟨fun v hv => ?_, h⟩
      rcases mem_cons.1 hv with rfl | hv
      · omega
      · have := hnext v hv
        omega
    next hle =>
      refine pairwise_cons.2 ⟨fun v hv => ?_, ih hl⟩
      rcases mem_cons.1 ((sleepqInsert_perm pri t l).mem_iff.1 hv) with rfl | hv
      · omega
      · exact hnext v hv

/-- The effective priority of one thread has changed. -/
structure EpriChanged (s s' : TsState) (t : Tid) (p : Nat) : Prop where
  shape : SameShape s s'
  tEpri : ∀ u, (s'.thread u).tEpri = if u = t then p else (s.thread u).tEpri
  tPri : ∀ u, (s'.thread u).tPri = (s.thread u).tPri
  tsEpri : ∀ x, (s'.ts x).tsEpri = (s.ts x).tsEpri
  sorted : Sorted s → Sorted s'
  awake : (s.thread t).tSleepq = none → ∀ x q, (s'.ts x).tsSleepq q = (s.ts x).tsSleepq q

lemma EpriChanged.refl (s : TsState) (t : Tid) : EpriChanged s s t (s.thread t).tEpri :=
  ⟨.refl s, fun u => by grind, fun _ => rfl, fun _ => rfl, id, fun _ _ _ => rfl⟩

/-- A sleeping thread goes to its new place in the queue. -/
lemma requeue_eq (hq : (s.thread t).tSleepq = some (x, q)) (hp : (s.thread t).tEpri ≠ p) :
    ∃ s', threadChangeEpri s t p = .ok s' ∧ (∀ y, s'.ts y = if y = x then { s.ts x with
        tsSleepq := update (s.ts x).tsSleepq q
          (sleepqInsert (fun u => cmpPrio (s'.thread u)) t (((s.ts x).tsSleepq q).erase t)) } else s.ts y) ∧
      (∀ u, s'.thread u = if u = t then { s.thread t with tEpri := p } else s.thread u) ∧
      s'.turnstileTable = s.turnstileTable ∧ s'.owner = s.owner := by
  rw [threadChangeEpri, if_neg hp]
  simp only [TsState.sleepqDequeue, hq, ok_bind, TsState.sleepqInsert, TsState.setSleepq]
  rw [ASSERT_bind (by simp)]
  refine ⟨_, rfl, fun y => ?_, fun u => ?_, rfl, rfl⟩
  · by_cases hy : y = x
    · simp only [hy, setThread_ts, setTs_ts, setThread_thread, setTs_thread, if_true, update_self, update_idem]
      congr 3
      funext u
      by_cases hu : u = t
      · simp [hu, cmpPrio, dispPrio]
      · simp [hu]
    · simp [hy]
  · by_cases hu : u = t
    · simp [hu]
    · simp [hu]

/-- `thread_change_epri` returns, and changes the priority of its thread alone. -/
lemma threadChangeEpri_spec (hs : Queued s) : ∃ s', threadChangeEpri s t p = .ok s' ∧ EpriChanged s s' t p := by
  by_cases heq : (s.thread t).tEpri = p
  · rw [threadChangeEpri, if_pos heq]
    exact ⟨s, rfl, heq ▸ .refl s t⟩
  cases hq : (s.thread t).tSleepq with
  | none =>
    rw [threadChangeEpri, if_neg heq, hq]
    refine ⟨_, rfl, ?_, fun u => by grind, fun u => by grind, fun _ => rfl, fun hsort x q => ?_, fun _ _ _ => rfl⟩
    · constructor <;> intros <;> first | rfl | grind
    · -- a thread that is awake is on no queue
      refine (hsort x q).imp_of_mem fun {v w} hv hw hle => ?_
      have hv := (hs.queued x q v).1 hv
      have hw := (hs.queued x q w).1 hw
      grind
  | some xq =>
    obtain ⟨x, q⟩ := xq
    have hmem : t ∈ (s.ts x).tsSleepq q := (hs.queued x q t).2 hq
    obtain ⟨s', hrun, hts, hth, htab, hown⟩ := requeue_eq hq heq
    have hqueue := sleepq_of_ts hts rfl
    refine ⟨s', hrun, ?_, fun u => by grind, fun u => by grind, fun y => by grind, fun hsort y q' => ?_, fun h0 => by simp [hq] at h0⟩
    · constructor <;> intros <;> try first | assumption | grind -ring -linarith
      next y q' =>
        rw [hqueue]
        split
        next hy =>
          obtain ⟨rfl, rfl⟩ := hy
          exact (sleepqInsert_perm _ _ _).trans (perm_cons_erase hmem).symm
        next => exact .refl _
    · have hother : ∀ v ∈ ((s.ts y).tsSleepq q').erase t, cmpPrio (s'.thread v) = cmpPrio (s.thread v) := by
        intro v hv
        have : v ≠ t := fun h => (hs.queueNodup y q').not_mem_erase (h ▸ hv)
        rw [hth, if_neg this]
      have hrest := ((hsort y q').sublist erase_sublist).imp_of_mem (S := fun v w => cmpPrio (s'.thread w) ≤ cmpPrio (s'.thread v))
        fun {v w} hv hw hle => by rw [hother v hv, hother w hw]; exact hle
      rw [hqueue]
      split
      next hy =>
        obtain ⟨rfl, rfl⟩ := hy
        exact sleepqInsert_pairwise hrest
      next hy =>
        have hne : t ∉ (s.ts y).tsSleepq q' := fun hm => by
          have := (hs.queued y q' t).1 hm
          grind
        rwa [erase_of_not_mem hne] at hrest

/-! ## The record of inheritances -/

/-- `o` is the inheritor of `x`, with `p` or a higher priority. -/
structure Recorded (s s' : TsState) (x : Tsid) (o : Tid) (p : Nat) : Prop where
  turnstileTable : s'.turnstileTable = s.turnstileTable
  owner : s'.owner = s.owner
  ts : ∀ y, s'.ts y = if y = x then { s.ts x with
    tsInheritor := some o
    tsEpri := if (s.ts x).tsInheritor = none then p else max (s.ts x).tsEpri p } else s.ts y
  thread : ∀ u, s'.thread u = if u = o ∧ (s.ts x).tsInheritor = none then
    { s.thread o with tPrioinv := x :: (s.thread o).tPrioinv } else s.thread u

lemma Recorded.sameQueues (h : Recorded s s' x o p) : SameQueues s s' := by
  refine .of_inherit h.turnstileTable h.ts fun u => ?_
  rw [h.thread u]
  split
  next heq =>
    rw [← heq.1]
    exact ⟨_, rfl⟩
  next => exact ⟨_, rfl⟩

lemma Recorded.conserved (h : Recorded s s' x o p) (hs : Conserved upi s) (hx : Active s x)
    (ho : ∀ i, (s.ts x).tsInheritor = some i → i = o) : Conserved upi s' := by
  refine h.sameQueues.conserved hs (fun y hy => ?_) (fun y u => ?_) fun u => ?_
  · rw [h.ts y, if_neg fun heq : y = x => hy (heq ▸ hx)]
    exact (hs.inactive y hy).2
  · have := hs.prioinv y u
    have hts := h.ts y
    have hth := h.thread u
    cases hi : (s.ts x).tsInheritor <;> grind
  · have := hs.prioinvNodup u
    have := hs.prioinv x u
    have hth := h.thread u
    grind

/-- The inheritor is set, or its record is raised to the priority of the waiter. -/
lemma recordInheritor_spec (ho : ∀ i, (s.ts x).tsInheritor = some i → i = o) :
    ∃ s', recordInheritor s x o p = .ok s' ∧ Recorded s s' x o p := by
  unfold recordInheritor
  cases hi : (s.ts x).tsInheritor with
  | none =>
    refine ⟨_, rfl, rfl, rfl, fun y => ?_, fun u => ?_⟩
    · by_cases hy : y = x <;> simp [hy, hi]
    · by_cases hu : u = o <;> simp [hu, hi]
  | some i =>
    obtain rfl := ho i hi
    dsimp only
    rw [ASSERT_bind rfl]
    by_cases hlt : (s.ts x).tsEpri < p
    · rw [if_pos hlt]
      refine ⟨_, rfl, rfl, rfl, fun y => ?_, fun u => by simp [hi]⟩
      by_cases hy : y = x <;> simp [hy, hi, max_eq_right hlt.le]
    · rw [if_neg hlt]
      refine ⟨s, rfl, rfl, rfl, fun y => ?_, fun u => by simp [hi]⟩
      by_cases hy : y = x
      · have hne : (s.ts x).tsInheritor ≠ none := by simp [hi]
        rw [hy, if_pos rfl, if_neg hne, max_eq_left (not_lt.1 hlt), ← hi]
      · simp [hy]

/-- `turnstile_pi_inherit` does nothing, or records the inheritor and raises it. -/
inductive Inherited (s s' : TsState) (x : Tsid) (o : Tid) (p : Nat) : Prop
  | skip (hp : p ≤ (s.thread o).tPri) (h : s' = s)
  | raise (hp : (s.thread o).tPri < p) (s₁ : TsState) (hrec : Recorded s s₁ x o p)
      (h : EpriChanged s₁ s' o (max (s.thread o).tEpri p))

/-- `turnstile_pi_inherit` returns and keeps the invariant. -/
lemma turnstilePiInherit_spec (hs : Conserved upi s) (hx : Active s x) (ho : ∀ i, (s.ts x).tsInheritor = some i → i = o) :
    ∃ s', turnstilePiInherit s x o p = .ok s' ∧ Inherited s s' x o p ∧ Conserved upi s' := by
  unfold turnstilePiInherit
  split
  next hp => exact ⟨s, rfl, .skip hp rfl, hs⟩
  next hp =>
    obtain ⟨s1, hrun, hrec⟩ := recordInheritor_spec (p := p) ho
    have hs1 := hrec.conserved hs hx ho
    have hpri : (s1.thread o).tEpri = (s.thread o).tEpri ∧ (s1.thread o).tPri = (s.thread o).tPri := by
      grind [hrec.thread o]
    rw [hrun, ok_bind]
    split
    next hgt =>
      obtain ⟨s', hrun', hch⟩ := threadChangeEpri_spec (t := o) (p := p) hs1.toQueued
      have hmax : max (s.thread o).tEpri p = p := by
        unfold dispPrio at hgt
        grind
      exact ⟨s', hrun', .raise (by omega) s1 hrec (by rw [hmax]; exact hch), hch.shape.conserved hs1⟩
    next hle =>
      have hmax : max (s.thread o).tEpri p = (s1.thread o).tEpri := by
        unfold dispPrio at hle
        grind
      exact ⟨s1, rfl, .raise (by omega) s1 hrec (by rw [hmax]; exact .refl s1 o), hs1⟩

/-- What is left of an inheritance after `turnstile_pi_tsdelete`. -/
lemma dropInheritor_eq (s : TsState) (x : Tsid) : (dropInheritor s x).turnstileTable = s.turnstileTable ∧
    (dropInheritor s x).owner = s.owner ∧
    (∀ y, (dropInheritor s x).ts y = if y = x then { s.ts x with tsInheritor := none } else s.ts y) ∧
    ∀ u, (dropInheritor s x).thread u = if (s.ts x).tsInheritor = some u then
      { s.thread u with tPrioinv := (s.thread u).tPrioinv.filter (some · ≠ some x) } else s.thread u := by
  unfold dropInheritor turnstilePiTsdelete
  cases hi : (s.ts x).tsInheritor with
  | none =>
    refine ⟨rfl, rfl, fun y => ?_, fun u => by simp⟩
    by_cases hy : y = x <;> simp [hy, ← hi]
  | some i =>
    refine ⟨rfl, rfl, fun y => ?_, fun u => ?_⟩
    · by_cases hy : y = x <;> simp [hy]
    · by_cases hu : i = u
      · simp [hu]
      · simp [hu, Ne.symm hu]

lemma dropInheritor_sameQueues (s : TsState) (x : Tsid) : SameQueues s (dropInheritor s x) := by
  obtain ⟨htab, -, hts, hth⟩ := dropInheritor_eq s x
  refine .of_inherit htab hts fun u => ?_
  rw [hth u]
  split <;> exact ⟨_, rfl⟩

lemma dropInheritor_conserved (hs : Conserved upi s) : Conserved upi (dropInheritor s x) := by
  obtain ⟨-, -, hts, hth⟩ := dropInheritor_eq s x
  refine (dropInheritor_sameQueues s x).conserved hs (fun y hy => ?_) (fun y u => ?_) fun u => ?_
  · rw [hts y]
    split
    next => rfl
    next => exact (hs.inactive y hy).2
  · have := hs.prioinv y u
    rw [hts y, hth u]
    grind
  · rw [hth u]
    split
    next => exact (hs.prioinvNodup u).filter _
    next => exact hs.prioinvNodup u

/-- The current thread waives what it inherits from a turnstile. -/
inductive Waived (s s' : TsState) (x : Tsid) (c : Tid) : Prop
  | skip (hi : (s.ts x).tsInheritor = none) (h : s' = s)
  | waive (hi : (s.ts x).tsInheritor = some c) (e : Nat)
      (he : e = (((s.thread c).tPrioinv.filter (some · ≠ some x)).map fun y => (s.ts y).tsEpri).foldl max 0)
      (h : EpriChanged (dropInheritor s x) s' c (if e = dispPrio (s.thread c) then (s.thread c).tEpri else e))

variable {c : Tid}

lemma piRecompute_spec {z : Option Tsid} (hs : Queued s) :
    ∃ s', piRecompute s z c = .ok s' ∧ ∀ e, e = (turnstilePiTsdelete s z c).1 →
      EpriChanged (turnstilePiTsdelete s z c).2 s' c (if e = dispPrio (s.thread c) then (s.thread c).tEpri else e) := by
  have hdel : ∀ u, ((turnstilePiTsdelete s z c).2.thread u).tEpri = (s.thread u).tEpri ∧
      ((turnstilePiTsdelete s z c).2.thread u).tPri = (s.thread u).tPri ∧
      ((turnstilePiTsdelete s z c).2.thread u).tSleepq = (s.thread u).tSleepq := by
    intro u
    by_cases hu : u = c <;> simp [turnstilePiTsdelete, hu]
  have hdisp : dispPrio ((turnstilePiTsdelete s z c).2.thread c) = dispPrio (s.thread c) := by
    rw [dispPrio, dispPrio, (hdel c).1, (hdel c).2.1]
  have hq : Queued (turnstilePiTsdelete s z c).2 :=
    ⟨hs.queueNodup, fun y q u => by rw [(hdel u).2.2]; exact hs.queued y q u⟩
  unfold piRecompute
  dsimp only
  rw [hdisp]
  split
  next hne =>
    obtain ⟨s', hrun, hch⟩ := threadChangeEpri_spec (t := c) (p := (turnstilePiTsdelete s z c).1) hq
    refine ⟨s', hrun, fun e he => ?_⟩
    rw [he, if_neg hne]
    exact hch
  next heq =>
    refine ⟨_, rfl, fun e he => ?_⟩
    rw [he, if_pos (not_not.1 heq), ← (hdel c).1]
    exact .refl _ c

/-- A change of a priority does not depend on the inheritors. -/
lemma EpriChanged.setInheritor {i : Option Tid} (h : EpriChanged s s' t p) :
    EpriChanged (s.setTs x { s.ts x with tsInheritor := i }) (s'.setTs x { s'.ts x with tsInheritor := i }) t p := by
  obtain ⟨⟨h1, h2, h3, h4, h5, h6, h7, h8, h9, h10, h11, h12⟩, he, hp, hte, hso, haw⟩ := h
  have hq (s : TsState) (y : Tsid) : ((s.setTs x { s.ts x with tsInheritor := i }).ts y).tsSleepq = (s.ts y).tsSleepq := by
    by_cases hy : y = x <;> simp [hy]
  refine ⟨⟨h1, h2, fun y => ?_, fun y => ?_, fun y => ?_, fun y => ?_, fun y q => ?_, h8, h9, h10, h11, h12⟩, he, hp, fun y => ?_, fun hsort y q => ?_, fun h0 y q => ?_⟩
  · have := h3 y
    grind
  · have := h4 y
    grind
  · have := h5 y
    grind
  · have := h6 y
    grind
  · rw [hq, hq]
    exact h7 y q
  · have := hte y
    grind
  · rw [hq]
    exact hso (fun z r => hq s z ▸ hsort z r) y q
  · rw [hq, hq]
    exact haw h0 y q

/-- The waiver of `turnstile_pi_waive` returns and keeps the invariant. -/
lemma waiveInherited_spec (hs : Conserved upi s) (hc : ∀ i, (s.ts x).tsInheritor = some i → i = c) :
    ∃ s', waiveInherited s x c = .ok s' ∧ Waived s s' x c ∧ Conserved upi s' := by
  unfold waiveInherited
  cases hi : (s.ts x).tsInheritor with
  | none => exact ⟨s, rfl, .skip hi rfl, hs⟩
  | some i =>
    obtain rfl := hc i hi
    obtain ⟨s1, hrun, hch⟩ := piRecompute_spec (c := i) (z := some x) hs.toQueued
    have hch' := (hch _ rfl).setInheritor (x := x) (i := none)
    have hdrop : dropInheritor s x = (turnstilePiTsdelete s (some x) i).2.setTs x
        { (turnstilePiTsdelete s (some x) i).2.ts x with tsInheritor := none } := by
      rw [dropInheritor, hi]
    rw [← hdrop] at hch'
    refine ⟨_, ?_, .waive hi _ rfl hch', hch'.shape.conserved (dropInheritor_conserved hs)⟩
    dsimp only
    rw [turnstilePiWaive, ASSERT_bind rfl, hrun, ok_bind]

/-! ## Leaving a turnstile -/

/-- `t` has left the queue `q` of `x`. The last thread takes `x` off its chain. -/
structure Dequeued (s s' : TsState) (t : Tid) (x : Tsid) (q : TsQueue) : Prop where
  owner : s'.owner = s.owner
  active : ∀ y, Active s' y ↔ Active s y ∧ (y = x → 1 < (s.ts x).tsWaiters)
  tsSobj : ∀ y, (s'.ts y).tsSobj = (s.ts y).tsSobj
  tsEpri : ∀ y, (s'.ts y).tsEpri = (s.ts y).tsEpri
  tsWaiters : ∀ y, (s'.ts y).tsWaiters = if y = x then (s.ts x).tsWaiters - 1 else (s.ts y).tsWaiters
  tsSleepq : ∀ y r, (s'.ts y).tsSleepq r = if y = x ∧ r = q then ((s.ts x).tsSleepq q).erase t else (s.ts y).tsSleepq r
  tsInheritor : ∀ y, (s'.ts y).tsInheritor = if y = x ∧ (s.ts x).tsWaiters = 1 then none else (s.ts y).tsInheritor
  tSleepq : ∀ u, (s'.thread u).tSleepq = if u = t then none else (s.thread u).tSleepq
  tTs : ∀ u, u ≠ t → (s'.thread u).tTs = (s.thread u).tTs
  tWchan : ∀ u, (s'.thread u).tWchan = if u = t then none else (s.thread u).tWchan
  tPri : ∀ u, (s'.thread u).tPri = (s.thread u).tPri
  tEpri : ∀ u, (s'.thread u).tEpri = (s.thread u).tEpri
  tWriter : ∀ u, (s'.thread u).tWriter = (s.thread u).tWriter

lemma Dequeued.counted (h : Dequeued s s' t x q) (hs : Conserved upi s) (hq : (s.thread t).tSleepq = some (x, q)) (z : Tsid) :
    (s'.ts z).tsWaiters = ((s'.ts z).tsSleepq .TS_WRITER_Q).length + ((s'.ts z).tsSleepq .TS_READER_Q).length := by
  have hmem := (hs.queued x q t).2 hq
  have hlen := length_erase_of_mem hmem
  have hpos := length_pos_of_mem hmem
  have hcount := hs.counted z
  rw [h.tsWaiters, h.tsSleepq, h.tsSleepq]
  by_cases hz : z = x
  · subst hz
    cases q with
    | TS_WRITER_Q =>
      simp only [if_true, and_self, reduceCtorEq, and_false, if_false, hlen]
      omega
    | TS_READER_Q =>
      simp only [if_true, and_self, reduceCtorEq, and_false, if_false, hlen]
      omega
  · simp only [hz, false_and, if_false]
    exact hcount

/-- The threads that still sleep do so as before. -/
lemma Dequeued.asleep (h : Dequeued s s' t x q) (hs : Conserved upi s) (hq : (s.thread t).tSleepq = some (x, q)) (u : Tid)
    (z : Tsid) (r : TsQueue) (hu : (s'.thread u).tSleepq = some (z, r)) :
    Active s' z ∧ (s'.thread u).tTs = z ∧ (s'.thread u).tWchan = some (s'.ts z).tsSobj := by
  rw [h.tSleepq] at hu
  split_ifs at hu with hut
  obtain ⟨hact, htTs, hwchan⟩ := hs.asleep u z r hu
  refine ⟨(h.active z).2 ⟨hact, fun hz => ?_⟩, (h.tTs u hut).trans htTs, ?_⟩
  · subst hz
    have hmore : (s.ts z).tsWaiters ≠ 1 := fun hw =>
      hut (hs.last_waiter hw ((hs.queued z r u).2 hu) ((hs.queued z q t).2 hq))
    have hfreed := hs.freed z hact
    omega
  · rw [h.tWchan, if_neg hut, h.tsSobj]
    exact hwchan

variable {rest : List Tsid}

section
variable (hs : Conserved upi s) (hq : (s.thread t).tSleepq = some (x, q))
include hs hq

lemma turnstileDequeue_more {y : Tsid} (hf : (s.ts x).tsFree = y :: rest) :
    ∃ s', turnstileDequeue upi s t = .ok s' ∧ s'.turnstileTable = s.turnstileTable ∧ s'.owner = s.owner ∧
      (∀ z, s'.ts z = if z = x then { s.ts x with
        tsFree := rest, tsWaiters := (s.ts x).tsWaiters - 1
        tsSleepq := update (s.ts x).tsSleepq q (((s.ts x).tsSleepq q).erase t) } else s.ts z) ∧
      ∀ u, s'.thread u = if u = t then { s.thread t with tTs := y, tSleepq := none, tWchan := none } else s.thread u := by
  obtain ⟨hx, hts, -⟩ := hs.asleep t x q hq
  have hw : (s.ts x).tsWaiters > 1 := by
    have := hs.freed x hx
    grind
  have hidle : (s.ts y).tsWaiters = 0 := (hs.idle (hs.freeInactive x y (by simp [hf]))).1
  simp only [turnstileDequeue, dequeueTurnstile, hts, hf, ASSERT_bind hw, ASSERT_bind hidle, ok_bind, TsState.sleepqDequeue,
    setTs_thread, setThread_thread, if_true, hq, TsState.setSleepq]
  refine ⟨_, rfl, rfl, rfl, fun z => ?_, fun u => ?_⟩
  · by_cases hz : z = x <;> simp [hz]
  · by_cases hu : u = t <;> simp [hu]

lemma turnstileDequeue_last (hf : (s.ts x).tsFree = []) : ∃ s', turnstileDequeue upi s t = .ok s' ∧ s'.owner = s.owner ∧
      (∀ b, s'.turnstileTable b = (s.turnstileTable b).erase x) ∧
      (∀ z, s'.ts z = if z = x then { s.ts x with
        tsInheritor := none, tsWaiters := (s.ts x).tsWaiters - 1
        tsSleepq := update (s.ts x).tsSleepq q (((s.ts x).tsSleepq q).erase t) } else s.ts z) ∧
      ∀ u, s'.thread u = if u = t then { (dropInheritor s x).thread t with tSleepq := none, tWchan := none }
        else (dropInheritor s x).thread u := by
  obtain ⟨hx, hts, -⟩ := hs.asleep t x q hq
  have hw : (s.ts x).tsWaiters = 1 := by
    have := hs.freed x hx
    grind
  obtain ⟨htab, hown, hdts, hdth⟩ := dropInheritor_eq s x
  have hkeep : ((dropInheritor s x).thread t).tSleepq = some (x, q) ∧ ((dropInheritor s x).thread t).tTs = x := by
    rw [hdth]
    split <;> exact ⟨hq, hts⟩
  have hmem : x ∈ (dropInheritor s x).turnstileTable (turnstileSobjBucket upi ((dropInheritor s x).ts x).tsSobj) :=
    (dropInheritor_conserved hs).mem_table (by rwa [Active, htab])
  have hsobj : ((dropInheritor s x).ts x).tsSobj = (s.ts x).tsSobj := by rw [hdts, if_pos rfl]
  simp only [turnstileDequeue, dequeueTurnstile, hts, hf, ASSERT_bind hw, unlinkTurnstile, if_pos hmem, ok_bind,
    ASSERT_bind hkeep.2, TsState.sleepqDequeue, setTs_thread, hkeep.1, TsState.setSleepq]
  refine ⟨_, rfl, hown, fun b => ?_, fun z => ?_, fun u => ?_⟩
  · by_cases hb : b = turnstileSobjBucket upi (s.ts x).tsSobj
    · simp [hb, hsobj, htab]
    · have : x ∉ s.turnstileTable b := fun hxb => hb (hs.place b x hxb).symm
      simp [hsobj, htab, hb, erase_of_not_mem this]
  · by_cases hz : z = x
    · simp [hz, hdts, hf]
    · simp [hz, hdts]
  · by_cases hu : u = t <;> simp [hu]

lemma turnstileDequeue_more_spec {y : Tsid} (hf : (s.ts x).tsFree = y :: rest) :
    ∃ s', turnstileDequeue upi s t = .ok s' ∧ Dequeued s s' t x q ∧ Conserved upi s' := by
  obtain ⟨hx, htTs, hwchan⟩ := hs.asleep t x q hq
  have hfreed := hs.freed x hx
  obtain ⟨s', hrun, htab, hown, hts, hth⟩ := turnstileDequeue_more hs hq hf
  have hqueue := sleepq_of_ts hts rfl
  have hact : ∀ z, Active s' z ↔ Active s z := fun z => by rw [Active, Active, htab]
  have hy := hs.freeInactive x y (by simp [hf])
  have hfnd := hs.freeNodup x
  obtain ⟨hplace, hchain, hone⟩ := hs.same_table htab (field_of_ts TsData.tsSobj hts rfl)
  obtain ⟨hprio, hprionodup⟩ := hs.same_inheritors (field_of_ts TsData.tsInheritor hts rfl) (field_of_thread Kthread.tPrioinv hth rfl)
  have hdequeued : Dequeued s s' t x q := by
    constructor <;> intros <;> first | assumption | grind -ring -linarith
  refine ⟨s', hrun, hdequeued, ?_⟩
  exact { hs.toQueued.erase hq hdequeued.tsSleepq hdequeued.tSleepq with
    place := hplace
    chain := hchain
    one := hone
    counted := hdequeued.counted hs hq
    freed := fun z => by have := hs.freed z; grind
    inactive := fun z => by have := hs.inactive z; grind
    freeNodup := fun z => by have := hs.freeNodup z; grind
    freeInactive := fun z w => by have := hs.freeInactive z w; grind
    freeOnce := fun z z' w => by have := hs.freeOnce z z' w; grind
    asleep := hdequeued.asleep hs hq
    awake := fun u => by have := hs.awake u; have := hs.freeOnce x; grind
    own := fun u v => by have := hs.own u v; have := hs.awake u; have := hs.awake v; grind
    prioinv := hprio
    prioinvNodup := hprionodup }

lemma turnstileDequeue_last_spec (hf : (s.ts x).tsFree = []) :
    ∃ s', turnstileDequeue upi s t = .ok s' ∧ Dequeued s s' t x q ∧ Conserved upi s' := by
  obtain ⟨hx, htTs, hwchan⟩ := hs.asleep t x q hq
  have hmem := (hs.queued x q t).2 hq
  have hfreed := hs.freed x hx
  obtain ⟨s', hrun, hown, htab, hts, hth⟩ := turnstileDequeue_last hs hq hf
  have hqueue := sleepq_of_ts hts rfl
  obtain ⟨-, -, hdts, hdth⟩ := dropInheritor_eq s x
  have halone : ∀ u r, (s.thread u).tSleepq = some (x, r) → u = t := fun u r hu =>
    hs.last_waiter (by rw [← hfreed, hf]; rfl) ((hs.queued x r u).2 hu) hmem
  have hdrop := dropInheritor_conserved (x := x) hs
  have hact : ∀ z, Active s' z ↔ Active s z ∧ z ≠ x := by
    intro z
    simp only [Active, htab]
    constructor
    · rintro ⟨b, hb⟩
      have := (hs.chain b).mem_erase_iff.1 hb
      exact ⟨⟨b, this.2⟩, this.1⟩
    · rintro ⟨⟨b, hb⟩, hne⟩
      exact ⟨b, (hs.chain b).mem_erase_iff.2 ⟨hne, hb⟩⟩
  have hdequeued : Dequeued s s' t x q := by
    constructor <;> intros <;> first | assumption | grind -ring -linarith
  refine ⟨s', hrun, hdequeued, ?_⟩
  exact { hs.toQueued.erase hq hdequeued.tsSleepq hdequeued.tSleepq with
    place := fun b z => by have := hs.place b z; grind
    chain := fun b => by have := hs.chain b; grind
    one := fun z w => by have := hs.one z w; grind
    counted := hdequeued.counted hs hq
    freed := fun z => by have := hs.freed z; grind
    inactive := fun z => by have := hs.inactive z; grind
    freeNodup := fun z => by have := hs.freeNodup z; grind
    freeInactive := fun z w => by have := hs.freeInactive z w; grind
    freeOnce := fun z z' w => by have := hs.freeOnce z z' w; grind
    asleep := hdequeued.asleep hs hq
    awake := fun u => by have := hs.awake u; have := hs.freeInactive; grind
    own := fun u v => by have := hs.own u v; have := hs.awake u; have := hs.awake v; grind
    prioinv := fun z u => by have := hdrop.prioinv z u; grind
    prioinvNodup := fun u => by have := hdrop.prioinvNodup u; grind }

/-- `turnstile_dequeue` returns, takes its thread off the queue and keeps the invariant. -/
lemma turnstileDequeue_spec : ∃ s', turnstileDequeue upi s t = .ok s' ∧ Dequeued s s' t x q ∧ Conserved upi s' := by
  cases hf : (s.ts x).tsFree with
  | cons y rest => exact turnstileDequeue_more_spec hs hq hf
  | nil => exact turnstileDequeue_last_spec hs hq hf

end

/-! ## Blocking -/

variable {L : Sobj}

lemma turnstileLookup_some (h : turnstileLookup upi s L = some x) : Active s x ∧ (s.ts x).tsSobj = L :=
  ⟨⟨_, mem_of_find?_eq_some h⟩, by simpa using List.find?_some h⟩

/-- The lookup of the object of a turnstile on the chains finds that turnstile. -/
lemma Conserved.lookup (hs : Conserved upi s) (hx : Active s x) : turnstileLookup upi s (s.ts x).tsSobj = some x := by
  cases h : turnstileLookup upi s (s.ts x).tsSobj with
  | none =>
    have := List.find?_eq_none.1 h x (hs.mem_table hx)
    simp at this
  | some y =>
    obtain ⟨hy, heq⟩ := turnstileLookup_some h
    rw [hs.one x y hx hy heq.symm]

/-- `t` sleeps on the queue `q` of `x`, for the object `L`. -/
structure Blocked (s s' : TsState) (t : Tid) (x : Tsid) (q : TsQueue) (L : Sobj) (pri : Nat) : Prop where
  owner : s'.owner = s.owner
  known : Active s x → (s.ts x).tsSobj = L
  active : ∀ y, Active s' y ↔ Active s y ∨ y = x
  tsSobj : ∀ y, (s'.ts y).tsSobj = if y = x then L else (s.ts y).tsSobj
  tsEpri : ∀ y, (s'.ts y).tsEpri = (s.ts y).tsEpri
  tsSleepq : ∀ y r, (s'.ts y).tsSleepq r = if y = x ∧ r = q then
    sleepqInsert (fun u => cmpPrio (s'.thread u)) t ((s.ts x).tsSleepq q) else (s.ts y).tsSleepq r
  tsInheritor : ∀ y, (s'.ts y).tsInheritor = (s.ts y).tsInheritor
  tSleepq : ∀ u, (s'.thread u).tSleepq = if u = t then some (x, q) else (s.thread u).tSleepq
  tTs : ∀ u, (s'.thread u).tTs = if u = t then x else (s.thread u).tTs
  tWchan : ∀ u, (s'.thread u).tWchan = if u = t then some L else (s.thread u).tWchan
  tPri : ∀ u, (s'.thread u).tPri = if u = t then pri else (s.thread u).tPri
  tEpri : ∀ u, (s'.thread u).tEpri = (s.thread u).tEpri
  tPrioinv : ∀ u, (s'.thread u).tPrioinv = (s.thread u).tPrioinv
  tWriter : ∀ u, (s'.thread u).tWriter = (s.thread u).tWriter

variable {p : Nat}

lemma Blocked.asleep (h : Blocked s s' t x q L p) (hs : Conserved upi s) (u : Tid) (z : Tsid) (r : TsQueue)
    (hu : (s'.thread u).tSleepq = some (z, r)) :
    Active s' z ∧ (s'.thread u).tTs = z ∧ (s'.thread u).tWchan = some (s'.ts z).tsSobj := by
  rw [h.tSleepq] at hu
  rw [h.active, h.tTs, h.tWchan, h.tsSobj]
  by_cases hut : u = t
  · rw [if_pos hut, Option.some.injEq, Prod.mk.injEq] at hu
    rw [if_pos hut, if_pos hut, if_pos hu.1.symm]
    exact ⟨.inr hu.1.symm, hu.1, rfl⟩
  · rw [if_neg hut] at hu
    obtain ⟨hact, htTs, hwchan⟩ := hs.asleep u z r hu
    rw [if_neg hut, if_neg hut]
    refine ⟨.inl hact, htTs, ?_⟩
    split_ifs with hz
    · subst hz
      rw [hwchan, h.known hact]
    · exact hwchan

/-- `t` goes to sleep on the queue `q` of `x`, for `L`; `free` is the free list of `x` then. -/
structure Slept (s s' : TsState) (t : Tid) (x : Tsid) (q : TsQueue) (L : Sobj) (pri : Nat) (free : List Tsid) : Prop where
  owner : s'.owner = s.owner
  ts : ∀ z, s'.ts z = if z = x then { s.ts x with
    tsSobj := L, tsFree := free, tsWaiters := (s.ts x).tsWaiters + 1
    tsSleepq := update (s.ts x).tsSleepq q (sleepqInsert (fun u => cmpPrio (s'.thread u)) t ((s.ts x).tsSleepq q)) } else s.ts z
  thread : ∀ u, s'.thread u = if u = t then { s.thread t with tTs := x, tPri := pri, tWchan := some L, tSleepq := some (x, q) }
    else s.thread u

/-- Its turnstile is now the object's, or goes to the free list of the one that the object has. -/
lemma Slept.spec {free : List Tsid} (h : Slept s s' t x q L p free) (hs : Conserved upi s) (ht : (s.thread t).tSleepq = none)
    (hfree : ¬ Active s x ∧ x = (s.thread t).tTs ∧ free = [] ∨
      Active s x ∧ (s.ts x).tsSobj = L ∧ free = (s.thread t).tTs :: (s.ts x).tsFree)
    (hact : ∀ z, Active s' z ↔ Active s z ∨ z = x)
    (htable : (∀ b z, z ∈ s'.turnstileTable b → turnstileSobjBucket upi (s'.ts z).tsSobj = b) ∧
      (∀ b, (s'.turnstileTable b).Nodup) ∧
      ∀ z w, Active s' z → Active s' w → (s'.ts z).tsSobj = (s'.ts w).tsSobj → z = w) :
    Blocked s s' t x q L p ∧ Conserved upi s' := by
  obtain ⟨hown, hts, hth⟩ := h
  obtain ⟨hplace, hchain, hone⟩ := htable
  obtain ⟨-, hinact, hnofree⟩ := hs.awake t ht
  have hqueue := sleepq_of_ts hts rfl
  have hidle := hs.idle (x := x)
  have hnone := hs.inactive x
  obtain ⟨hprio, hprionodup⟩ := hs.same_inheritors (field_of_ts TsData.tsInheritor hts rfl) (field_of_thread Kthread.tPrioinv hth rfl)
  have hblocked : Blocked s s' t x q L p := by
    constructor <;> intros <;> first | assumption | grind -ring -linarith
  refine ⟨hblocked, ?_⟩
  exact {
    hs.toQueued.insert ht hblocked.tsSleepq hblocked.tSleepq with
    place := hplace
    chain := hchain
    one := hone
    counted := fun z => by have := hs.counted z; cases q <;> grind
    freed := fun z => by have := hs.freed z; grind
    inactive := fun z => by have := hs.inactive z; grind
    freeNodup := fun z => by have := hs.freeNodup z; grind
    freeInactive := fun z w => by have := hs.freeInactive z w; grind
    freeOnce := fun z z' w => by have := hs.freeOnce z z' w; grind
    asleep := hblocked.asleep hs
    awake := fun u => by have := hs.awake u; have := hs.own u t; grind
    own := fun u v => by have := hs.own u v; grind
    prioinv := hprio
    prioinvNodup := hprionodup }

variable {m : Bool}

section
variable (hs : Conserved upi s) (ht : (s.thread t).tSleepq = none) (hm : m = true → s.owner L ≠ none)
include hs ht hm

/-- The first thread that blocks on an object brings its own turnstile to the chain. -/
lemma turnstileBlock_first (hL : turnstileLookup upi s L = none) (hx : (s.thread t).tTs = x) :
    ∃ s', turnstileBlock upi s t q L m p = .ok s' ∧ Slept s s' t x q L p (s.ts x).tsFree ∧
      s'.turnstileTable = update s.turnstileTable (turnstileSobjBucket upi L) (x :: s.turnstileTable (turnstileSobjBucket upi L)) := by
  obtain ⟨hwchan, hinact, -⟩ := hs.awake t ht
  have hw := (hs.idle hinact).1
  subst hx
  unfold turnstileBlock
  rw [hL]
  dsimp only [blockTurnstile]
  rw [ASSERT_bind (by simpa using hw), ok_bind]
  dsimp only
  rw [ASSERT_bind (by simpa using hwchan), TsState.sleepqInsert, ASSERT_bind (by simpa using ht), ok_bind, VERIFY_bind (by exact hm)]
  refine ⟨_, rfl, ⟨rfl, fun z => ?_, fun u => ?_⟩, rfl⟩
  · by_cases hz : z = (s.thread t).tTs
    · simp only [hz, TsState.setSleepq, setThread_ts, setTs_ts, setThread_thread, setTs_thread, if_true]
      congr 3
      funext u
      by_cases hu : u = t <;> simp [hu, cmpPrio, dispPrio]
    · simp [hz, TsState.setSleepq]
  · by_cases hu : u = t <;> simp [hu, TsState.setSleepq]

/-- A later thread puts its turnstile on the free list of the one that is there. -/
lemma turnstileBlock_more (hL : turnstileLookup upi s L = some x) :
    ∃ s', turnstileBlock upi s t q L m p = .ok s' ∧ Slept s s' t x q L p ((s.thread t).tTs :: (s.ts x).tsFree) ∧
      s'.turnstileTable = s.turnstileTable := by
  obtain ⟨hwchan, -, -⟩ := hs.awake t ht
  obtain ⟨hx, hsobj⟩ := turnstileLookup_some hL
  have hw : (s.ts x).tsWaiters > 0 := by
    have := hs.freed x hx
    omega
  unfold turnstileBlock
  rw [hL]
  dsimp only [blockTurnstile]
  rw [ASSERT_bind (by simpa using hsobj), ASSERT_bind (by simpa using hw), ok_bind]
  dsimp only
  rw [ASSERT_bind (by simpa using hwchan), TsState.sleepqInsert, ASSERT_bind (by simpa using ht), ok_bind, VERIFY_bind (by exact hm)]
  refine ⟨_, rfl, ⟨rfl, fun z => ?_, fun u => ?_⟩, rfl⟩
  · by_cases hz : z = x
    · simp only [hz, TsState.setSleepq, setThread_ts, setTs_ts, setThread_thread, setTs_thread, if_true, hsobj]
      congr 3
      funext u
      by_cases hu : u = t <;> simp [hu, cmpPrio, dispPrio]
    · simp [hz, TsState.setSleepq]
  · by_cases hu : u = t <;> simp [hu, TsState.setSleepq]

/-- `turnstile_block` puts the thread to sleep on the turnstile of the object and keeps the invariant. -/
lemma turnstileBlock_spec : ∃ s' x, turnstileBlock upi s t q L m p = .ok s' ∧ Blocked s s' t x q L p ∧ Conserved upi s' := by
  cases hL : turnstileLookup upi s L with
  | none =>
    obtain ⟨-, hinact, -⟩ := hs.awake t ht
    obtain ⟨s', hrun, hslept, htab⟩ := turnstileBlock_first (q := q) (p := p) hs ht hm hL rfl
    have hts := hslept.ts
    have hmemtab : ∀ b z, z ∈ s'.turnstileTable b ↔ z ∈ s.turnstileTable b ∨ b = turnstileSobjBucket upi L ∧ z = (s.thread t).tTs := by
      intro b z
      by_cases hb : b = turnstileSobjBucket upi L
      · simp [htab, hb, or_comm]
      · simp [htab, hb]
    have hact : ∀ z, Active s' z ↔ Active s z ∨ z = (s.thread t).tTs := by
      intro z
      simp only [Active, hmemtab, exists_or, exists_eq_left]
    have hother : ∀ z, Active s z → (s.ts z).tsSobj ≠ L := fun z hz heq => by
      simp [← heq, hs.lookup hz] at hL
    refine ⟨s', _, hrun, hslept.spec hs ht (.inl ⟨hinact, rfl, (hs.inactive _ hinact).1⟩) hact
      ⟨fun b z hz => ?_, fun b => ?_, fun z w => ?_⟩⟩
    · rcases (hmemtab b z).1 hz with hz | ⟨rfl, rfl⟩
      · have := hs.place b z hz
        have : Active s z := ⟨b, hz⟩
        grind
      · grind
    · have := hs.chain b
      rw [htab]
      by_cases hb : b = turnstileSobjBucket upi L
      · subst hb
        simpa using ⟨fun h => hinact ⟨_, h⟩, this⟩
      · simpa [hb] using this
    · have := hs.one z w
      grind
  | some x =>
    obtain ⟨hx, hsobj⟩ := turnstileLookup_some hL
    obtain ⟨s', hrun, hslept, htab⟩ := turnstileBlock_more (q := q) (p := p) hs ht hm hL
    refine ⟨s', x, hrun, hslept.spec hs ht (.inr ⟨hx, hsobj, rfl⟩) (fun z => ?_)
      (hs.same_table htab (field_of_ts TsData.tsSobj hslept.ts hsobj.symm))⟩
    rw [Active, Active, htab]
    exact ⟨.inl, fun h => h.elim id fun hz => hz ▸ hx⟩

end

end Unleashed.Kernel.Turnstile
