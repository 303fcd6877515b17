import Unleashed.Kernel.Turnstile.Wakeup

/-!
# Every interleaving conserves turnstiles

The steps are what happens under a chain lock. Between two of them, threads take and release locks. A downgraded
rwlock counts as owned until the writer has waived what it inherits.
-/

namespace Unleashed.Kernel.Turnstile

open Lib List Option TsState

/-- The steps of the system. -/
inductive TsEvent where
  /-- A thread becomes the owner of an object. -/
  | acquire (t : Tid) (sobj : Sobj)
  /-- The owner of an object without a turnstile releases it. -/
  | release (t : Tid) (sobj : Sobj)
  /-- `turnstile_lookup` and `turnstile_block`. -/
  | block (t : Tid) (q : TsQueue) (sobj : Sobj) (isMutex : Bool) (pri : Nat)
  /-- A priority walk is at `t`. -/
  | willPriority (t owner : Tid)
  /-- The owner of an object, or the last reader, wakes threads and makes `newOwner` its owner. -/
  | wakeup (curthread : Tid) (sobj : Sobj) (q : TsQueue) (nthreads : Nat) (newOwner : Option Tid) (pri : Tid → Nat)
  | unsleep (t : Tid) (pri : Nat)
  | piRecalc (t : Tid)

section
variable (upi : UpiTab)

/-- When a step may happen: enough threads sleep, and a new owner is one of them, the last if all go. -/
def Enabled (s : TsState) : TsEvent → Prop
  | .acquire _ L => s.owner L = none
  | .release t L => s.owner L = some t ∧ turnstileLookup upi s L = none
  | .block t _ L isMutex _ => (s.thread t).tSleepq = none ∧ (isMutex = true → s.owner L ≠ none)
  | .willPriority t o => ∃ L, (s.thread t).tWchan = some L ∧ s.owner L = some o
  | .wakeup c L q n newOwner _ => (s.thread c).tSleepq = none ∧ (s.owner L = some c ∨ s.owner L = none) ∧
      ∃ x, turnstileLookup upi s L = some x ∧ n ≤ ((s.ts x).tsSleepq q).length ∧
        ∀ t, newOwner = some t → t ∈ ((s.ts x).tsSleepq q).take n ∧
          (n < (s.ts x).tsWaiters ∨ (((s.ts x).tsSleepq q).take n).getLast? = some t)
  | .unsleep t _ => (s.thread t).tSleepq ≠ none
  | .piRecalc t => (s.thread t).tSleepq = none

def TsState.setOwner (s : TsState) (L : Sobj) (o : Option Tid) : TsState := { s with owner := Function.update s.owner L o }

/-- What a step does. -/
def stepRun (s : TsState) : TsEvent → Except Fault TsState
  | .acquire t L => .ok (s.setOwner L (some t))
  | .release _ L => .ok (s.setOwner L none)
  | .block t q L isMutex pri => turnstileBlock upi s t q L isMutex pri
  | .willPriority t o => willPriority s t o
  | .wakeup c L q n newOwner pri =>
    match turnstileLookup upi s L with
    | none => .error .bounds
    | some x => turnstileWakeup upi (s.setOwner L newOwner) c x q n newOwner pri
  | .unsleep t pri => turnstileUnsleep upi s t pri
  | .piRecalc t => turnstilePiRecalc s t

/-- No thread sleeps, each has a turnstile, and all turnstiles are idle. -/
structure Initial (s : TsState) : Prop where
  turnstileTable : ∀ b, s.turnstileTable b = []
  ts : ∀ x, (s.ts x).tsFree = [] ∧ (s.ts x).tsWaiters = 0 ∧ (s.ts x).tsInheritor = none ∧ ∀ q, (s.ts x).tsSleepq q = []
  thread : ∀ t, (s.thread t).tWchan = none ∧ (s.thread t).tSleepq = none ∧ (s.thread t).tPrioinv = []
  own : ∀ t u, (s.thread t).tTs = (s.thread u).tTs → t = u

/-- The states of the system. -/
inductive Reachable : TsState → Prop
  | init {s : TsState} (h : Initial s) : Reachable s
  | step {s s' : TsState} {e : TsEvent} (h : Reachable s) (he : Enabled upi s e) (hrun : stepRun upi s e = .ok s') : Reachable s'

end

variable {upi : UpiTab} {s s' : TsState} {t : Tid} {x : Tsid} {q : TsQueue} {L : Sobj}

/-- Only the owner of an object inherits from its turnstile. -/
def Owned (s : TsState) : Prop := ∀ x o, (s.ts x).tsInheritor = some o → s.owner (s.ts x).tsSobj = some o

lemma Initial.conserved (h : Initial s) : Conserved upi s := by
  have hno : ∀ x, ¬ Active s x := fun x ⟨b, hb⟩ => by simp [h.turnstileTable b] at hb
  exact {
    queueNodup := fun x q => by simp [(h.ts x).2.2.2 q]
    queued := fun x q t => by simp [(h.ts x).2.2.2 q, (h.thread t).2.1]
    place := fun b x hx => absurd ⟨b, hx⟩ (hno x)
    chain := fun b => by simp [h.turnstileTable b]
    one := fun x y hx => absurd hx (hno x)
    counted := fun x => by simp [(h.ts x).2.1, (h.ts x).2.2.2]
    freed := fun x hx => absurd hx (hno x)
    inactive := fun x _ => ⟨(h.ts x).1, (h.ts x).2.2.1⟩
    freeNodup := fun x => by simp [(h.ts x).1]
    freeInactive := fun x y _ => hno y
    freeOnce := fun x x' y hy => by simp [(h.ts x).1] at hy
    asleep := fun t x q ht => by simp [(h.thread t).2.1] at ht
    awake := fun t _ => ⟨(h.thread t).1, hno _, fun x => by simp [(h.ts x).1]⟩
    own := fun t u _ _ => h.own t u
    prioinv := fun x t => by simp [(h.ts x).2.2.1, (h.thread t).2.2]
    prioinvNodup := fun t => by simp [(h.thread t).2.2] }

/-- The owners of objects are not part of what turnstiles conserve. -/
lemma Conserved.setOwner {o : Option Tid} (hs : Conserved upi s) : Conserved upi (s.setOwner L o) :=
  { hs with }

lemma SameShape.owned (h : SameShape s s') (ho : Owned s) : Owned s' := fun x o hi => by
  rw [h.tsInheritor] at hi
  rw [h.owner, h.tsSobj]
  exact ho x o hi

lemma Dequeued.owned (h : Dequeued s s' t x q) (ho : Owned s) : Owned s' := fun y o hi => by
  rw [h.tsInheritor] at hi
  rw [h.owner, h.tsSobj]
  split at hi
  · cases hi
  · exact ho y o hi

lemma Inherited.owned {o : Tid} {p : Nat} (h : Inherited s s' x o p) (ho : Owned s) (hx : s.owner (s.ts x).tsSobj = some o) :
    Owned s' := fun y u hi => by
  rw [h.owner, h.tsSobj]
  rcases h.tsInheritor hi with hi | ⟨rfl, rfl⟩
  · exact ho y u hi
  · exact hx

/-- What all reachable states have. -/
structure TsInv (upi : UpiTab) (s : TsState) : Prop where
  conserved : Conserved upi s
  owned : Owned s

section
variable (hs : TsInv upi s)
include hs

lemma acquire_spec (hL : s.owner L = none) : TsInv upi (s.setOwner L (some t)) :=
  ⟨hs.conserved.setOwner, fun x o hi => by
    have := hs.owned x o hi
    by_cases hx : (s.ts x).tsSobj = L
    · simp [hx, hL] at this
    · simpa [setOwner, hx] using this⟩

lemma release_spec (hL : turnstileLookup upi s L = none) : TsInv upi (s.setOwner L none) :=
  ⟨hs.conserved.setOwner, fun x o hi => by
    have hx := hs.conserved.active_of_inheritor hi
    have hne : (s.ts x).tsSobj ≠ L := fun heq => by
      rw [← heq, hs.conserved.lookup hx] at hL
      cases hL
    simpa [setOwner, hne] using hs.owned x o hi⟩

lemma block_spec {m : Bool} {pri : Nat} (ht : (s.thread t).tSleepq = none) (hm : m = true → s.owner L ≠ none) :
    ∃ s', turnstileBlock upi s t q L m pri = .ok s' ∧ TsInv upi s' := by
  obtain ⟨s', x, hrun, hb, hs'⟩ := turnstileBlock_spec (q := q) (p := pri) hs.conserved ht hm
  refine ⟨s', hrun, hs', fun y o hi => ?_⟩
  rw [hb.tsInheritor] at hi
  rw [hb.owner, hb.tsSobj]
  have ho := hs.owned y o hi
  split
  next hy =>
    subst hy
    rwa [hb.known (hs.conserved.active_of_inheritor hi)] at ho
  next => exact ho

lemma willPriority_spec {o : Tid} (ht : (s.thread t).tWchan = some L) (ho : s.owner L = some o) :
    ∃ s', willPriority s t o = .ok s' ∧ Inherited s s' (s.thread t).tTs o (dispPrio (s.thread t)) ∧
      (∀ i, (s.ts (s.thread t).tTs).tsInheritor = some i → i = o) ∧ TsInv upi s' := by
  cases hq : (s.thread t).tSleepq with
  | none => simp [(hs.conserved.awake t hq).1] at ht
  | some xq =>
    obtain ⟨hx, htTs, hw⟩ := hs.conserved.asleep t xq.1 xq.2 hq
    have hL : (s.ts xq.1).tsSobj = L := by simpa [hw] using ht
    have howner : s.owner (s.ts xq.1).tsSobj = some o := by rw [hL, ho]
    have hi : ∀ i, (s.ts xq.1).tsInheritor = some i → i = o := fun i hi => by
      have := hs.owned _ i hi
      rw [howner] at this
      simpa using this.symm
    obtain ⟨s', hrun, hin, hs'⟩ := turnstilePiInherit_spec (o := o) (p := dispPrio (s.thread t)) hs.conserved hx hi
    rw [willPriority, htTs]
    exact ⟨s', hrun, hin, hi, hs', hin.owned hs.owned howner⟩

lemma wakeup_spec {c : Tid} {n : Nat} {h : Option Tid} {pri : Tid → Nat} (hc : (s.thread c).tSleepq = none)
    (hcL : s.owner L = some c ∨ s.owner L = none) (hx : turnstileLookup upi s L = some x)
    (hn : n ≤ ((s.ts x).tsSleepq q).length) (hh : ∀ t, h = some t → t ∈ ((s.ts x).tsSleepq q).take n ∧
      (n < (s.ts x).tsWaiters ∨ (((s.ts x).tsSleepq q).take n).getLast? = some t)) :
    ∃ s', turnstileWakeup upi (s.setOwner L h) c x q n h pri = .ok s' ∧ TsInv upi s' := by
  obtain ⟨hact, hsobj⟩ := turnstileLookup_some hx
  obtain ⟨s', hrun, hs', ⟨ho, -⟩, -⟩ := turnstileWakeup_rule pri
    (fun h s' => Owned s' ∧ ∀ t, h = some t → s'.owner (s'.ts x).tsSobj = some t)
    (s := s.setOwner L h) hs.conserved.setOwner hc
    (fun i hi => by
      have := hs.owned x i hi
      rw [hsobj] at this
      rcases hcL with h1 | h1 <;> rw [h1] at this <;> simp_all) hn hh
    (fun s1 hw hs1 => by
      refine ⟨fun y o hi => ?_, fun u hu => ?_⟩
      · have hy : y ≠ x := by
          rintro rfl
          rw [hw.tsInheritor] at hi
          cases hi
        rw [hw.tsInheritor_other hy] at hi
        have hne : (s.ts y).tsSobj ≠ L := fun heq =>
          hy (hs.conserved.one y x (hs.conserved.active_of_inheritor hi) hact (heq.trans hsobj.symm))
        rw [hw.owner, hw.tsSobj]
        simpa [setOwner, hne] using hs.owned y o hi
      · rw [hw.owner, hw.tsSobj]
        simpa [setOwner, hsobj] using hu)
    (fun s1 s2 t h₁ _ hP _ _ hd _ => by
      have hshape := sameShape_setWoken pri s2 t
      refine ⟨hshape.owned (hd.owned hP.1), fun u hu => ?_⟩
      rw [hshape.owner, hshape.tsSobj, hd.owner, hd.tsSobj]
      exact hP.2 u hu)
    (fun s1 s2 t _ hP _ _ hin _ => ⟨hin.owned hP.1 (hP.2 t rfl), fun u hu => by cases hu⟩)
  exact ⟨s', hrun, hs', ho⟩

lemma unsleep_spec {pri : Nat} (ht : (s.thread t).tSleepq ≠ none) :
    ∃ s', turnstileUnsleep upi s t pri = .ok s' ∧ TsInv upi s' := by
  obtain ⟨⟨x, q⟩, hq⟩ := ne_none_iff_exists'.1 ht
  obtain ⟨s1, hrun, hd, hs1⟩ := turnstileDequeue_spec hs.conserved hq
  have hshape := sameShape_setWoken (fun _ => pri) s1 t
  exact ⟨_, by rw [turnstileUnsleep, hrun, ok_bind]; rfl, hshape.conserved hs1, hshape.owned (hd.owned hs.owned)⟩

lemma piRecalc_spec : ∃ s', turnstilePiRecalc s t = .ok s' ∧ TsInv upi s' := by
  obtain ⟨s', hrun, hch⟩ := piRecompute_spec (c := t) (z := none) hs.conserved.toQueued
  have hsame : SameShape s (turnstilePiTsdelete s none t).2 := by
    constructor <;> intros <;> first
      | rfl
      | exact .refl _
      | (simp only [turnstilePiTsdelete, setThread_thread]; split <;> simp_all)
  have hshape := (hch _ rfl).shape
  exact ⟨s', hrun, hshape.conserved (hsame.conserved hs.conserved), hshape.owned (hsame.owned hs.owned)⟩

/-- A step that may happen keeps the invariant. -/
lemma stepRun_spec {e : TsEvent} (he : Enabled upi s e) : ∃ s', stepRun upi s e = .ok s' ∧ TsInv upi s' := by
  cases e with
  | acquire t L => exact ⟨_, rfl, acquire_spec hs he⟩
  | release t L => exact ⟨_, rfl, release_spec hs he.2⟩
  | block t q L m pri => exact block_spec hs he.1 he.2
  | willPriority t o =>
    obtain ⟨L, ht, ho⟩ := he
    obtain ⟨s', hrun, -, -, hs'⟩ := willPriority_spec hs ht ho
    exact ⟨s', hrun, hs'⟩
  | wakeup c L q n h pri =>
    obtain ⟨hc, hcL, x, hx, hn, hh⟩ := he
    rw [stepRun, hx]
    exact wakeup_spec hs hc hcL hx hn hh
  | unsleep t pri => exact unsleep_spec hs he
  | piRecalc t => exact piRecalc_spec hs

end

lemma Reachable.inv (h : Reachable upi s) : TsInv upi s := by
  induction h with
  | init h => exact ⟨h.conserved, fun x o hi => by simp [(h.ts x).2.2.1] at hi⟩
  | step _ he hrun ih =>
    obtain ⟨s', hrun', hs'⟩ := stepRun_spec ih he
    obtain rfl : s' = _ := Except.ok.inj (hrun'.symm.trans hrun)
    exact hs'

lemma Conserved.wchan_iff (hs : Conserved upi s) :
    (s.thread t).tWchan = some L ↔ Active s (s.thread t).tTs ∧ (s.thread t).tSleepq ≠ none ∧ (s.ts (s.thread t).tTs).tsSobj = L := by
  cases hq : (s.thread t).tSleepq with
  | none => simp [(hs.awake t hq).1]
  | some xq =>
    obtain ⟨hx, htTs, hw⟩ := hs.asleep t xq.1 xq.2 hq
    simp [hw, htTs, hx]

lemma Conserved.exists_sleeper (hs : Conserved upi s) (hx : Active s x) : ∃ t, (s.thread t).tWchan = some (s.ts x).tsSobj := by
  have hcount := hs.counted x
  have hfree := hs.freed x hx
  obtain ⟨q, hq⟩ : ∃ q, (s.ts x).tsSleepq q ≠ [] := by
    by_contra hno
    simp only [not_exists, not_not] at hno
    simp [hno] at hcount
    omega
  obtain ⟨t, ht⟩ := exists_mem_of_ne_nil _ hq
  exact ⟨t, (hs.asleep t x q ((hs.queued x q t).1 ht)).2.2⟩

lemma Conserved.chain_count (hs : Conserved upi s) (L : Sobj) :
    ((s.turnstileTable (turnstileSobjBucket upi L)).countP fun x => (s.ts x).tsSobj = L) =
      if (turnstileLookup upi s L).isSome then 1 else 0 := by
  cases hL : turnstileLookup upi s L with
  | none =>
    rw [if_neg (by simp), countP_eq_zero]
    exact List.find?_eq_none.1 hL
  | some x =>
    obtain ⟨hx, rfl⟩ := turnstileLookup_some hL
    rw [if_pos isSome_some, ← count_eq_one_of_mem (hs.chain _) (hs.mem_table hx)]
    refine countP_congr fun y hy => ?_
    rw [beq_iff_eq, decide_eq_true_iff]
    exact ⟨fun heq => hs.one y x ⟨_, hy⟩ hx heq, fun heq => heq ▸ rfl⟩

/-- **Turnstiles are conserved.** An object has one active turnstile if a thread sleeps on it, which counts its
threads and keeps a free turnstile for each but one; inheritors and `t_prioinv` lists agree; no assertion fails. -/
theorem turnstiles_conserved (h : Reachable upi s) :
    (∀ L, ((s.turnstileTable (turnstileSobjBucket upi L)).countP fun x => (s.ts x).tsSobj = L) ≤ 1 ∧
      (((s.turnstileTable (turnstileSobjBucket upi L)).countP fun x => (s.ts x).tsSobj = L) = 1 ↔
        ∃ t, (s.thread t).tWchan = some L)) ∧ (∀ x, Active s x →
      (s.ts x).tsWaiters = ((s.ts x).tsSleepq .TS_WRITER_Q).length + ((s.ts x).tsSleepq .TS_READER_Q).length ∧
      (s.ts x).tsFree.length + 1 = (s.ts x).tsWaiters ∧ (s.ts x).tsFree.Nodup ∧ ∀ y ∈ (s.ts x).tsFree, ¬ Active s y) ∧
    (∀ t L, (s.thread t).tWchan = some L → turnstileLookup upi s L = some (s.thread t).tTs) ∧
    (∀ t, (s.thread t).tWchan = none → ¬ Active s (s.thread t).tTs ∧ (∀ u, u ≠ t → (s.thread u).tTs ≠ (s.thread t).tTs) ∧
      ∀ x, (s.thread t).tTs ∉ (s.ts x).tsFree) ∧
    (∀ x t, (s.thread t).tPrioinv.count x = if (s.ts x).tsInheritor = some t then 1 else 0) ∧
    ∀ e, Enabled upi s e → ∃ s', stepRun upi s e = .ok s' := by
  have hs := h.inv.conserved
  have hlookup : ∀ t L, (s.thread t).tWchan = some L → turnstileLookup upi s L = some (s.thread t).tTs := by
    intro t L ht
    obtain ⟨hx, -, rfl⟩ := hs.wchan_iff.1 ht
    exact hs.lookup hx
  refine ⟨fun L => ?_, fun x hx => ?_, hlookup, fun t ht => ?_, fun x t => ?_, fun e he => ?_⟩
  · rw [hs.chain_count]
    constructor
    · split <;> omega
    · cases hL : turnstileLookup upi s L with
      | none =>
        simp only [isSome_none, Bool.false_eq_true, if_false, zero_ne_one, false_iff, not_exists]
        intro t ht
        rw [hlookup t L ht] at hL
        cases hL
      | some x =>
        obtain ⟨hx, rfl⟩ := turnstileLookup_some hL
        simpa using hs.exists_sleeper hx
  · exact ⟨hs.counted x, hs.freed x hx, hs.freeNodup x, hs.freeInactive x⟩
  · have hq : (s.thread t).tSleepq = none := by
      cases hq : (s.thread t).tSleepq with
      | none => rfl
      | some xq => simp [(hs.asleep t xq.1 xq.2 hq).2.2] at ht
    obtain ⟨-, hinact, hfree⟩ := hs.awake t hq
    refine ⟨hinact, fun u hu heq => ?_, hfree⟩
    cases hqu : (s.thread u).tSleepq with
    | none => exact hu (hs.own u t hqu hq heq)
    | some xq =>
      obtain ⟨hx, htTs, -⟩ := hs.asleep u xq.1 xq.2 hqu
      exact hinact (by rw [← heq, htTs]; exact hx)
  · split
    next hi => exact count_eq_one_of_mem (hs.prioinvNodup t) ((hs.prioinv x t).2 hi)
    next hi => exact count_eq_zero.2 fun hm => hi ((hs.prioinv x t).1 hm)
  · obtain ⟨s', hrun, -⟩ := stepRun_spec h.inv he
    exact ⟨s', hrun⟩

/-- Thread `t` has turnstile `t` and the priority `pri t`. -/
def idleState (pri : Tid → Nat) : TsState where
  turnstileTable := fun _ => []
  ts := fun _ => ⟨[], 0, 0, 0, none, fun _ => []⟩
  thread := fun t => ⟨t, none, none, pri t, 0, false, []⟩
  owner := fun _ => none

lemma idleState_initial (pri : Tid → Nat) : Initial (idleState pri) :=
  ⟨fun _ => rfl, fun _ => ⟨rfl, rfl, rfl, fun _ => rfl⟩, fun _ => ⟨rfl, rfl, rfl⟩, fun _ _ h => h⟩

/-- Threads 2 and 3 block on the mutex at 64 that thread 1 owns; 2 wills its priority, and 1 hands the mutex to 3. -/
theorem turnstiles_conserved_handoff : ∃ s, Reachable ⟨0, 0⟩ s ∧ s.owner 64 = some 3 ∧ (s.thread 3).tWchan = none ∧
    (s.thread 2).tWchan = some 64 ∧ turnstileLookup ⟨0, 0⟩ s 64 = some (s.thread 2).tTs := by
  have hacq : Reachable ⟨0, 0⟩ _ := .step (e := .acquire 1 64) (.init (idleState_initial id)) rfl rfl
  have hfirst : Reachable ⟨0, 0⟩ _ := .step (e := .block 2 .TS_WRITER_Q 64 true 2) hacq ⟨rfl, fun _ h => by cases h⟩ rfl
  have hsecond : Reachable ⟨0, 0⟩ _ := .step (e := .block 3 .TS_WRITER_Q 64 true 3) hfirst ⟨rfl, fun _ h => by cases h⟩ rfl
  have hwill : Reachable ⟨0, 0⟩ _ := .step (e := .willPriority 2 1) hsecond ⟨64, rfl, rfl⟩ rfl
  have hwake : Reachable ⟨0, 0⟩ _ := .step (e := .wakeup 1 64 .TS_WRITER_Q 1 (some 3) id) hwill
    ⟨rfl, .inl rfl, 2, rfl, by decide, fun t ht => by cases ht; exact ⟨by decide, .inl (by decide)⟩⟩ rfl
  exact ⟨_, hwake, rfl, rfl, rfl, (turnstiles_conserved hwake).2.2.1 2 64 rfl⟩

end Unleashed.Kernel.Turnstile
