import Unleashed.Kernel.Turnstile.Conserve

/-!
# Waking threads

`turnstile_wakeup` as a sequence of departures, with at most one handoff among them.
-/

namespace Unleashed.Kernel.Turnstile

open Lib List

variable {upi : UpiTab} {s s' : TsState} {x : Tsid} {q : TsQueue} {n : Nat} {pri : Tid → Nat}

/-- A caller of `turnstile_wakeup`: that many threads sleep, and a new owner is one of them, the last if all go. -/
structure Legal (s : TsState) (x : Tsid) (q : TsQueue) (n : Nat) (h : Option Tid) : Prop where
  enough : n ≤ ((s.ts x).tsSleepq q).length
  handoff : ∀ t, h = some t → (s.ts x).tsInheritor = none ∧ t ∈ ((s.ts x).tsSleepq q).take n ∧
    (n < (s.ts x).tsWaiters ∨ (((s.ts x).tsSleepq q).take n).getLast? = some t)
  done : h = none → (s.ts x).tsInheritor = none ∨ n < (s.ts x).tsWaiters

/-- The priority that a new owner inherits. -/
def handoffPrio (s : TsState) (x : Tsid) : Nat := max (firstPrio s x .TS_WRITER_Q) (firstPrio s x .TS_READER_Q)

/-- The woken thread has its new priority. -/
def setWoken (pri : Tid → Nat) (s : TsState) (t : Tid) : TsState := s.setThread t { s.thread t with tPri := pri t }

lemma sameShape_setWoken (pri : Tid → Nat) (s : TsState) (t : Tid) : SameShape s (setWoken pri s t) := by
  constructor <;> intros <;> first | rfl | exact .refl _ | (simp only [setWoken, setThread_thread]; split <;> simp_all)

variable {t : Tid} {rest : List Tid} {h : Option Tid}

lemma Legal.head (hl : Legal s x q (n + 1) h) (hq : (s.ts x).tsSleepq q = t :: rest) (hnd : ((s.ts x).tsSleepq q).Nodup) :
    ((s.ts x).tsWaiters > 1 ∨ (s.ts x).tsInheritor = none) ∧ (h = some t → n = 0 ∨ n + 1 < (s.ts x).tsWaiters) := by
  constructor
  · cases h with
    | some u => exact .inr (hl.handoff u rfl).1
    | none =>
      rcases hl.done rfl with hi | hlt
      · exact .inr hi
      · exact .inl (by omega)
  · intro hh
    obtain ⟨-, -, hlt | hlast⟩ := hl.handoff t hh
    · exact .inr hlt
    · -- the first of `n + 1` threads is also the last one
      refine .inl (Nat.eq_zero_of_not_pos fun hpos => ?_)
      have henough := hl.enough
      rw [hq] at henough hlast hnd
      have hlen : n ≤ rest.length := by simpa using henough
      obtain ⟨m, rfl⟩ : ∃ m, n = m + 1 := ⟨n - 1, by omega⟩
      have : t ∈ rest.take (m + 1) := by
        rw [take_succ_cons, List.getLast?_cons_of_ne_nil (by
          intro h0
          have := congrArg List.length h0
          rw [length_take, length_nil] at this
          omega)] at hlast
        exact mem_of_getLast? hlast
      exact (nodup_cons.1 hnd).1 (mem_of_mem_take this)

lemma Legal.tail (hl : Legal s x q (n + 1) h) (hq : (s.ts x).tsSleepq q = t :: rest)
    (hne : h ≠ some t) (hq' : (s'.ts x).tsSleepq q = rest) (hw' : (s'.ts x).tsWaiters = (s.ts x).tsWaiters - 1)
    (hi' : (s.ts x).tsInheritor = none → (s'.ts x).tsInheritor = none) : Legal s' x q n h := by
  refine ⟨?_, fun u hu => ?_, fun hn => ?_⟩
  · have := hl.enough
    rw [hq, length_cons] at this
    rw [hq']
    omega
  · obtain ⟨hi, hmem, hor⟩ := hl.handoff u hu
    rw [hq, take_succ_cons] at hmem hor
    have hmem' : u ∈ rest.take n := (mem_cons.1 hmem).resolve_left fun heq => hne (heq ▸ hu)
    refine ⟨hi' hi, hq' ▸ hmem', ?_⟩
    rcases hor with hlt | hlast
    · exact .inl (by omega)
    · right
      rwa [hq', ← List.getLast?_cons_of_ne_nil (x := t) (ne_nil_of_mem hmem')]
  · rcases hl.done hn with hi | hlt
    · exact .inl (hi' hi)
    · exact .inr (by omega)

variable {y : Tsid}

section
variable {o : Tid} {p : Nat}

lemma Inherited.tsWaiters (h : Inherited s s' x o p) (y : Tsid) : (s'.ts y).tsWaiters = (s.ts y).tsWaiters := by
  cases h with
  | skip _ h => rw [h]
  | raise _ s1 hrec h =>
    rw [h.shape.tsWaiters, hrec.ts]
    split <;> simp_all

lemma Inherited.tsSobj (h : Inherited s s' x o p) (y : Tsid) : (s'.ts y).tsSobj = (s.ts y).tsSobj := by
  cases h with
  | skip _ h => rw [h]
  | raise _ s1 hrec h =>
    rw [h.shape.tsSobj, hrec.ts]
    split <;> simp_all

lemma Inherited.owner (h : Inherited s s' x o p) : s'.owner = s.owner := by
  cases h with
  | skip _ h => rw [h]
  | raise _ s1 hrec h => rw [h.shape.owner, hrec.owner]

lemma Inherited.tsSleepq (h : Inherited s s' x o p) (y : Tsid) (q : TsQueue) :
    ((s'.ts y).tsSleepq q).Perm ((s.ts y).tsSleepq q) := by
  cases h with
  | skip _ h => rw [h]
  | raise _ s1 hrec h =>
    refine (h.shape.tsSleepq y q).trans ?_
    rw [hrec.ts]
    split <;> simp_all

lemma Inherited.tsInheritor (h : Inherited s s' x o p) {u : Tid} (hu : (s'.ts y).tsInheritor = some u) :
    (s.ts y).tsInheritor = some u ∨ y = x ∧ u = o := by
  cases h with
  | skip _ h => exact .inl (h ▸ hu)
  | raise _ s1 hrec h =>
    rw [h.shape.tsInheritor, hrec.ts] at hu
    split at hu
    next hy => exact .inr ⟨hy, by simpa using hu.symm⟩
    next => exact .inl hu

end

/-- The handoff: the new owner inherits from the threads that stay. -/
lemma handoff_spec (hs : Conserved upi s) (hi : (s.ts x).tsInheritor = none) :
    ∃ s', turnstilePiInherit s x t (handoffPrio s x) = .ok s' ∧ Inherited s s' x t (handoffPrio s x) ∧ Conserved upi s' ∧
      ((s'.ts x).tsInheritor = none ∨ 0 < (s'.ts x).tsWaiters) := by
  by_cases hx : Active s x
  · obtain ⟨s', hrun, hin, hs'⟩ := turnstilePiInherit_spec (o := t) (p := handoffPrio s x) hs hx (by simp [hi])
    have := hs.freed x hx
    exact ⟨s', hrun, hin, hs', .inr (by rw [hin.tsWaiters]; omega)⟩
  · -- nobody stays, so there is no priority to inherit
    have hzero : handoffPrio s x = 0 := by simp [handoffPrio, firstPrio, (hs.idle hx).2]
    rw [hzero]
    exact ⟨s, by rw [turnstilePiInherit, if_pos (Nat.zero_le _)], .skip (Nat.zero_le _) rfl, hs, .inl hi⟩

/-- What a departure and the handoff keep holds after the loop. -/
lemma wakeupLoop_rule (P : Option Tid → TsState → Prop)
    (hdeq : ∀ s s' t h, Conserved upi s → P h s → ((s.ts x).tsSleepq q).head? = some t →
      (s.ts x).tsWaiters > 1 ∨ (s.ts x).tsInheritor = none → Dequeued s s' t x q → Conserved upi s' → P h (setWoken pri s' t))
    (hinh : ∀ s s' t, Conserved upi s → P (some t) s → (s.thread t).tSleepq = none → (s.ts x).tsInheritor = none →
      Inherited s s' x t (handoffPrio s x) → Conserved upi s' → P none s') :
    ∀ (n : Nat) (s : TsState) (h : Option Tid), Conserved upi s → Legal s x q n h → P h s →
      ∃ s', wakeupLoop upi x q pri n s h = .ok (s', none) ∧ Conserved upi s' ∧ P none s' ∧
        (s'.ts x).tsWaiters = (s.ts x).tsWaiters - n := by
  intro n
  induction n with
  | zero =>
    intro s h hs hl hP
    obtain rfl : h = none := by
      cases h with
      | none => rfl
      | some t => simpa using (hl.handoff t rfl).2.1
    exact ⟨s, rfl, hs, hP, rfl⟩
  | succ n ih =>
    intro s h hs hl hP
    obtain ⟨t, rest, hq⟩ : ∃ t rest, (s.ts x).tsSleepq q = t :: rest :=
      exists_cons_of_length_pos (by have := hl.enough; omega)
    have hsleep := (hs.queued x q t).1 (by simp [hq])
    obtain ⟨hx, htTs, -⟩ := hs.asleep t x q hsleep
    obtain ⟨hguard, hlast⟩ := hl.head hq (hs.queueNodup x q)
    obtain ⟨s1, hrun, hd, hs1⟩ := turnstileDequeue_spec hs hsleep
    have hshape := sameShape_setWoken pri s1 t
    have hs2 := hshape.conserved hs1
    have hP2 := hdeq s s1 t h hs hP (by simp [hq]) hguard hd hs1
    have hq2 : ((setWoken pri s1 t).ts x).tsSleepq q = rest := by
      show (s1.ts x).tsSleepq q = rest
      rw [hd.tsSleepq, if_pos ⟨rfl, rfl⟩, hq, erase_cons_head]
    have hw2 : ((setWoken pri s1 t).ts x).tsWaiters = (s.ts x).tsWaiters - 1 := by
      show (s1.ts x).tsWaiters = _
      rw [hd.tsWaiters, if_pos rfl]
    have hi2 : (s.ts x).tsInheritor = none → ((setWoken pri s1 t).ts x).tsInheritor = none := fun hi => by
      show (s1.ts x).tsInheritor = none
      rw [hd.tsInheritor, hi, ite_self]
    rw [wakeupLoop, hq]
    simp only [List.head?_cons]
    rw [ASSERT_bind htTs, ASSERT_bind hguard, hrun, ok_bind]
    by_cases hh : h = some t
    · subst hh
      obtain ⟨hi, -⟩ := hl.handoff t rfl
      have hawake : ((setWoken pri s1 t).thread t).tSleepq = none := by
        rw [hshape.tSleepq, hd.tSleepq, if_pos rfl]
      obtain ⟨s3, hrun3, hin, hs3, hdone⟩ := handoff_spec (t := t) hs2 (hi2 hi)
      have hw3 : (s3.ts x).tsWaiters = (s.ts x).tsWaiters - 1 := by rw [hin.tsWaiters, hw2]
      have hl3 : Legal s3 x q n none := by
        refine ⟨?_, fun u hu => (by cases hu), fun _ => ?_⟩
        · have := hl.enough
          rw [hq, length_cons] at this
          rw [(hin.tsSleepq x q).length_eq, hq2]
          omega
        · rcases hlast rfl with rfl | hlt
          · exact hdone
          · exact .inr (by omega)
      obtain ⟨s', hrun', hs', hP', hw'⟩ := ih s3 none hs3 hl3 (hinh _ s3 t hs2 hP2 hawake (hi2 hi) hin hs3)
      rw [if_pos rfl]
      refine ⟨s', ?_, hs', hP', by rw [hw', hw3]; omega⟩
      exact (congrArg (· >>= _) hrun3).trans (by rw [ok_bind]; exact hrun')
    · obtain ⟨s', hrun', hs', hP', hw'⟩ := ih _ h hs2 (hl.tail hq hh hq2 hw2 hi2) hP2
      rw [if_neg hh]
      exact ⟨s', hrun', hs', hP', by rw [hw', hw2]; omega⟩

section
variable {c : Tid}

lemma Waived.tsInheritor (h : Waived s s' x c) : (s'.ts x).tsInheritor = none := by
  cases h with
  | skip hi h => rw [h, hi]
  | waive _ e _ h => rw [h.shape.tsInheritor, (dropInheritor_eq s x).2.2.1, if_pos rfl]

lemma Waived.tsWaiters (h : Waived s s' x c) (y : Tsid) : (s'.ts y).tsWaiters = (s.ts y).tsWaiters := by
  cases h with
  | skip _ h => rw [h]
  | waive _ e _ h =>
    rw [h.shape.tsWaiters, (dropInheritor_eq s x).2.2.1]
    split <;> simp_all

lemma Waived.tsSleepq (h : Waived s s' x c) (hc : (s.thread c).tSleepq = none) (y : Tsid) (q : TsQueue) :
    (s'.ts y).tsSleepq q = (s.ts y).tsSleepq q := by
  cases h with
  | skip _ h => rw [h]
  | waive _ e _ h =>
    rw [h.awake (by rw [(dropInheritor_eq s x).2.2.2]; split <;> exact hc), (dropInheritor_eq s x).2.2.1]
    split <;> simp_all

lemma Waived.owner (h : Waived s s' x c) : s'.owner = s.owner := by
  cases h with
  | skip _ h => rw [h]
  | waive _ e _ h => rw [h.shape.owner, (dropInheritor_eq s x).2.1]

lemma Waived.tsSobj (h : Waived s s' x c) (y : Tsid) : (s'.ts y).tsSobj = (s.ts y).tsSobj := by
  cases h with
  | skip _ h => rw [h]
  | waive _ e _ h =>
    rw [h.shape.tsSobj, (dropInheritor_eq s x).2.2.1]
    split <;> simp_all

lemma Waived.tsInheritor_other (h : Waived s s' x c) (hy : y ≠ x) : (s'.ts y).tsInheritor = (s.ts y).tsInheritor := by
  cases h with
  | skip _ h => rw [h]
  | waive _ e _ h => rw [h.shape.tsInheritor, (dropInheritor_eq s x).2.2.1, if_neg hy]

end

variable (pri) in
lemma turnstileWakeup_rule (P : Option Tid → TsState → Prop) {c : Tid} (hs : Conserved upi s)
    (hawake : (s.thread c).tSleepq = none) (hc : ∀ i, (s.ts x).tsInheritor = some i → i = c) (hn : n ≤ ((s.ts x).tsSleepq q).length)
    (hh : ∀ t, h = some t → t ∈ ((s.ts x).tsSleepq q).take n ∧
      (n < (s.ts x).tsWaiters ∨ (((s.ts x).tsSleepq q).take n).getLast? = some t))
    (hwaive : ∀ s', Waived s s' x c → Conserved upi s' → P h s')
    (hdeq : ∀ s s' t h, Conserved upi s → P h s → ((s.ts x).tsSleepq q).head? = some t →
      (s.ts x).tsWaiters > 1 ∨ (s.ts x).tsInheritor = none → Dequeued s s' t x q → Conserved upi s' → P h (setWoken pri s' t))
    (hinh : ∀ s s' t, Conserved upi s → P (some t) s → (s.thread t).tSleepq = none → (s.ts x).tsInheritor = none →
      Inherited s s' x t (handoffPrio s x) → Conserved upi s' → P none s') :
    ∃ s', turnstileWakeup upi s c x q n h pri = .ok s' ∧ Conserved upi s' ∧ P none s' ∧
      (s'.ts x).tsWaiters = (s.ts x).tsWaiters - n := by
  obtain ⟨s1, hrun1, hw, hs1⟩ := waiveInherited_spec hs hc
  have hl : Legal s1 x q n h :=
    ⟨by rwa [hw.tsSleepq hawake], fun t ht => ⟨hw.tsInheritor, by rw [hw.tsSleepq hawake, hw.tsWaiters]; exact hh t ht⟩,
      fun _ => .inl hw.tsInheritor⟩
  obtain ⟨s', hrun', hs', hP, hwait⟩ := wakeupLoop_rule P hdeq hinh n s1 h hs1 hl (hwaive s1 hw hs1)
  refine ⟨s', ?_, hs', hP, by rw [hwait, hw.tsWaiters]⟩
  rw [turnstileWakeup, hrun1, ok_bind, hrun', ok_bind]
  rfl

end Unleashed.Kernel.Turnstile
