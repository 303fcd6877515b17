import Unleashed.Kernel.Turnstile.Run

/-!
# Inherited priorities

What a thread has inherited is the highest priority that its turnstiles record, as long as base
priorities do not change.
-/

namespace Unleashed.Kernel.Turnstile

open Lib

variable {upi : UpiTab} {s s' : TsState} {t : Tid} {x : Tsid} {q : TsQueue} {L : Sobj}

/-- The inherited priorities are the recorded ones above the base; the queues are in order. -/
structure Exact (s : TsState) : Prop where
  upper : ∀ x o, (s.ts x).tsInheritor = some o → (s.ts x).tsEpri ≤ (s.thread o).tEpri
  attained : ∀ t, (s.thread t).tEpri = 0 ∨ ∃ x, (s.ts x).tsInheritor = some t ∧ (s.ts x).tsEpri = (s.thread t).tEpri
  needed : ∀ x o, (s.ts x).tsInheritor = some o → (s.thread o).tPri < (s.ts x).tsEpri
  sorted : Sorted s

variable {k : Kthread}

lemma dispPrio_le_iff {n : Nat} : dispPrio k ≤ n ↔ k.tPri ≤ n ∧ k.tEpri ≤ n := by
  unfold dispPrio
  split <;> omega

lemma le_dispPrio (k : Kthread) : k.tPri ≤ dispPrio k ∧ k.tEpri ≤ dispPrio k := dispPrio_le_iff.1 le_rfl

variable {k' : Kthread}

lemma dispPrio_eq (hp : k'.tPri = k.tPri) (he : k'.tEpri = k.tEpri) : dispPrio k' = dispPrio k := by
  rw [dispPrio, dispPrio, hp, he]

lemma cmpPrio_eq (hp : k'.tPri = k.tPri) (he : k'.tEpri = k.tEpri) (hw : k'.tWriter = k.tWriter) :
    cmpPrio k' = cmpPrio k := by
  rw [cmpPrio, cmpPrio, dispPrio_eq hp he, hw]

lemma dispPrio_le_of_cmpPrio (h : cmpPrio k ≤ cmpPrio k') : dispPrio k ≤ dispPrio k' := by
  have hk := Bool.toNat_le k'.tWriter
  rw [cmpPrio, cmpPrio, Nat.shiftLeft_eq, Nat.shiftLeft_eq] at h
  omega

/-- The order does not depend on the lists of the turnstiles that a thread inherits from. -/
lemma Sorted.congr (hsort : Sorted s) (hq : ∀ y q, (s'.ts y).tsSleepq q = (s.ts y).tsSleepq q)
    (hth : ∀ u, ∃ l, s'.thread u = { s.thread u with tPrioinv := l }) : Sorted s' := by
  intro y q
  rw [hq]
  refine (hsort y q).imp fun {v w} hle => ?_
  obtain ⟨lv, hv⟩ := hth v
  obtain ⟨lw, hw⟩ := hth w
  rw [hv, hw]
  exact hle

/-- The first thread of a queue has the highest priority of it. -/
lemma Exact.le_firstPrio (hs : Exact s) (ht : t ∈ (s.ts x).tsSleepq q) : dispPrio (s.thread t) ≤ firstPrio s x q := by
  have hsort := hs.sorted x q
  unfold firstPrio
  cases hq : (s.ts x).tsSleepq q with
  | nil => simp [hq] at ht
  | cons u rest =>
    rw [hq] at ht hsort
    rcases List.mem_cons.1 ht with rfl | ht
    · exact le_rfl
    · exact dispPrio_le_of_cmpPrio ((List.pairwise_cons.1 hsort).1 t ht)

lemma Exact.le_handoffPrio (hs : Exact s) (ht : t ∈ (s.ts x).tsSleepq q) : dispPrio (s.thread t) ≤ handoffPrio s x := by
  have := hs.le_firstPrio ht
  unfold handoffPrio
  cases q
  · exact this.trans (le_max_left _ _)
  · exact this.trans (le_max_right _ _)

/-- What `turnstile_pi_inherit` changes when it does not return at once. -/
structure Raised (s s' : TsState) (x : Tsid) (o : Tid) (p : Nat) : Prop where
  tsInheritor : ∀ y, (s'.ts y).tsInheritor = if y = x then some o else (s.ts y).tsInheritor
  tsEpri : ∀ y, (s'.ts y).tsEpri = if y = x then (if (s.ts x).tsInheritor = none then p else max (s.ts x).tsEpri p) else (s.ts y).tsEpri
  tEpri : ∀ u, (s'.thread u).tEpri = if u = o then max (s.thread o).tEpri p else (s.thread u).tEpri

/-- What `turnstile_pi_inherit` keeps. -/
structure InheritFrame (s s' : TsState) : Prop where
  tPri : ∀ u, (s'.thread u).tPri = (s.thread u).tPri
  tTs : ∀ u, (s'.thread u).tTs = (s.thread u).tTs
  tWchan : ∀ u, (s'.thread u).tWchan = (s.thread u).tWchan
  tSleepq : ∀ u, (s'.thread u).tSleepq = (s.thread u).tSleepq
  active : ∀ y, Active s' y ↔ Active s y
  sorted : Sorted s → Sorted s'

variable {o : Tid} {p : Nat}

lemma Inherited.frame (h : Inherited s s' x o p) : InheritFrame s s' := by
  cases h with
  | skip _ h =>
    subst h
    exact ⟨fun _ => rfl, fun _ => rfl, fun _ => rfl, fun _ => rfl, fun _ => .rfl, id⟩
  | raise _ s1 hrec h =>
    have hth : ∀ u, ∃ l, s1.thread u = { s.thread u with tPrioinv := l } := by
      intro u
      rw [hrec.thread]
      split
      next hu =>
        rw [hu.1]
        exact ⟨_, rfl⟩
      next => exact ⟨_, rfl⟩
    have hq : ∀ y q, (s1.ts y).tsSleepq q = (s.ts y).tsSleepq q := by
      intro y q
      rw [hrec.ts]
      split <;> simp_all
    refine ⟨fun u => ?_, fun u => ?_, fun u => ?_, fun u => ?_, fun y => ?_, fun hsort => h.sorted (hsort.congr hq hth)⟩
    · obtain ⟨l, hl⟩ := hth u
      rw [h.tPri, hl]
    · obtain ⟨l, hl⟩ := hth u
      rw [h.shape.tTs, hl]
    · obtain ⟨l, hl⟩ := hth u
      rw [h.shape.tWchan, hl]
    · obtain ⟨l, hl⟩ := hth u
      rw [h.shape.tSleepq, hl]
    · rw [h.shape.active, Active, Active, hrec.turnstileTable]

lemma Inherited.cases (h : Inherited s s' x o p) :
    p ≤ (s.thread o).tPri ∧ s' = s ∨ (s.thread o).tPri < p ∧ Raised s s' x o p := by
  cases h with
  | skip hp h => exact .inl ⟨hp, h⟩
  | raise hp s1 hrec h =>
    refine .inr ⟨hp, fun y => ?_, fun y => ?_, fun u => ?_⟩
    · rw [h.shape.tsInheritor, hrec.ts]
      split <;> rfl
    · rw [h.tsEpri, hrec.ts]
      split <;> rfl
    · rw [h.tEpri, hrec.thread]
      split <;> [rfl; (split <;> simp_all)]

lemma Inherited.exact (h : Inherited s s' x o p) (hs : Exact s)
    (ho : ∀ i, (s.ts x).tsInheritor = some i → i = o) : Exact s' := by
  rcases h.cases with ⟨-, rfl⟩ | ⟨hlt, hr⟩
  · exact hs
  have hf := h.frame
  have ho' : (s.ts x).tsInheritor = none ∨ (s.ts x).tsInheritor = some o := by
    cases hi : (s.ts x).tsInheritor with
    | none => exact .inl rfl
    | some i => exact .inr (by rw [ho i hi])
  refine ⟨fun y u hi => ?_, fun u => ?_, fun y u hi => ?_, hf.sorted hs.sorted⟩
  · have := hs.upper y u
    grind [hr.tsInheritor y, hr.tsEpri y, hr.tEpri u]
  · by_cases hu : u = o
    · subst hu
      rcases Nat.lt_or_ge p (s.thread u).tEpri with hp | hp
      · -- the thread has a higher priority from some turnstile already
        obtain h0 | ⟨y, hy, heq⟩ := hs.attained u
        · omega
        · exact .inr ⟨y, by grind [hr.tsInheritor y], by grind [hr.tsEpri y, hr.tEpri u]⟩
      · have := hs.upper x u
        exact .inr ⟨x, by grind [hr.tsInheritor x], by grind [hr.tsEpri x, hr.tEpri u]⟩
    · obtain h0 | ⟨y, hy, heq⟩ := hs.attained u
      · exact .inl (by grind [hr.tEpri u])
      · exact .inr ⟨y, by grind [hr.tsInheritor y], by grind [hr.tsEpri y, hr.tEpri u]⟩
  · have := hs.needed y u
    grind [hr.tsInheritor y, hr.tsEpri y, hf.tPri u]

/-- What `turnstile_pi_waive` keeps. -/
structure WaiveFrame (s s' : TsState) (c : Tid) : Prop where
  tPri : ∀ u, (s'.thread u).tPri = (s.thread u).tPri
  tTs : ∀ u, (s'.thread u).tTs = (s.thread u).tTs
  tWchan : ∀ u, (s'.thread u).tWchan = (s.thread u).tWchan
  tSleepq : ∀ u, (s'.thread u).tSleepq = (s.thread u).tSleepq
  tEpri : ∀ u, u ≠ c → (s'.thread u).tEpri = (s.thread u).tEpri
  tsEpri : ∀ y, (s'.ts y).tsEpri = (s.ts y).tsEpri
  sorted : Sorted s → Sorted s'

variable {c : Tid}

lemma Waived.frame (h : Waived s s' x c) : WaiveFrame s s' c := by
  cases h with
  | skip _ h =>
    subst h
    exact ⟨fun _ => rfl, fun _ => rfl, fun _ => rfl, fun _ => rfl, fun _ _ => rfl, fun _ => rfl, id⟩
  | waive _ e _ h =>
    obtain ⟨-, -, hts, hth⟩ := dropInheritor_eq s x
    have hth' : ∀ u, ∃ l, (dropInheritor s x).thread u = { s.thread u with tPrioinv := l } := by
      intro u
      rw [hth]
      split <;> exact ⟨_, rfl⟩
    have hq : ∀ y q, ((dropInheritor s x).ts y).tsSleepq q = (s.ts y).tsSleepq q := by
      intro y q
      rw [hts]
      split <;> simp_all
    refine ⟨fun u => ?_, fun u => ?_, fun u => ?_, fun u => ?_, fun u hu => ?_, fun y => ?_,
      fun hsort => h.sorted (hsort.congr hq hth')⟩
    · obtain ⟨l, hl⟩ := hth' u
      rw [h.tPri, hl]
    · obtain ⟨l, hl⟩ := hth' u
      rw [h.shape.tTs, hl]
    · obtain ⟨l, hl⟩ := hth' u
      rw [h.shape.tWchan, hl]
    · obtain ⟨l, hl⟩ := hth' u
      rw [h.shape.tSleepq, hl]
    · obtain ⟨l, hl⟩ := hth' u
      rw [h.tEpri, if_neg hu, hl]
    · rw [h.tsEpri, hts]
      split <;> simp_all

lemma foldl_max_spec (f : Tsid → Nat) (l : List Tsid) (a : Nat) : a ≤ (l.map f).foldl max a ∧
    (∀ y ∈ l, f y ≤ (l.map f).foldl max a) ∧ ((l.map f).foldl max a = a ∨ ∃ y ∈ l, f y = (l.map f).foldl max a) := by
  induction l generalizing a with
  | nil => exact ⟨le_rfl, fun y hy => by simp at hy, .inl rfl⟩
  | cons z l ih =>
    obtain ⟨hge, hle, hat⟩ := ih (max a (f z))
    rw [List.map_cons, List.foldl_cons]
    refine ⟨(le_max_left _ _).trans hge, fun y hy => ?_, ?_⟩
    · rcases List.mem_cons.1 hy with rfl | hy
      · exact (le_max_right _ _).trans hge
      · exact hle y hy
    · rcases hat with heq | ⟨y, hy, heq⟩
      · rcases max_choice a (f z) with h | h
        · exact .inl (heq.trans h)
        · exact .inr ⟨z, List.mem_cons_self, (heq.trans h).symm⟩
      · exact .inr ⟨y, List.mem_cons_of_mem _ hy, heq⟩

lemma Waived.exact (h : Waived s s' x c) (hs : Exact s) (hc : Conserved upi s) : Exact s' := by
  have hf := h.frame
  cases h with
  | skip _ h => exact h ▸ hs
  | waive hi e he h =>
    obtain ⟨-, hle, hat⟩ := foldl_max_spec (fun y => (s.ts y).tsEpri) ((s.thread c).tPrioinv.filter (some · ≠ some x)) 0
    rw [← he] at hle hat
    have hrest : ∀ y, y ∈ (s.thread c).tPrioinv.filter (some · ≠ some x) ↔ (s.ts y).tsInheritor = some c ∧ y ≠ x := by
      intro y
      rw [List.mem_filter, hc.prioinv]
      simp
    have hinh : ∀ y, (s'.ts y).tsInheritor = if y = x then none else (s.ts y).tsInheritor := by
      intro y
      rw [h.shape.tsInheritor, (dropInheritor_eq s x).2.2.1]
      split <;> rfl
    -- the new priority is exact even where it is not set
    have hepri : (s'.thread c).tEpri = e := by
      rw [h.tEpri, if_pos rfl]
      split
      next heq =>
        have hdisp := le_dispPrio (s.thread c)
        rcases hat with h0 | ⟨y, hy, hey⟩
        · omega
        · have hlt := hs.needed y c ((hrest y).1 hy).1
          unfold dispPrio at heq
          split at heq <;> omega
      next => rfl
    refine ⟨fun y u hy => ?_, fun u => ?_, fun y u hy => ?_, hf.sorted hs.sorted⟩
    · have := hs.upper y u
      have := hle y
      grind [hf.tsEpri y, hf.tEpri u]
    · by_cases hu : u = c
      · subst hu
        rw [hepri]
        refine hat.imp id fun ⟨y, hy, heq⟩ => ⟨y, by grind, by rw [hf.tsEpri, heq]⟩
      · obtain h0 | ⟨y, hy, heq⟩ := hs.attained u
        · exact .inl (by rw [hf.tEpri u hu, h0])
        · exact .inr ⟨y, by grind, by rw [hf.tsEpri, hf.tEpri u hu, heq]⟩
    · have := hs.needed y u
      grind [hf.tsEpri y, hf.tPri u]

lemma Dequeued.exact (h : Dequeued s s' t x q) (hs : Exact s) (hg : (s.ts x).tsWaiters > 1 ∨ (s.ts x).tsInheritor = none) :
    Exact s' := by
  have hinh : ∀ y, (s'.ts y).tsInheritor = (s.ts y).tsInheritor := by
    intro y
    rw [h.tsInheritor]
    grind
  refine ⟨fun y u hy => ?_, fun u => ?_, fun y u hy => ?_, fun y r => ?_⟩
  · rw [hinh] at hy
    rw [h.tsEpri, h.tEpri]
    exact hs.upper y u hy
  · simp only [hinh, h.tsEpri, h.tEpri]
    exact hs.attained u
  · rw [hinh] at hy
    rw [h.tsEpri, h.tPri]
    exact hs.needed y u hy
  · have hsub : ((s'.ts y).tsSleepq r).Sublist ((s.ts y).tsSleepq r) := by
      rw [h.tsSleepq]
      split
      next hy =>
        obtain ⟨rfl, rfl⟩ := hy
        exact List.erase_sublist
      next => exact .refl _
    refine ((hs.sorted y r).sublist hsub).imp fun {v w} hle => ?_
    rwa [cmpPrio_eq (h.tPri v) (h.tEpri v) (h.tWriter v), cmpPrio_eq (h.tPri w) (h.tEpri w) (h.tWriter w)]

lemma Blocked.exact {pri : Nat} (h : Blocked s s' t x q L pri) (hs : Exact s) (hpri : (s.thread t).tPri = pri) : Exact s' := by
  have htPri : ∀ u, (s'.thread u).tPri = (s.thread u).tPri := by
    intro u
    rw [h.tPri]
    split
    next hu => rw [hu, hpri]
    next => rfl
  have hsorted : ∀ y r, ((s.ts y).tsSleepq r).Pairwise fun v w => cmpPrio (s'.thread w) ≤ cmpPrio (s'.thread v) := fun y r =>
    (hs.sorted y r).imp fun {v w} hle => by
      rwa [cmpPrio_eq (htPri v) (h.tEpri v) (h.tWriter v), cmpPrio_eq (htPri w) (h.tEpri w) (h.tWriter w)]
  refine ⟨fun y u hy => ?_, fun u => ?_, fun y u hy => ?_, fun y r => ?_⟩
  · rw [h.tsInheritor] at hy
    rw [h.tsEpri, h.tEpri]
    exact hs.upper y u hy
  · simp only [h.tsInheritor, h.tsEpri, h.tEpri]
    exact hs.attained u
  · rw [h.tsInheritor] at hy
    rw [h.tsEpri, htPri]
    exact hs.needed y u hy
  · rw [h.tsSleepq]
    split
    next => exact sleepqInsert_pairwise (hsorted x q)
    next => exact hsorted y r

end Unleashed.Kernel.Turnstile
