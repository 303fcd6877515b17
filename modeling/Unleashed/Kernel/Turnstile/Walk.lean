import Unleashed.Kernel.Turnstile.Inherit

/-!
# The priority walk

A thread that blocks wills its priority along the chain of owners. It holds the thread lock of the thread that it
visits, and starts again when `turnstile_interlock` fails. Meanwhile other threads block, walk and wake up.
-/

namespace Unleashed.Kernel.Turnstile

open Lib Relation Option Function Except

/-- Where a walk is: at a sleeping thread whose lock it holds, or without a lock before a new start. -/
inductive Walk where
  | visit (t : Tid)
  | restart

/-- The turnstiles, and the threads in `turnstile_block` that walk. -/
structure WalkState where
  sys : TsState
  walk : Tid → Option Walk

def WalkState.setWalk (w : WalkState) (c : Tid) (p : Option Walk) : WalkState := { w with walk := update w.walk c p }

/-- One turn of `turnstile_block`, tested under the lock of the next thread. -/
def walkVisit (s : TsState) (curthread t : Tid) : Except Fault (TsState × Option Walk) :=
  match (s.thread t).tWchan with
  | none => .ok (s, none)
  | some sobj =>
    match s.owner sobj with
    | none => .ok (s, none)
    | some owner => do
      VERIFY (owner ≠ curthread)
      let s ← willPriority s t owner
      .ok (s, if (s.thread owner).tWchan = none then none else some (.visit owner))

inductive WalkEvent where
  | acquire (t : Tid) (sobj : Sobj)
  | release (t : Tid) (sobj : Sobj)
  | block (t : Tid) (q : TsQueue) (sobj : Sobj) (isMutex : Bool)
  | visit (curthread : Tid)
  | interlockFails (curthread : Tid)
  | resume (curthread : Tid)
  | wakeup (curthread : Tid) (sobj : Sobj) (q : TsQueue) (nthreads : Nat) (newOwner : Option Tid)

section
variable (upi : UpiTab)

/-- When a step may happen. A thread that walks does nothing else, and a wakeup needs the thread locks. -/
def WalkEnabled (w : WalkState) : WalkEvent → Prop
  | .acquire t L => w.walk t = none ∧ Enabled upi w.sys (.acquire t L)
  | .release t L => w.walk t = none ∧ Enabled upi w.sys (.release t L)
  | .block t q L isMutex => w.walk t = none ∧ w.sys.owner L ≠ none ∧
      Enabled upi w.sys (.block t q L isMutex (w.sys.thread t).tPri)
  | .visit c => ∃ p, w.walk c = some (.visit p)
  | .interlockFails c => ∃ p, w.walk c = some (.visit p)
  | .resume c => w.walk c = some .restart
  | .wakeup c L q n newOwner => w.walk c = none ∧ w.sys.owner L = some c ∧
      Enabled upi w.sys (.wakeup c L q n newOwner fun t => (w.sys.thread t).tPri) ∧
      (newOwner = none → ∀ x, turnstileLookup upi w.sys L = some x → n = (w.sys.ts x).tsWaiters) ∧
      ∀ d p, w.walk d = some (.visit p) → (w.sys.thread p).tWchan ≠ some L

/-- What a step does. -/
def walkRun (w : WalkState) : WalkEvent → Except Fault WalkState
  | .acquire t L => do
    let s ← stepRun upi w.sys (.acquire t L)
    .ok { w with sys := s }
  | .release t L => do
    let s ← stepRun upi w.sys (.release t L)
    .ok { w with sys := s }
  | .block t q L isMutex => do
    let s ← stepRun upi w.sys (.block t q L isMutex (w.sys.thread t).tPri)
    .ok ({ w with sys := s }.setWalk t (some (.visit t)))
  | .visit c =>
    match w.walk c with
    | some (.visit p) => do
      let (s, next) ← walkVisit w.sys c p
      .ok ({ w with sys := s }.setWalk c next)
    | _ => .ok w
  | .interlockFails c => .ok (w.setWalk c (some .restart))
  | .resume c => .ok (w.setWalk c (if (w.sys.thread c).tWchan = none then none else some (.visit c)))
  | .wakeup c L q n newOwner => do
    let s ← stepRun upi w.sys (.wakeup c L q n newOwner fun t => (w.sys.thread t).tPri)
    .ok { w with sys := s }

/-- The states of the system; in the first, no thread has inherited a priority. -/
inductive WalkReachable : WalkState → Prop
  | init {w : WalkState} (h : Initial w.sys) (hepri : ∀ t, (w.sys.thread t).tEpri = 0) (hwalk : ∀ t, w.walk t = none) : WalkReachable w
  | step {w w' : WalkState} {e : WalkEvent} (h : WalkReachable w) (he : WalkEnabled upi w e) (hrun : walkRun upi w e = .ok w') :
      WalkReachable w'

end

/-- `t` waits for a lock that `o` owns. -/
def WaitsFor (s : TsState) (t o : Tid) : Prop := ∃ L, (s.thread t).tWchan = some L ∧ s.owner L = some o

/-- The owner of the lock that `t` waits for has, or inherits, a priority that is high enough. -/
def Willed (s : TsState) (t : Tid) : Prop :=
  ∀ o, WaitsFor s t o → dispPrio (s.thread t) ≤ (s.thread o).tPri ∨
    (s.ts (s.thread t).tTs).tsInheritor = some o ∧ dispPrio (s.thread t) ≤ (s.ts (s.thread t).tTs).tsEpri

/-- Where the walk of `c` continues. -/
def WalkFrom (w : WalkState) (c p : Tid) : Prop := w.walk c = some (.visit p) ∨ w.walk c = some .restart ∧ p = c

/-- A walk is at a thread that its own thread waits for, and each thread whose priority is not willed is ahead of a
walk. -/
structure WalkInv (w : WalkState) : Prop where
  exact : Exact w.sys
  held : ∀ x, Active w.sys x → w.sys.owner (w.sys.ts x).tsSobj ≠ none
  visiting : ∀ c p, w.walk c = some (.visit p) → (w.sys.thread p).tWchan ≠ none ∧ ReflTransGen (WaitsFor w.sys) c p
  ahead : ∀ t, ¬ Willed w.sys t → ∃ c p, WalkFrom w c p ∧ ReflTransGen (WaitsFor w.sys) p t

variable {upi : UpiTab} {s s' : TsState} {w w' : WalkState} {t o c : Tid} {x : Tsid} {q : TsQueue} {L : Sobj}

lemma WaitsFor.unique {o' : Tid} (h : WaitsFor s t o) (h' : WaitsFor s t o') : o = o' := by
  obtain ⟨L, hL, ho⟩ := h
  obtain ⟨L', hL', ho'⟩ := h'
  rw [hL] at hL'
  cases hL'
  exact some.inj (ho.symm.trans ho')

lemma exists_waitsFor (h : ¬ Willed s t) : ∃ o, WaitsFor s t o := by
  by_contra hno
  exact h fun o ho => absurd ⟨o, ho⟩ hno

/-- A path to a waiting thread only needs the edges into waiting threads. -/
lemma path_mono {α : Type} {r r' : α → α → Prop} (hr : ∀ a b, r a b → (∃ d, r b d) → r' a b) {p t : α}
    (h : ReflTransGen r p t) (ht : ∃ d, r t d) : ReflTransGen r' p t := by
  induction h using ReflTransGen.head_induction_on with
  | refl => exact .refl
  | head hab hbt ih =>
    refine ih.head (hr _ _ hab ?_)
    rcases hbt.cases_head with rfl | ⟨d, hbd, -⟩
    · exact ht
    · exact ⟨d, hbd⟩

/-! ## Visits -/

lemma Inherited.waitsFor {p : Nat} (h : Inherited s s' x o p) : WaitsFor s' = WaitsFor s := by
  funext t u
  simp only [WaitsFor, h.frame.tWchan, h.owner]

/-- After the visit, the priority of the visited thread is willed. -/
lemma Inherited.willed_self (h : Inherited s s' (s.thread t).tTs o (dispPrio (s.thread t))) (ht : WaitsFor s t o) : Willed s' t := by
  intro o' ho'
  rw [h.waitsFor] at ho'
  obtain rfl := ht.unique ho'
  rcases h.cases with ⟨hle, rfl⟩ | ⟨hlt, hr⟩
  · exact .inl hle
  · right
    rw [h.frame.tTs, hr.tsInheritor, if_pos rfl, hr.tsEpri, if_pos rfl]
    have hdisp : dispPrio (s'.thread t) ≤ dispPrio (s.thread t) := by
      have := le_dispPrio (s.thread t)
      rw [dispPrio_le_iff, h.frame.tPri, hr.tEpri]
      split
      next ho => exact ⟨this.1, max_le (ho ▸ this.2) le_rfl⟩
      next => exact this
    refine ⟨rfl, hdisp.trans ?_⟩
    split
    · exact le_rfl
    · exact le_max_right _ _

lemma Inherited.willed_other {p : Nat} {u : Tid} (h : Inherited s s' x o p)
    (hi : ∀ i, (s.ts x).tsInheritor = some i → i = o) (hu : u ≠ o) (hw : Willed s u) : Willed s' u := by
  intro o' ho'
  rw [h.waitsFor] at ho'
  rcases h.cases with ⟨-, rfl⟩ | ⟨hlt, hr⟩
  · exact hw o' ho'
  have hdisp : dispPrio (s'.thread u) = dispPrio (s.thread u) :=
    dispPrio_eq (h.frame.tPri u) (by rw [hr.tEpri, if_neg hu])
  rw [hdisp, h.frame.tPri, h.frame.tTs]
  refine (hw o' ho').imp id fun ⟨hin, hle⟩ => ?_
  rw [hr.tsInheritor, hr.tsEpri]
  split
  next hx =>
    rw [← hx, if_neg (by simp [hin])]
    rw [← hx] at hi
    exact ⟨by rw [hi o' hin], hle.trans (le_max_left _ _)⟩
  next => exact ⟨hin, hle⟩

variable {p : Tid} {next : Option Walk}

/-- A visit that returns: the owner is another thread, and inherits. -/
lemma walkVisit_spec {s' : TsState} (hs : TsInv upi s) (hp : WaitsFor s p o) (hrun : walkVisit s c p = .ok (s', next)) :
    stepRun upi s (.willPriority p o) = .ok s' ∧ Inherited s s' (s.thread p).tTs o (dispPrio (s.thread p)) ∧
      (∀ i, (s.ts (s.thread p).tTs).tsInheritor = some i → i = o) ∧
      next = if (s'.thread o).tWchan = none then none else some (.visit o) := by
  obtain ⟨L, hL, ho⟩ := hp
  obtain ⟨s1, hrun1, hin, hi, -⟩ := willPriority_spec hs hL ho
  simp only [walkVisit, hL, ho, hrun1, ok_bind] at hrun
  obtain ⟨-, hne, heq⟩ := bind_returns.1 hrun
  obtain ⟨rfl, rfl⟩ := Prod.mk.inj (ok.inj heq)
  exact ⟨hrun1, hin, hi, rfl⟩

lemma setWalk_walk (p : Option Walk) (d : Tid) : (w.setWalk c p).walk d = if d = c then p else w.walk d := by
  simp only [WalkState.setWalk, update_apply]

lemma WalkFrom.setWalk {d p' : Tid} {next : Option Walk} (h : WalkFrom w d p') (hdc : d ≠ c) :
    WalkFrom (w.setWalk c next) d p' := by
  rw [WalkFrom, setWalk_walk, if_neg hdc]
  exact h

lemma WalkInv.waits (hw : WalkInv w) (hs : TsInv upi w.sys) (ht : (w.sys.thread t).tWchan ≠ none) : ∃ o, WaitsFor w.sys t o := by
  obtain ⟨L, hL⟩ := ne_none_iff_exists'.1 ht
  obtain ⟨hx, -, rfl⟩ := hs.conserved.wchan_iff.1 hL
  obtain ⟨o, ho⟩ := ne_none_iff_exists'.1 (hw.held _ hx)
  exact ⟨o, _, hL, ho⟩

lemma WalkInv.visit (hw : WalkInv w) (hs : TsInv upi w.sys) (hc : w.walk c = some (.visit p))
    (hrun : walkVisit w.sys c p = .ok (s', next)) : WalkInv ({ w with sys := s' }.setWalk c next) := by
  obtain ⟨hp, hcp⟩ := hw.visiting c p hc
  obtain ⟨o, hpo⟩ := hw.waits hs hp
  obtain ⟨-, hin, hi, rfl⟩ := walkVisit_spec hs hpo hrun
  have hwait := hin.waitsFor
  have hf := hin.frame
  refine ⟨hin.exact hw.exact hi, fun x hx => ?_, fun d p' hd => ?_, fun t ht => ?_⟩
  · show s'.owner (s'.ts x).tsSobj ≠ none
    rw [hin.owner, hin.tsSobj]
    exact hw.held x ((hf.active x).1 hx)
  · show (s'.thread p').tWchan ≠ none ∧ ReflTransGen (WaitsFor s') d p'
    rw [hwait, hf.tWchan]
    rw [setWalk_walk] at hd
    split at hd
    next hdc =>
      subst hdc
      split at hd
      next => cases hd
      next ho =>
        cases hd
        rw [hf.tWchan] at ho
        exact ⟨ho, hcp.tail hpo⟩
    next => exact hw.visiting d p' hd
  · change ¬ Willed s' t at ht
    show ∃ c' p', WalkFrom _ c' p' ∧ ReflTransGen (WaitsFor s') p' t
    rw [hwait]
    have hasleep : (s'.thread t).tWchan ≠ none := by
      obtain ⟨o', L, hL, -⟩ := exists_waitsFor ht
      simp [hL]
    by_cases hto : t = o
    · subst hto
      exact ⟨c, t, .inl (by rw [setWalk_walk, if_pos rfl, if_neg hasleep]), .refl⟩
    · have hold : ¬ Willed w.sys t := fun h => ht (hin.willed_other hi hto h)
      obtain ⟨d, p', hfrom, hreach⟩ := hw.ahead t hold
      by_cases hdc : d = c
      · subst hdc
        obtain rfl : p' = p := by
          rcases hfrom with h | ⟨h, -⟩ <;> rw [hc] at h <;> cases h
          rfl
        -- the walk was at `p'`, whose priority is now willed, and goes on to the owner
        rcases hreach.cases_head with rfl | ⟨o', hpo', hreach⟩
        · exact absurd (hin.willed_self hpo) ht
        · obtain rfl := hpo.unique hpo'
          have ho : (s'.thread o).tWchan ≠ none := by
            rcases hreach.cases_head with rfl | ⟨v, ⟨L, hL, -⟩, -⟩
            · exact hasleep
            · simp [hf.tWchan, hL]
          exact ⟨d, o, .inl (by rw [setWalk_walk, if_pos rfl, if_neg ho]), hreach⟩
      · exact ⟨d, p', hfrom.setWalk hdc, hreach⟩

lemma WalkInv.interlockFails (hw : WalkInv w) (hc : w.walk c = some (.visit p)) : WalkInv (w.setWalk c (some .restart)) := by
  refine ⟨hw.exact, hw.held, fun d p' hd => ?_, fun t ht => ?_⟩
  · rw [setWalk_walk] at hd
    split at hd
    · cases hd
    · exact hw.visiting d p' hd
  · obtain ⟨d, p', hfrom, hreach⟩ := hw.ahead t ht
    by_cases hdc : d = c
    · -- a new start comes through the thread that was visited
      subst hdc
      obtain rfl : p' = p := by
        rcases hfrom with h | ⟨h, -⟩ <;> rw [hc] at h <;> cases h
        rfl
      exact ⟨d, d, .inr ⟨by rw [setWalk_walk, if_pos rfl], rfl⟩, (hw.visiting d p' hc).2.trans hreach⟩
    · exact ⟨d, p', hfrom.setWalk hdc, hreach⟩

lemma WalkInv.resume (hw : WalkInv w) (hc : w.walk c = some .restart) :
    WalkInv (w.setWalk c (if (w.sys.thread c).tWchan = none then none else some (.visit c))) := by
  refine ⟨hw.exact, hw.held, fun d p' hd => ?_, fun t ht => ?_⟩
  · rw [setWalk_walk] at hd
    split at hd
    next hdc =>
      subst hdc
      split at hd
      next => cases hd
      next hd' =>
        cases hd
        exact ⟨hd', .refl⟩
    next => exact hw.visiting d p' hd
  · obtain ⟨d, p', hfrom, hreach⟩ := hw.ahead t ht
    by_cases hdc : d = c
    · subst hdc
      obtain rfl : p' = d := by
        rcases hfrom with h | ⟨-, h⟩
        · rw [hc] at h
          cases h
        · exact h
      -- a thread that was woken meanwhile has nothing left to will
      have hasleep : (w.sys.thread p').tWchan ≠ none := by
        obtain ⟨o', L', hL', -⟩ := exists_waitsFor (s := w.sys) ht
        rcases hreach.cases_head with rfl | ⟨v, ⟨L, hL, -⟩, -⟩
        · simp [hL']
        · simp [hL]
      exact ⟨p', p', .inl (by rw [setWalk_walk, if_pos rfl, if_neg hasleep]), hreach⟩
    · exact ⟨d, p', hfrom.setWalk hdc, hreach⟩

/-! ## Locks without waiters -/

/-- The owner of a lock without waiters is nobody's concern. -/
lemma WalkInv.setOwner {o : Option Tid} (hw : WalkInv w) (hs : TsInv upi w.sys) (hL : turnstileLookup upi w.sys L = none) :
    WalkInv { w with sys := w.sys.setOwner L o } := by
  have hne : ∀ x, Active w.sys x → (w.sys.ts x).tsSobj ≠ L := fun x hx heq => by
    rw [← heq, hs.conserved.lookup hx] at hL
    cases hL
  have hwait : WaitsFor (w.sys.setOwner L o) = WaitsFor w.sys := by
    funext t u
    refine propext (exists_congr fun L' => and_congr_right fun hL' => ?_)
    obtain ⟨hx, -, rfl⟩ := hs.conserved.wchan_iff.1 hL'
    simp [TsState.setOwner, hne _ hx]
  refine ⟨⟨hw.exact.upper, hw.exact.attained, hw.exact.needed, hw.exact.sorted⟩, fun x hx => ?_, ?_, ?_⟩
  · have := hw.held x hx
    simpa [TsState.setOwner, hne x hx] using this
  · rw [hwait]
    exact hw.visiting
  · intro t ht
    rw [hwait]
    refine hw.ahead t fun h => ht fun u hu => ?_
    exact h u (hwait ▸ hu)

/-! ## Blocking -/

lemma WalkInv.block {m : Bool} (hw : WalkInv w) (hs : TsInv upi w.sys) (ht : (w.sys.thread t).tSleepq = none)
    (hL : w.sys.owner L ≠ none) (hwalk : w.walk t = none)
    (hrun : turnstileBlock upi w.sys t q L m (w.sys.thread t).tPri = .ok s') :
    WalkInv ({ w with sys := s' }.setWalk t (some (.visit t))) := by
  obtain ⟨s1, x, hrun1, hb, hs'⟩ := turnstileBlock_spec (q := q) (L := L) (m := m) (p := (w.sys.thread t).tPri) hs.conserved ht
    fun _ => hL
  obtain rfl : s1 = s' := ok.inj (hrun1.symm.trans hrun)
  have hawake := (hs.conserved.awake t ht).1
  have hwait : ∀ a b, WaitsFor w.sys a b → WaitsFor s1 a b := by
    rintro a b ⟨L', hL', ho⟩
    have : a ≠ t := by
      rintro rfl
      rw [hawake] at hL'
      cases hL'
    exact ⟨L', by rw [hb.tWchan, if_neg this, hL'], by rw [hb.owner, ho]⟩
  have hmono : ∀ {a b}, ReflTransGen (WaitsFor w.sys) a b → ReflTransGen (WaitsFor s1) a b := fun h => ReflTransGen.mono hwait _ _ h
  refine ⟨hb.exact hw.exact rfl, fun y hy => ?_, fun d p hd => ?_, fun u hu => ?_⟩
  · show s1.owner (s1.ts y).tsSobj ≠ none
    rw [hb.owner, hb.tsSobj]
    split
    next => exact hL
    next hne => exact hw.held y (((hb.active y).1 hy).resolve_right hne)
  · show (s1.thread p).tWchan ≠ none ∧ ReflTransGen (WaitsFor s1) d p
    rw [setWalk_walk] at hd
    split at hd
    next hdt =>
      cases hd
      exact ⟨by rw [hb.tWchan, if_pos rfl]; simp, hdt ▸ .refl⟩
    next =>
      obtain ⟨hp, hdp⟩ := hw.visiting d p hd
      refine ⟨?_, hmono hdp⟩
      rw [hb.tWchan]
      split
      · simp
      · exact hp
  · show ∃ c' p', WalkFrom _ c' p' ∧ ReflTransGen (WaitsFor s1) p' u
    change ¬ Willed s1 u at hu
    by_cases hut : u = t
    · exact ⟨t, t, .inl (by rw [setWalk_walk, if_pos rfl]), hut ▸ .refl⟩
    · have hold : ¬ Willed w.sys u := by
        refine fun h => hu fun o ho => ?_
        obtain ⟨L', hL', ho'⟩ := ho
        rw [hb.tWchan, if_neg hut] at hL'
        rw [hb.owner] at ho'
        have hpri : (s1.thread o).tPri = (w.sys.thread o).tPri := by
          rw [hb.tPri]
          split <;> simp_all
        have hdisp : dispPrio (s1.thread u) = dispPrio (w.sys.thread u) :=
          dispPrio_eq (by rw [hb.tPri, if_neg hut]) (hb.tEpri u)
        rw [hdisp, hpri, hb.tTs, if_neg hut, hb.tsInheritor, hb.tsEpri]
        exact h o ⟨L', hL', ho'⟩
      obtain ⟨d, p, hfrom, hreach⟩ := hw.ahead u hold
      refine ⟨d, p, ?_, hmono hreach⟩
      have hdt : d ≠ t := by
        rintro rfl
        rcases hfrom with h | ⟨h, -⟩ <;> rw [hwalk] at h <;> cases h
      exact hfrom.setWalk hdt

/-! ## Waking -/

/-- The state of `turnstile_wakeup` on `x`; the handoff to `h`, if any, is still to come. -/
structure Waking (s0 : TsState) (x : Tsid) (h₀ h : Option Tid) (s : TsState) : Prop where
  exact : Exact s
  owner : s.owner = s0.owner
  tPri : ∀ u, (s.thread u).tPri = (s0.thread u).tPri
  tsSobj : ∀ y, (s.ts y).tsSobj = (s0.ts y).tsSobj
  stays : ∀ u, (s.thread u).tSleepq ≠ none → (s.thread u).tSleepq = (s0.thread u).tSleepq ∧ (s.thread u).tEpri = (s0.thread u).tEpri
  others : ∀ u, (∀ r, (s0.thread u).tSleepq ≠ some (x, r)) → (s.thread u).tSleepq = (s0.thread u).tSleepq
  recorded : ∀ y, y ≠ x → (s.ts y).tsInheritor = (s0.ts y).tsInheritor ∧ (s.ts y).tsEpri = (s0.ts y).tsEpri
  pending : ∀ t, h = some t → h₀ = some t
  handed : h = none → ∀ t, h₀ = some t → ∀ r, ∀ u ∈ (s.ts x).tsSleepq r, dispPrio (s.thread u) ≤ (s.thread t).tPri ∨
    (s.ts x).tsInheritor = some t ∧ dispPrio (s.thread u) ≤ (s.ts x).tsEpri

section
variable {s0 : TsState} {h₀ h : Option Tid}

lemma setWoken_self {pri : Tid → Nat} (hp : pri t = (s.thread t).tPri) : setWoken pri s t = s := by
  simp only [setWoken, TsState.setThread, hp, update_eq_self]

lemma Waived.waking (hw : Waived s0 s x c) (hs : Exact s0) (hc : Conserved upi s0) (hcur : (s0.thread c).tSleepq = none) :
    Waking s0 x h₀ h₀ s := by
  have hf := hw.frame
  refine ⟨hw.exact hs hc, hw.owner, hf.tPri, hw.tsSobj, fun u hu => ⟨hf.tSleepq u, hf.tEpri u ?_⟩, fun u _ => hf.tSleepq u,
    fun y hy => ⟨hw.tsInheritor_other hy, hf.tsEpri y⟩, fun _ ht => ht, fun hn t ht => ?_⟩
  · rintro rfl
    rw [hf.tSleepq] at hu
    exact hu hcur
  · rw [hn] at ht
    cases ht

lemma Waking.dequeued (hw : Waking s0 x h₀ h s) (hd : Dequeued s s' t x q)
    (ht : (s.thread t).tSleepq = some (x, q)) (hg : (s.ts x).tsWaiters > 1 ∨ (s.ts x).tsInheritor = none) :
    Waking s0 x h₀ h s' := by
  have hdisp : ∀ u, dispPrio (s'.thread u) = dispPrio (s.thread u) := fun u => dispPrio_eq (hd.tPri u) (hd.tEpri u)
  have hinh : ∀ y, (s'.ts y).tsInheritor = (s.ts y).tsInheritor := by
    intro y
    rw [hd.tsInheritor]
    grind
  refine ⟨hd.exact hw.exact hg, by rw [hd.owner, hw.owner], fun u => by rw [hd.tPri, hw.tPri], fun y => by rw [hd.tsSobj, hw.tsSobj],
    fun u hu => ?_, fun u hu => ?_, fun y hy => ?_, hw.pending, fun hn t0 ht0 r u hu => ?_⟩
  · rw [hd.tSleepq] at hu ⊢
    rw [hd.tEpri]
    split at hu
    · exact absurd rfl hu
    · rw [if_neg ‹_›]
      exact hw.stays u hu
  · rw [hd.tSleepq, if_neg, hw.others u hu]
    rintro rfl
    exact hu q ((hw.stays u (by simp [ht])).1 ▸ ht)
  · rw [hinh, hd.tsEpri]
    exact hw.recorded y hy
  · have hold : u ∈ (s.ts x).tsSleepq r := by
      rw [hd.tsSleepq] at hu
      split at hu
      next hr => exact hr.2 ▸ List.mem_of_mem_erase hu
      next => exact hu
    rw [hdisp, hd.tPri, hinh, hd.tsEpri]
    exact hw.handed hn t0 ht0 r u hold

lemma Waking.handoff (hw : Waking s0 x h₀ (some t) s) (hin : Inherited s s' x t (handoffPrio s x)) (hs : Conserved upi s)
    (ht : (s.thread t).tSleepq = none) (hi : (s.ts x).tsInheritor = none) : Waking s0 x h₀ none s' := by
  have hf := hin.frame
  have hepri : ∀ u, u ≠ t → (s'.thread u).tEpri = (s.thread u).tEpri := fun u hu => by
    rcases hin.cases with ⟨-, rfl⟩ | ⟨-, hr⟩
    · rfl
    · rw [hr.tEpri, if_neg hu]
  have hne : ∀ u, (s.thread u).tSleepq ≠ none → u ≠ t := by
    rintro u hu rfl
    exact hu ht
  refine ⟨hin.exact hw.exact (by simp [hi]), by rw [hin.owner, hw.owner], fun u => by rw [hf.tPri, hw.tPri],
    fun y => by rw [hin.tsSobj, hw.tsSobj], fun u hu => ?_, fun u hu => by rw [hf.tSleepq, hw.others u hu], fun y hy => ?_,
    fun _ h0 => (by cases h0), fun _ t0 ht0 r u hu => ?_⟩
  · rw [hf.tSleepq] at hu ⊢
    rw [hepri u (hne u hu)]
    exact hw.stays u hu
  · rcases hin.cases with ⟨-, rfl⟩ | ⟨-, hr⟩
    · exact hw.recorded y hy
    · rw [hr.tsInheritor, hr.tsEpri, if_neg hy, if_neg hy]
      exact hw.recorded y hy
  · obtain rfl : t = t0 := some.inj ((hw.pending t rfl).symm.trans ht0)
    have hu' : u ∈ (s.ts x).tsSleepq r := (hin.tsSleepq x r).mem_iff.1 hu
    have hut : u ≠ t := hne u (by simp [(hs.queued x r u).1 hu'])
    have hle := hw.exact.le_handoffPrio hu'
    rw [dispPrio_eq (hf.tPri u) (hepri u hut), hf.tPri]
    rcases hin.cases with ⟨hp, -⟩ | ⟨-, hr⟩
    · exact .inl (hle.trans hp)
    · right
      rw [hr.tsInheritor, hr.tsEpri, if_pos rfl, if_pos rfl, if_pos hi]
      exact ⟨rfl, hle⟩

end

variable {n : Nat}

lemma wakeup_waking {h : Option Tid} (hw : WalkInv w) (hs : TsInv upi w.sys) (hc : (w.sys.thread c).tSleepq = none)
    (hL : w.sys.owner L = some c) (hx : turnstileLookup upi w.sys L = some x) (hn : n ≤ ((w.sys.ts x).tsSleepq q).length)
    (hh : ∀ t, h = some t → t ∈ ((w.sys.ts x).tsSleepq q).take n ∧
      (n < (w.sys.ts x).tsWaiters ∨ (((w.sys.ts x).tsSleepq q).take n).getLast? = some t)) :
    ∃ s', turnstileWakeup upi (w.sys.setOwner L h) c x q n h (fun t => (w.sys.thread t).tPri) = .ok s' ∧
      Waking (w.sys.setOwner L h) x h none s' ∧ (s'.ts x).tsWaiters = (w.sys.ts x).tsWaiters - n := by
  obtain ⟨-, hsobj⟩ := turnstileLookup_some hx
  have hexact : Exact (w.sys.setOwner L h) := ⟨hw.exact.upper, hw.exact.attained, hw.exact.needed, hw.exact.sorted⟩
  obtain ⟨s', hrun, -, hwak, hwait⟩ := turnstileWakeup_rule (fun t => (w.sys.thread t).tPri)
    (Waking (w.sys.setOwner L h) x h) (s := w.sys.setOwner L h) hs.conserved.setOwner hc
    (fun i hi => by
      have := hs.owned x i hi
      rw [hsobj, hL] at this
      exact (some.inj this).symm) hn hh
    (fun s1 hwv _ => hwv.waking hexact hs.conserved.setOwner hc)
    (fun s1 s2 t h1 hs1 hP hhead hg hd hs2 => by
      rw [setWoken_self (by rw [hd.tPri]; exact (hP.tPri t).symm)]
      exact hP.dequeued hd ((hs1.queued x q t).1 (List.mem_of_mem_head? (by simp [hhead]))) hg)
    (fun s1 s2 t hs1 hP hawake hi hin _ => hP.handoff hin hs1 hawake hi)
  exact ⟨s', hrun, hwak, hwait⟩

section
variable {h : Option Tid} (hs' : TsInv upi s') (hwak : Waking (w.sys.setOwner L h) x h none s')
include hs' hwak

lemma Waking.asleep (ht : (s'.thread t).tWchan ≠ none) : ∃ y r, (w.sys.thread t).tSleepq = some (y, r) ∧
    (s'.thread t).tSleepq = some (y, r) ∧ dispPrio (s'.thread t) = dispPrio (w.sys.thread t) := by
  cases hq : (s'.thread t).tSleepq with
  | none => exact absurd (hs'.conserved.awake t hq).1 ht
  | some yr =>
    obtain ⟨hkeep, hepri⟩ := hwak.stays t (by simp [hq])
    exact ⟨yr.1, yr.2, hkeep.symm.trans hq, rfl, dispPrio_eq (hwak.tPri t) hepri⟩

lemma Waking.tWchan_other {L' : Sobj} (hs : TsInv upi w.sys) (hx : turnstileLookup upi w.sys L = some x) (ht : (w.sys.thread t).tWchan = some L') (hne : L' ≠ L) : (s'.thread t).tWchan = some L' := by
  obtain ⟨hact, hq, hsobj⟩ := hs.conserved.wchan_iff.1 ht
  obtain ⟨⟨y, r⟩, hyr⟩ := ne_none_iff_exists'.1 hq
  obtain ⟨-, rfl, -⟩ := hs.conserved.asleep t y r hyr
  have hyx : (w.sys.thread t).tTs ≠ x := by
    intro heq
    rw [heq, (turnstileLookup_some hx).2] at hsobj
    exact hne hsobj.symm
  have hkeep := hwak.others t fun r' h' => by
    have := hyr.symm.trans h'
    simp only [some.injEq, Prod.mk.injEq] at this
    exact hyx this.1
  rw [(hs'.conserved.asleep t _ r (hkeep.trans hyr)).2.2, hwak.tsSobj]
  exact congrArg some hsobj

end

lemma WalkInv.wakeup {h : Option Tid} (hw : WalkInv w) (hs : TsInv upi w.sys) (hs' : TsInv upi s')
    (hc : (w.sys.thread c).tSleepq = none) (hL : w.sys.owner L = some c) (hx : turnstileLookup upi w.sys L = some x)
    (hall : h = none → n = (w.sys.ts x).tsWaiters) (hno : ∀ d p, w.walk d = some (.visit p) → (w.sys.thread p).tWchan ≠ some L)
    (hwak : Waking (w.sys.setOwner L h) x h none s') (hwait : (s'.ts x).tsWaiters = (w.sys.ts x).tsWaiters - n) :
    WalkInv { w with sys := s' } := by
  obtain ⟨hxa, hxL⟩ := turnstileLookup_some hx
  have hownL : s'.owner L = h := by
    rw [hwak.owner]
    simp [TsState.setOwner]
  have hown : ∀ L', L' ≠ L → s'.owner L' = w.sys.owner L' := fun L' hne => by
    rw [hwak.owner]
    simp [TsState.setOwner, hne]
  -- the edges into waiting threads stay, since the old owner does not wait
  have hedge : ∀ a b, WaitsFor w.sys a b → (∃ d, WaitsFor w.sys b d) → WaitsFor s' a b := by
    rintro a b ⟨L', hL', ho⟩ ⟨d, L'', hL'', -⟩
    have hne : L' ≠ L := by
      rintro rfl
      obtain rfl : c = b := some.inj (hL.symm.trans ho)
      rw [(hs.conserved.awake c hc).1] at hL''
      cases hL''
    exact ⟨L', Waking.tWchan_other hs' hwak hs hx hL' hne, by rw [hown L' hne, ho]⟩
  refine ⟨hwak.exact, fun y hy => ?_, fun d p hd => ?_, fun t ht => ?_⟩
  · obtain ⟨t, ht⟩ := hs'.conserved.exists_sleeper hy
    obtain ⟨z, r, hq, hq', -⟩ := Waking.asleep hs' hwak (t := t) (by simp [ht])
    obtain ⟨hza, -, -⟩ := hs.conserved.asleep t z r hq
    obtain ⟨hza', -, hz'⟩ := hs'.conserved.asleep t z r hq'
    have hzy : z = y := hs'.conserved.one z y hza' hy (some.inj (hz'.symm.trans ht))
    subst hzy
    have hsob : (s'.ts z).tsSobj = (w.sys.ts z).tsSobj := hwak.tsSobj z
    by_cases hzL : (w.sys.ts z).tsSobj = L
    · obtain rfl : z = x := hs.conserved.one z x hza hxa (hzL.trans hxL.symm)
      have := hs'.conserved.freed z hy
      rw [hsob, hzL, hownL]
      intro hnone
      have := hall hnone
      omega
    · rw [hsob, hown _ hzL]
      exact hw.held z hza
  · obtain ⟨hp, hdp⟩ := hw.visiting d p hd
    obtain ⟨L', hL'⟩ := ne_none_iff_exists'.1 hp
    have hne : L' ≠ L := fun heq => hno d p hd (heq ▸ hL')
    exact ⟨by simp [Waking.tWchan_other hs' hwak hs hx hL' hne], path_mono hedge hdp (hw.waits hs hp)⟩
  · change ¬ Willed s' t at ht
    show ∃ c' p', WalkFrom w c' p' ∧ ReflTransGen (WaitsFor s') p' t
    obtain ⟨o, L', hL', ho⟩ := exists_waitsFor ht
    obtain ⟨y, r, hq, hq', hdisp⟩ := Waking.asleep hs' hwak (t := t) (by simp [hL'])
    obtain ⟨hya, hty, hyL⟩ := hs.conserved.asleep t y r hq
    obtain ⟨-, hty', hyL'⟩ := hs'.conserved.asleep t y r hq'
    have hsob : (s'.ts y).tsSobj = (w.sys.ts y).tsSobj := hwak.tsSobj y
    have hLy : L' = (w.sys.ts y).tsSobj := by
      rw [hL', hsob] at hyL'
      exact some.inj hyL'
    have hneL : L' ≠ L := by
      -- the new owner has inherited from who is left
      rintro rfl
      obtain rfl : y = x := hs.conserved.one y x hya hxa (hLy.symm.trans hxL.symm)
      refine ht fun o' ho' => ?_
      obtain ⟨L'', hL'', ho''⟩ := ho'
      obtain rfl : L' = L'' := some.inj (hL'.symm.trans hL'')
      rw [hty']
      exact hwak.handed rfl o' (hownL.symm.trans ho'') r t ((hs'.conserved.queued y r t).2 hq')
    have hyx : y ≠ x := fun heq => hneL (hLy.trans (heq ▸ hxL))
    have hold : ¬ Willed w.sys t := by
      refine fun hwill => ht fun o' ho' => ?_
      obtain ⟨L'', hL'', ho''⟩ := ho'
      obtain rfl : L' = L'' := some.inj (hL'.symm.trans hL'')
      have := hwill o' ⟨L', by rw [hyL, hLy], by rw [← hown L' hneL, ho'']⟩
      rw [hty] at this
      rw [hdisp, hwak.tPri, hty', (hwak.recorded y hyx).1, (hwak.recorded y hyx).2]
      exact this
    obtain ⟨d, p, hfrom, hreach⟩ := hw.ahead t hold
    exact ⟨d, p, hfrom, path_mono hedge hreach (exists_waitsFor hold)⟩

/-! ## Runs -/

lemma walkRun_spec {e : WalkEvent} (hw : WalkInv w) (hr : Reachable upi w.sys) (he : WalkEnabled upi w e)
    (hrun : walkRun upi w e = .ok w') : WalkInv w' ∧ Reachable upi w'.sys := by
  have hs := hr.inv
  cases e with
  | acquire t L =>
    obtain ⟨s', hrun1, heq⟩ := bind_returns.1 hrun
    obtain rfl := ok.inj heq
    have hstep := Reachable.step hr he.2 hrun1
    obtain rfl := ok.inj hrun1
    refine ⟨hw.setOwner hs ?_, hstep⟩
    cases hL : turnstileLookup upi w.sys L with
    | none => rfl
    | some x =>
      obtain ⟨hx, rfl⟩ := turnstileLookup_some hL
      exact absurd he.2 (hw.held x hx)
  | release t L =>
    obtain ⟨s', hrun1, heq⟩ := bind_returns.1 hrun
    obtain rfl := ok.inj heq
    have hstep := Reachable.step hr he.2 hrun1
    obtain rfl := ok.inj hrun1
    exact ⟨hw.setOwner hs he.2.2, hstep⟩
  | block t q L m =>
    obtain ⟨hwalk, hL, hen⟩ := he
    obtain ⟨s', hrun1, heq⟩ := bind_returns.1 hrun
    obtain rfl := ok.inj heq
    exact ⟨hw.block hs hen.1 hL hwalk hrun1, .step hr hen hrun1⟩
  | visit c =>
    obtain ⟨p, hc⟩ := he
    simp only [walkRun, hc] at hrun
    obtain ⟨⟨s', next⟩, hrun1, heq⟩ := bind_returns.1 hrun
    obtain rfl := ok.inj heq
    obtain ⟨o, hpo⟩ := hw.waits hs (hw.visiting c p hc).1
    exact ⟨hw.visit hs hc hrun1, .step hr (e := .willPriority p o) hpo (walkVisit_spec hs hpo hrun1).1⟩
  | interlockFails c =>
    obtain ⟨p, hc⟩ := he
    obtain rfl := ok.inj hrun
    exact ⟨hw.interlockFails hc, hr⟩
  | resume c =>
    obtain rfl := ok.inj hrun
    exact ⟨hw.resume he, hr⟩
  | wakeup c L q n h =>
    obtain ⟨-, hL, hen, hall, hno⟩ := he
    obtain ⟨s', hrun1, heq⟩ := bind_returns.1 hrun
    obtain rfl := ok.inj heq
    have hstep := Reachable.step hr hen hrun1
    obtain ⟨hc, -, x, hx, hn, hh⟩ := hen
    obtain ⟨s1, hrun2, hwak, hwait⟩ := wakeup_waking hw hs hc hL hx hn hh
    rw [stepRun, hx] at hrun1
    obtain rfl := ok.inj (hrun2.symm.trans hrun1)
    exact ⟨hw.wakeup hs hstep.inv hc hL hx (fun hnone => hall hnone x hx) hno hwak hwait, hstep⟩

lemma WalkReachable.inv (h : WalkReachable upi w) : WalkInv w ∧ Reachable upi w.sys := by
  induction h with
  | init h hepri hwalk =>
    refine ⟨⟨⟨fun x o hi => ?_, fun t => .inl (hepri t), fun x o hi => ?_, fun x q => ?_⟩, fun x hx => ?_, fun c p hc => ?_, fun t ht => ?_⟩,
      .init h⟩
    · simp [(h.ts x).2.2.1] at hi
    · simp [(h.ts x).2.2.1] at hi
    · simp [(h.ts x).2.2.2 q]
    · obtain ⟨b, hb⟩ := hx
      simp [h.turnstileTable b] at hb
    · simp [hwalk c] at hc
    · obtain ⟨o, L, hL, -⟩ := exists_waitsFor ht
      simp [(h.thread t).1] at hL
  | step _ he hrun ih => exact walkRun_spec ih.1 ih.2 he hrun

lemma Exact.tEpri_eq (he : Exact s) (hs : Conserved upi s) (t : Tid) :
    (s.thread t).tEpri = ((s.thread t).tPrioinv.map fun x => (s.ts x).tsEpri).foldl max 0 := by
  obtain ⟨-, hle, hat⟩ := foldl_max_spec (fun x => (s.ts x).tsEpri) (s.thread t).tPrioinv 0
  apply le_antisymm
  · rcases he.attained t with h0 | ⟨x, hi, heq⟩
    · rw [h0]
      exact Nat.zero_le _
    · rw [← heq]
      exact hle x ((hs.prioinv x t).2 hi)
  · rcases hat with h0 | ⟨x, hx, heq⟩
    · rw [h0]
      exact Nat.zero_le _
    · rw [← heq]
      exact he.upper x t ((hs.prioinv x t).1 hx)

/-- Where all priorities are willed, no owner has a lower one than its waiters. -/
lemma Exact.dispPrio_le (he : Exact s) (hw : Willed s t) (h : WaitsFor s t o) : dispPrio (s.thread t) ≤ dispPrio (s.thread o) := by
  obtain ⟨hpri, hepri⟩ := le_dispPrio (s.thread o)
  rcases hw o h with hle | ⟨hi, hle⟩
  · exact hle.trans hpri
  · exact hle.trans ((he.upper _ o hi).trans hepri)

/-- **Inheritance is exact** when no walk is under way: an owner has the priority of each thread that waits for it
through owners, and inherits the maximum over its `t_prioinv` list, nothing when nobody waits. -/
theorem inheritance_exact (h : WalkReachable upi w) (hquiet : ∀ c, w.walk c = none) :
    (∀ t o, TransGen (WaitsFor w.sys) t o → dispPrio (w.sys.thread t) ≤ dispPrio (w.sys.thread o)) ∧
    (∀ t, (w.sys.thread t).tEpri = ((w.sys.thread t).tPrioinv.map fun x => (w.sys.ts x).tsEpri).foldl max 0 ∧
      ∀ x ∈ (w.sys.thread t).tPrioinv, w.sys.owner (w.sys.ts x).tsSobj = some t ∧
        turnstileLookup upi w.sys (w.sys.ts x).tsSobj = some x ∧ 0 < (w.sys.ts x).tsWaiters) ∧
    ∀ t, (∀ u, ¬ WaitsFor w.sys u t) → (w.sys.thread t).tEpri = 0 := by
  obtain ⟨hw, hr⟩ := h.inv
  have hs := hr.inv.conserved
  have hwilled : ∀ t, Willed w.sys t := by
    intro t
    by_contra ht
    obtain ⟨c, p, hfrom | ⟨hfrom, -⟩, -⟩ := hw.ahead t ht <;> rw [hquiet c] at hfrom <;> cases hfrom
  refine ⟨fun t o hto => ?_, fun t => ⟨hw.exact.tEpri_eq hs t, fun x hx => ?_⟩, fun t ht => ?_⟩
  · induction hto with
    | single h => exact hw.exact.dispPrio_le (hwilled _) h
    | tail _ h ih => exact ih.trans (hw.exact.dispPrio_le (hwilled _) h)
  · have hi := (hs.prioinv x t).1 hx
    have hact := hs.active_of_inheritor hi
    have := hs.freed x hact
    exact ⟨hr.inv.owned x t hi, hs.lookup hact, by omega⟩
  · rcases hw.exact.attained t with h0 | ⟨x, hi, -⟩
    · exact h0
    · obtain ⟨u, hu⟩ := hs.exists_sleeper (hs.active_of_inheritor hi)
      exact absurd ⟨_, hu, hr.inv.owned x t hi⟩ (ht u)

/-- Thread 3 waits for 2, which waits for 1. Its walk fails to take a lock, starts again and wills its priority to both. -/
theorem inheritance_exact_chain : ∃ w, WalkReachable ⟨0, 0⟩ w ∧ (∀ c, w.walk c = none) ∧ WaitsFor w.sys 3 2 ∧ WaitsFor w.sys 2 1 ∧
    (w.sys.thread 1).tPri = 1 ∧ 3 ≤ dispPrio (w.sys.thread 1) := by
  have hinit : WalkReachable ⟨0, 0⟩ ⟨idleState id, fun _ => none⟩ := .init (idleState_initial id) (fun _ => rfl) fun _ => rfl
  have hacq1 : WalkReachable ⟨0, 0⟩ _ := .step (e := .acquire 1 64) hinit ⟨rfl, rfl⟩ rfl
  have hacq2 : WalkReachable ⟨0, 0⟩ _ := .step (e := .acquire 2 128) hacq1 ⟨rfl, rfl⟩ rfl
  have hblock2 : WalkReachable ⟨0, 0⟩ _ := .step (e := .block 2 .TS_WRITER_Q 64 true) hacq2
    ⟨rfl, fun h => (by cases h), rfl, fun _ h => by cases h⟩ rfl
  have hvisit2 : WalkReachable ⟨0, 0⟩ _ := .step (e := .visit 2) hblock2 ⟨2, rfl⟩ rfl
  have hblock3 : WalkReachable ⟨0, 0⟩ _ := .step (e := .block 3 .TS_WRITER_Q 128 true) hvisit2
    ⟨rfl, fun h => (by cases h), rfl, fun _ h => by cases h⟩ rfl
  have hfails : WalkReachable ⟨0, 0⟩ _ := .step (e := .interlockFails 3) hblock3 ⟨3, rfl⟩ rfl
  have hresume : WalkReachable ⟨0, 0⟩ _ := .step (e := .resume 3) hfails rfl rfl
  have hvisit3 : WalkReachable ⟨0, 0⟩ _ := .step (e := .visit 3) hresume ⟨3, rfl⟩ rfl
  have hdone : WalkReachable ⟨0, 0⟩ _ := .step (e := .visit 3) hvisit3 ⟨2, rfl⟩ rfl
  obtain ⟨w, hw, hquiet, hwait3, hwait2, hpri1, hpri3⟩ : ∃ w, WalkReachable ⟨0, 0⟩ w ∧ (∀ c, w.walk c = none) ∧
      WaitsFor w.sys 3 2 ∧ WaitsFor w.sys 2 1 ∧ (w.sys.thread 1).tPri = 1 ∧ (w.sys.thread 3).tPri = 3 := by
    refine ⟨_, hdone, fun c => ?_, ⟨128, rfl, rfl⟩, ⟨64, rfl, rfl⟩, rfl, rfl⟩
    by_cases h3 : c = 3
    · subst h3
      rfl
    by_cases h2 : c = 2
    · subst h2
      rfl
    -- the walks of other threads have never been set
    · have hne := fun (f : Tid → Option Walk) (v : Option Walk) => Function.update_of_ne h3 v f
      have hne' := fun (f : Tid → Option Walk) (v : Option Walk) => Function.update_of_ne h2 v f
      exact (hne ..).trans ((hne ..).trans ((hne ..).trans ((hne ..).trans ((hne ..).trans ((hne' ..).trans (hne' ..))))))
  have hle := (inheritance_exact hw hquiet).1 3 1 (.tail (.single hwait3) hwait2)
  exact ⟨w, hw, hquiet, hwait3, hwait2, hpri1, (hpri3.symm.le.trans (le_dispPrio _).1).trans hle⟩

end Unleashed.Kernel.Turnstile
