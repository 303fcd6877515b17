import Unleashed.Kernel.Memlist.Add
import Unleashed.Kernel.Memlist.Delete

/-!
# Memory lists over whole runs

`memlist_insert` and `memlist_del` move single elements. With the two span operations, and other users of the free
list, they keep the list in order, except that `memlist_insert` never sets the head of an empty list.
-/

namespace Unleashed.Kernel

open Lib Function List

section
variable {s : Memlists} {l l1 l2 : List (Nat × Span)} {fl : List Nat} {new : Nat} {e : Span}

lemma insertAt_ok {y : Nat × Span} (h : Holds s (l1 ++ y :: l2) fl) (hnew : Loose s (l1 ++ y :: l2) fl new e) :
    ∃ s', insertAt s new y.1 ⟨y.2, headOr l2 0, lastOr 0 l1⟩ = .ok s' ∧ Holds s' (l1 ++ (new, e) :: y :: l2) fl := by
  obtain ⟨p, q, hstored⟩ := hnew.stored
  have hwrite : update (update s.mem new (some ⟨e, y.1, q⟩)) new (some ⟨e, y.1, lastOr 0 l1⟩) =
      update s.mem new (some (⟨e, y.1, lastOr 0 l1⟩ : Memlist)) := update_idem ..
  have hhead : y.1 = s.curmemlistp ↔ l1 = [] := h.eq_head rfl
  rw [insertAt, DMem.setNext_ok hstored, ok_bind, DMem.setPrev_ok (update_self ..), ok_bind]
  dsimp only
  rw [hwrite, ← h.setPrevIf_eq]
  rw [show y.1 = headOr (y :: l2) 0 from rfl] at hhead ⊢
  by_cases hl : l1 = []
  · subst hl
    rw [nil_append] at h hnew
    obtain ⟨mem, hset, hholds⟩ := Holds.splice_head h hnew
    rw [lastOr, hset, ok_bind, if_pos (hhead.2 rfl)]
    exact ⟨_, rfl, hholds⟩
  · obtain ⟨mem, mem', hset, hnext, hholds⟩ := h.splice hnew hl
    rw [hset, ok_bind, if_neg (mt hhead.1 hl), hnext, ok_bind]
    exact ⟨_, rfl, hholds⟩

lemma insertLast_ok (h : Holds s l fl) (hnew : Loose s l fl new e) (hl : l ≠ []) :
    ∃ s', insertLast s new (lastOr 0 l) = .ok s' ∧ Holds s' (l ++ [(new, e)]) fl := by
  obtain ⟨p, q, hstored⟩ := hnew.stored
  have hwrite : update (update s.mem new (some ⟨e, 0, q⟩)) new (some ⟨e, 0, lastOr 0 l⟩) =
      update s.mem new (some (⟨e, 0, lastOr 0 l⟩ : Memlist)) := update_idem ..
  have hne : lastOr 0 l ≠ 0 := fun hz => hl ((lastOr_eq_zero h.linked).1 hz)
  have h' : Holds s (l ++ []) fl := by rwa [append_nil]
  have hnew' : Loose s (l ++ []) fl new e := by rwa [append_nil]
  obtain ⟨mem, mem', hset, hnext, hholds⟩ := h'.splice hnew' hl
  obtain rfl : update s.mem new (some (⟨e, 0, lastOr 0 l⟩ : Memlist)) = mem := Except.ok.inj hset
  rw [insertLast, DMem.setNext_ok hstored, ok_bind, DMem.setPrev_ok (update_self ..), ok_bind]
  dsimp only
  rw [hwrite, DMem.setNextIf, if_pos hne, hnext, ok_bind]
  exact ⟨_, rfl, hholds⟩

/-- `memlist_insert`: an element that is not disjoint from the list panics. -/
lemma insertLoop_ok {fuel : Nat} : ∀ {l1 l2 : List (Nat × Span)}, Holds s (l1 ++ l2) fl → Ordered 0 (l1 ++ l2) → Loose s (l1 ++ l2) fl new e →
    e.Valid → l1 ++ l2 ≠ [] → (∀ y ∈ l1, y.2.stop ≤ e.mlAddress) → l2.length < fuel →
    (Disjoint (denote (l1 ++ l2)) (Finset.Ico e.mlAddress e.stop) ∧ ∃ s' l', insertLoop s new e.mlAddress e.stop fuel (lastOr 0 l1) (headOr l2 0) = .ok s' ∧
      Holds s' l' fl ∧ Ordered 0 l' ∧ denote l' = denote (l1 ++ l2) ∪ Finset.Ico e.mlAddress e.stop) ∨
    (¬Disjoint (denote (l1 ++ l2)) (Finset.Ico e.mlAddress e.stop) ∧
      insertLoop s new e.mlAddress e.stop fuel (lastOr 0 l1) (headOr l2 0) = .error .verify) := by
  induction fuel with
  | zero => exact fun _ _ _ _ _ _ h => absurd h (Nat.not_lt_zero _)
  | succ fuel ih =>
    intro l1 l2 h ho hnew he hne hpassed hfuel
    have hestop : e.stop = e.mlAddress + e.mlSize := rfl
    have hdisjoint : Disjoint (denote (l1 ++ l2)) (Finset.Ico e.mlAddress e.stop) ↔ _ := disjoint_denote ho he.1
    rw [← hestop] at hdisjoint
    cases l2 with
    | nil =>
      rw [append_nil] at h ho hnew hne hdisjoint ⊢
      obtain ⟨s', hlast, hholds⟩ := insertLast_ok h hnew hne
      refine .inl ⟨hdisjoint.2 fun x hx => .inl (hpassed x hx), s', _, ?_, hholds, ordered_middle.2 ⟨ho, ⟨by simp, .nil⟩, he, ?_, by simp, by simp⟩, ?_⟩
      · rw [insertLoop, headOr, if_pos rfl, hlast]
      · exact hpassed
      · rw [denote_insert, append_nil]
    | cons y l2 =>
      obtain ⟨cur, n⟩ := y
      obtain ⟨hload, hcur⟩ := h.load
      obtain ⟨h1, h2, hvalid, hbefore, hafter, hacross⟩ := ordered_middle.1 ho
      have hnend : n.mlEnd = n.stop := hvalid.mlEnd
      have hnstop : n.stop = n.mlAddress + n.mlSize := rfl
      dsimp only at hafter
      rw [insertLoop, headOr, if_neg hcur, hload, ok_bind]
      dsimp only
      rw [hnend]
      by_cases hhere : n.mlAddress ≥ e.stop
      · rw [if_pos hhere]
        obtain ⟨s', hinsert, hholds⟩ := insertAt_ok h hnew
        have hlater : ∀ z ∈ (cur, n) :: l2, e.stop ≤ z.2.mlAddress := by
          intro z hz
          rcases mem_cons.1 hz with rfl | hz
          · exact hhere
          · have := hafter z hz
            omega
        refine .inl ⟨hdisjoint.2 fun x hx => ?_, s', _, hinsert, hholds, ?_, denote_insert⟩
        · exact (mem_append.1 hx).imp (hpassed x) (hlater x)
        · obtain ⟨ho1, ho2, hcross⟩ := ordered_append.1 ho
          exact ordered_middle.2 ⟨ho1, ho2, he, hpassed, hlater, hcross⟩
      · rw [if_neg hhere]
        by_cases hover : n.stop > e.mlAddress
        · rw [if_pos hover]
          refine .inr ⟨fun hd => ?_, rfl⟩
          have := hdisjoint.1 hd (cur, n) (by simp)
          dsimp only at this
          omega
        · rw [if_neg hover]
          have hsplit : l1 ++ (cur, n) :: l2 = (l1 ++ [(cur, n)]) ++ l2 := by rw [append_assoc]; rfl
          have hlast : lastOr 0 (l1 ++ [(cur, n)]) = cur := by
            rw [lastOr_append]
            rfl
          rw [hsplit] at h ho hnew hne ⊢
          have hrec := ih h ho hnew he hne (fun y hy => ?_) (Nat.lt_of_succ_lt_succ hfuel)
          · rwa [hlast] at hrec
          · rcases mem_append.1 hy with hy | hy
            · exact hpassed y hy
            · obtain rfl := mem_singleton.1 hy
              exact Nat.not_lt.1 hover

/-- On the empty list the element is not linked in anywhere. -/
lemma memlistInsert_empty {fuel : Nat} (h : Holds s [] fl) (hnew : Loose s [] fl new e) (hfuel : 0 < fuel) :
    ∃ s', memlistInsert fuel s new = .ok s' ∧ Holds s' [] fl := by
  obtain ⟨p, q, hstored⟩ := hnew.stored
  obtain ⟨k, rfl⟩ := Nat.exists_eq_succ_of_ne_zero hfuel.ne'
  have hhead : s.curmemlistp = 0 := h.head
  refine ⟨{ s with mem := update s.mem new (some ⟨e, 0, 0⟩) }, ?_, ⟨trivial, h.head, ?_, h.nodup⟩⟩
  · rw [memlistInsert, DMem.load_ok hstored, ok_bind, hhead, insertLoop, if_pos rfl, insertLast, DMem.setNext_ok hstored, ok_bind,
      DMem.setPrev_ok (update_self ..), ok_bind, update_idem, DMem.setNextIf, if_neg (not_not.2 rfl), ok_bind, ← hhead]
  · exact h.free.of_eq fun b hb => update_of_ne (ne_of_mem_of_not_mem hb hnew.notFree) ..

lemma onListLoop_ok {fuel : Nat} : ∀ {l1 l2 : List (Nat × Span)}, Holds s (l1 ++ l2) fl → l2.length < fuel →
    onListLoop s.mem new fuel (headOr l2 0) = .ok (decide (new ∈ addrs l2)) := by
  induction fuel with
  | zero => exact fun _ h => absurd h (Nat.not_lt_zero _)
  | succ fuel ih =>
    intro l1 l2 h hfuel
    cases l2 with
    | nil =>
      rw [onListLoop, headOr, if_pos rfl]
      simp
    | cons y l2 =>
      obtain ⟨cur, n⟩ := y
      obtain ⟨hload, hcur⟩ := h.load
      have hsplit : l1 ++ (cur, n) :: l2 = (l1 ++ [(cur, n)]) ++ l2 := by rw [append_assoc]; rfl
      rw [onListLoop, headOr, if_neg hcur]
      by_cases hhere : cur = new
      · rw [if_pos hhere]
        simp [hhere]
      · rw [if_neg hhere, hload, ok_bind]
        dsimp only
        rw [hsplit] at h
        rw [ih h (Nat.lt_of_succ_lt_succ hfuel)]
        simp [Ne.symm hhere]

lemma memlistDel_ok {fuel a : Nat} (h : Holds s (l1 ++ (a, e) :: l2) fl) (hfuel : (l1 ++ (a, e) :: l2).length < fuel) :
    ∃ s', memlistDel fuel s a = .ok s' ∧ Holds s' (l1 ++ l2) fl := by
  have h' : Holds s ([] ++ (l1 ++ (a, e) :: l2)) fl := h
  have hfound : onListLoop s.mem a fuel s.curmemlistp = .ok true := by
    rw [h.head, onListLoop_ok h' hfuel]
    simp
  have hload := h.load.1
  obtain ⟨hbefore, _, _, hafter⟩ := linked_append.1 h.linked
  have hhead : a = s.curmemlistp ↔ l1 = [] := h.eq_head rfl
  obtain ⟨mem, mem', hnext, hprev, hholds, _, hframe, _⟩ := h.unlink
  have hdelPrev : delPrev s.mem a ⟨e, headOr l2 0, lastOr 0 l1⟩ = .ok mem := by
    rw [delPrev]
    dsimp only
    by_cases hl : l1 = []
    · subst hl
      rw [lastOr, if_neg (not_not.2 rfl)]
      exact hnext
    · have hne : lastOr 0 l1 ≠ 0 := fun hz => hl ((lastOr_eq_zero hbefore).1 hz)
      obtain ⟨p, hp, hpnext⟩ := hbefore.last_next hl
      rw [DMem.setNextIf, if_pos hne] at hnext
      rw [if_pos hne, DMem.load_ok hp, ok_bind, ASSERT_bind (show p.next = a from hpnext)]
      exact hnext
  have hdelNext : delNext mem a ⟨e, headOr l2 0, lastOr 0 l1⟩ = .ok mem' := by
    rw [delNext]
    dsimp only
    cases l2 with
    | nil =>
      rw [headOr, if_neg (not_not.2 rfl)]
      exact hprev
    | cons y l2 =>
      have hapart : y.1 ∉ addrs l1 := by
        have hnodup := h.nodup_list
        rw [addrs_append] at hnodup
        exact fun hm => (nodup_append.1 hnodup).2.2 y.1 hm y.1 (by simp) rfl
      have hy : mem y.1 = some ⟨y.2, headOr l2 0, a⟩ := (hframe _ hapart).trans hafter.2.1
      rw [headOr, DMem.setPrevIf, if_pos hafter.1] at hprev
      rw [headOr, if_pos hafter.1, DMem.load_ok hy, ok_bind, ASSERT_bind rfl]
      exact hprev
  refine ⟨_, ?_, hholds⟩
  have hfirst : s.curmemlistp = a → lastOr 0 l1 = 0 := fun he => by
    rw [hhead.1 he.symm]
    rfl
  rw [memlistDel, hfound, ok_bind, ASSERT_bind rfl, hload, ok_bind, ASSERT_bind hfirst, hdelPrev, ok_bind, hdelNext, ok_bind]
  simp only [eq_comm]

end

/-! ## Runs -/

inductive MemlistOp
  | addSpan (address bytes : Nat)
  | deleteSpan (address bytes : Nat)
  | insert (new : Nat)
  | del (memlistp : Nat)

/-- The state after an operation. -/
def MemlistOp.exec (fuel : Nat) (s : Memlists) : MemlistOp → Except Fault Memlists
  | .addSpan address bytes => do
    let r ← memlistAddSpan fuel s address bytes
    .ok r.2
  | .deleteSpan address bytes => do
    let r ← memlistDeleteSpan fuel s address bytes
    .ok r.2
  | .insert new => memlistInsert fuel s new
  | .del memlistp => memlistDel fuel s memlistp

/-- What callers may ask for: spans not empty and not wrapping, and to insert a node that holds one. -/
def MemlistOp.Legal (s : Memlists) : MemlistOp → Prop
  | .addSpan address bytes => 0 < bytes ∧ address + bytes < 2 ^ 64
  | .deleteSpan address bytes => 0 < bytes ∧ address + bytes < 2 ^ 64
  | .insert new => ∀ l fl, Holds s l fl → ∃ e, e.Valid ∧ Loose s l fl new e
  | .del _ => True

/-- The two operations on spans. -/
def MemlistOp.IsSpan : MemlistOp → Prop
  | .addSpan _ _ => True
  | .deleteSpan _ _ => True
  | _ => False

/-- The states that operations lead to, with other users of the free list in between. -/
inductive Reaches (allowed : MemlistOp → Prop) (s₀ : Memlists) : Memlists → Prop
  | start : Reaches allowed s₀ s₀
  | op {s s' : Memlists} (o : MemlistOp) (fuel : Nat) : Reaches allowed s₀ s → allowed o → o.Legal s →
      (∀ l fl, Holds s l fl → l.length < fuel) → o.exec fuel s = .ok s' → Reaches allowed s₀ s'
  | other {s s' : Memlists} {l : List (Nat × Span)} {fl fl' : List Nat} : Reaches allowed s₀ s → Holds s l fl → Holds s' l fl' →
      Reaches allowed s₀ s'

/-- `memlist_insert` returns if the element is disjoint from the list, and adds its addresses. -/
def InsertOk (fuel : Nat) (s : Memlists) (l : List (Nat × Span)) (fl : List Nat) (new : Nat) : Prop :=
  ∀ e, Loose s l fl new e → (Disjoint (denote l) (Finset.Ico e.mlAddress e.stop) → ∃ s', memlistInsert fuel s new = .ok s') ∧
    ∀ s', memlistInsert fuel s new = .ok s' →
      ∃ l', Holds s' l' fl ∧ Ordered 0 l' ∧ denote l' = denote l ∪ Finset.Ico e.mlAddress e.stop

/-- `memlist_del` returns if the element is on the list, and its addresses are gone. -/
def DelOk (fuel : Nat) (s : Memlists) (l : List (Nat × Span)) (fl : List Nat) (memlistp : Nat) : Prop :=
  (memlistp ∉ addrs l → memlistDel fuel s memlistp = .error .assert) ∧
  ∀ e, (memlistp, e) ∈ l → ∃ s' l', memlistDel fuel s memlistp = .ok s' ∧ Holds s' l' fl ∧ Ordered 0 l' ∧
    denote l' = denote l \ Finset.Ico e.mlAddress e.stop

/-- What an operation has to do, on the list `l` with the free list `fl`. -/
def MemlistOp.Correct (fuel : Nat) (s : Memlists) (l : List (Nat × Span)) (fl : List Nat) : MemlistOp → Prop
  | .addSpan address bytes => AddSpanTo 0 l fl address bytes (memlistAddSpan fuel s address bytes)
  | .deleteSpan address bytes => DeleteSpanFrom 0 l fl address bytes (memlistDeleteSpan fuel s address bytes)
  | .insert new => InsertOk fuel s l fl new
  | .del memlistp => DelOk fuel s l fl memlistp

/-- A list that is not empty, or an operation other than `memlist_insert`. -/
def MemlistOp.HasHead (l : List (Nat × Span)) : MemlistOp → Prop
  | .insert _ => l ≠ []
  | _ => True

section
variable {s : Memlists} {l : List (Nat × Span)} {fl : List Nat} {fuel : Nat}

lemma Holds.unique {l' : List (Nat × Span)} {fl' : List Nat} (h : Holds s l fl) (h' : Holds s l' fl') : l = l' :=
  h.linked.unique h'.linked (h.head.symm.trans h'.head)

lemma insert_correct {new : Nat} {e : Span} (h : Holds s l fl) (ho : Ordered 0 l) (hnew : Loose s l fl new e) (he : e.Valid) (hl : l ≠ [])
    (hfuel : l.length < fuel) : InsertOk fuel s l fl new := by
  intro e' hnew'
  obtain ⟨p, q, hstored⟩ := hnew.stored
  obtain ⟨p', q', hstored'⟩ := hnew'.stored
  have hsame := hstored.symm.trans hstored'
  simp only [Option.some.injEq, DNode.mk.injEq] at hsame
  obtain rfl := hsame.1
  have hrun : memlistInsert fuel s new = insertLoop s new e.mlAddress e.stop fuel (lastOr 0 ([] : List (Nat × Span))) (headOr l 0) := by
    rw [memlistInsert, DMem.load_ok hstored, ok_bind, h.head]
    dsimp only
    rw [he.mlEnd]
    rfl
  have h' : Holds s ([] ++ l) fl := h
  rw [hrun]
  rcases insertLoop_ok h' ho hnew he hl (by simp) hfuel with ⟨_, s', l', hok, hholds, horder, hdenote⟩ | ⟨hover, hpanic⟩
  · refine ⟨fun _ => ⟨s', hok⟩, fun s'' hs'' => ⟨l', ?_, horder, hdenote⟩⟩
    rw [hok] at hs''
    exact Except.ok.inj hs'' ▸ hholds
  · refine ⟨fun hd => absurd hd hover, fun s'' hs'' => ?_⟩
    rw [hpanic] at hs''
    exact absurd hs'' (by simp)

lemma insert_incorrect {new : Nat} {e : Span} (h : Holds s [] fl) (hnew : Loose s [] fl new e) (he : e.Valid) (hfuel : 0 < fuel) :
    ¬InsertOk fuel s [] fl new := by
  intro hok
  obtain ⟨s', hs', hholds⟩ := memlistInsert_empty h hnew hfuel
  obtain ⟨l', hholds', _, hdenote⟩ := (hok e hnew).2 s' hs'
  obtain rfl := hholds.unique hholds'
  have hin : e.mlAddress ∈ denote [] ∪ Finset.Ico e.mlAddress e.stop :=
    Finset.mem_union_right _ (Finset.mem_Ico.2 ⟨le_refl _, Nat.lt_add_of_pos_right he.1⟩)
  rw [← hdenote] at hin
  simp [denote] at hin

lemma del_correct {memlistp : Nat} (h : Holds s l fl) (ho : Ordered 0 l) (hfuel : l.length < fuel) : DelOk fuel s l fl memlistp := by
  constructor
  · intro hout
    have h' : Holds s ([] ++ l) fl := h
    rw [memlistDel, h.head, onListLoop_ok h' hfuel, ok_bind, decide_eq_false hout]
    rfl
  · intro e he
    obtain ⟨l1, l2, rfl⟩ := append_of_mem he
    obtain ⟨s', hdone, hholds⟩ := memlistDel_ok h hfuel
    refine ⟨s', _, hdone, hholds, ho.erase, ?_⟩
    have haround : denote (l1 ++ (memlistp, e) :: l2) \ Finset.Ico e.mlAddress (e.mlAddress + e.mlSize) = _ :=
      denote_around ho (le_refl _) (le_refl _)
    rw [show e.stop = e.mlAddress + e.mlSize from rfl, haround, denote_append, Finset.Ico_eq_empty (by omega),
      Finset.Ico_eq_empty (by rw [Span.stop]; omega), Finset.empty_union, Finset.empty_union]

variable {k : Nat}

/-- An operation on a list in order: it keeps it in order whatever it is. -/
lemma MemlistOp.exec_ordered {s' : Memlists} {o : MemlistOp} (hk : k ≤ 1) (h : Holds s l fl) (ho : Ordered k l)
    (hspan : o.IsSpan ∨ k = 0) (hlegal : o.Legal s) (hfuel : l.length < fuel) (hexec : o.exec fuel s = .ok s') :
    ∃ l' fl', Holds s' l' fl' ∧ Ordered k l' := by
  cases o with
  | addSpan address bytes =>
    obtain ⟨r, s'', l', fl', hrun, hholds, hout⟩ := memlistAddSpan_ok h ho hk hlegal.1 hlegal.2 hfuel
    rw [MemlistOp.exec, hrun, ok_bind] at hexec
    exact ⟨l', fl', Except.ok.inj hexec ▸ hholds, hout.ordered⟩
  | deleteSpan address bytes =>
    obtain ⟨r, s'', l', fl', hrun, hholds, hout⟩ := memlistDeleteSpan_ok h ho hk hlegal.1 hlegal.2 hfuel
    rw [MemlistOp.exec, hrun, ok_bind] at hexec
    exact ⟨l', fl', Except.ok.inj hexec ▸ hholds, hout.ordered⟩
  | insert new =>
    obtain rfl : k = 0 := hspan.resolve_left id
    obtain ⟨e, he, hnew⟩ := hlegal l fl h
    by_cases hl : l = []
    · subst hl
      obtain ⟨s'', hs'', hholds⟩ := memlistInsert_empty h hnew hfuel
      rw [MemlistOp.exec, hs''] at hexec
      exact ⟨[], fl, Except.ok.inj hexec ▸ hholds, ho⟩
    · obtain ⟨l', hholds, horder, _⟩ := (insert_correct h ho hnew he hl hfuel e hnew).2 s' hexec
      exact ⟨l', fl, hholds, horder⟩
  | del memlistp =>
    obtain rfl : k = 0 := hspan.resolve_left id
    obtain ⟨hout, hin⟩ : DelOk fuel s l fl memlistp := del_correct h ho hfuel
    by_cases hmem : memlistp ∈ addrs l
    · obtain ⟨x, hx, rfl⟩ := mem_map.1 hmem
      obtain ⟨s'', l', hdone, hholds, horder, _⟩ := hin x.2 hx
      rw [MemlistOp.exec, hdone] at hexec
      exact ⟨l', fl, Except.ok.inj hexec ▸ hholds, horder⟩
    · rw [MemlistOp.exec, hout hmem] at hexec
      exact absurd hexec (by simp)

lemma Reaches.ordered {allowed : MemlistOp → Prop} {s0 : Memlists} (hk : k ≤ 1) (hspan : ∀ o, allowed o → o.IsSpan ∨ k = 0)
    (h0 : ∃ l fl, Holds s0 l fl ∧ Ordered k l) (hr : Reaches allowed s0 s) : ∃ l fl, Holds s l fl ∧ Ordered k l := by
  induction hr with
  | start => exact h0
  | op o fuel _ hallowed hlegal hfuel hexec ih =>
    obtain ⟨l, fl, h, ho⟩ := ih
    exact o.exec_ordered hk h ho (hspan o hallowed) hlegal (hfuel l fl h) hexec
  | other _ hholds hholds' ih =>
    obtain ⟨l, fl, h, ho⟩ := ih
    obtain rfl := h.unique hholds
    exact ⟨_, _, hholds', ho⟩

end

/-- **Memory lists.** Any sequence of operations keeps the list linked and in order, and the next one does what it has
to exactly if it is not a `memlist_insert` on the empty list. -/
theorem memlist_operations_correct_iff (s₀ : Memlists) (l0 : List (Nat × Span)) (fl0 : List Nat) (h₀ : Holds s₀ l0 fl0) (ho : Ordered 0 l0) :
    (∀ s, Reaches (fun _ => True) s₀ s → ∃ l fl, Holds s l fl ∧ Ordered 0 l ∧
      ∀ o : MemlistOp, o.Legal s → ∀ fuel, l.length < fuel → (o.Correct fuel s l fl ↔ o.HasHead l)) ∧
    (l0 = [] → ∀ s, Reaches MemlistOp.IsSpan s₀ s → ∃ l fl, Holds s l fl ∧ Ordered 1 l) := by
  constructor
  · intro s hs
    obtain ⟨l, fl, h, horder⟩ := hs.ordered (Nat.zero_le 1) (fun _ _ => .inr rfl) ⟨l0, fl0, h₀, ho⟩
    refine ⟨l, fl, h, horder, fun o hlegal fuel hfuel => ?_⟩
    cases o with
    | addSpan address bytes => exact iff_of_true (memlistAddSpan_ok h horder (Nat.zero_le 1) hlegal.1 hlegal.2 hfuel) trivial
    | deleteSpan address bytes => exact iff_of_true (memlistDeleteSpan_ok h horder (Nat.zero_le 1) hlegal.1 hlegal.2 hfuel) trivial
    | del memlistp => exact iff_of_true (del_correct h horder hfuel) trivial
    | insert new =>
      obtain ⟨e, he, hnew⟩ := hlegal l fl h
      constructor
      · rintro hok rfl
        exact insert_incorrect h hnew he hfuel hok
      · exact fun hl => insert_correct h horder hnew he hl hfuel
  · rintro rfl s hs
    exact hs.ordered (le_refl 1) (fun o ho => .inl ho) ⟨[], fl0, h₀, ⟨by simp, .nil⟩⟩

/-- An empty list, no free node, and an element of a caller at 64. -/
def emptyMemlist : Memlists := ⟨fun a => if a = 64 then some ⟨⟨4096, 4096⟩, 0, 0⟩ else none, 0, 0⟩

/-- Two elements, at 64 and at 96. -/
def twoMemlist : Memlists :=
  ⟨fun a => if a = 64 then some ⟨⟨4096, 4096⟩, 96, 0⟩ else if a = 96 then some ⟨⟨16384, 4096⟩, 0, 64⟩ else none, 64, 0⟩

theorem memlist_operations_correct_iff_two : Holds twoMemlist [(64, ⟨4096, 4096⟩), (96, ⟨16384, 4096⟩)] [] ∧
    ∀ s, Reaches (fun _ => True) twoMemlist s → ∃ l fl, Holds s l fl ∧ Ordered 0 l ∧
      ∀ o : MemlistOp, o.Legal s → ∀ fuel, l.length < fuel → (o.Correct fuel s l fl ↔ o.HasHead l) := by
  have hholds : Holds twoMemlist [(64, ⟨4096, 4096⟩), (96, ⟨16384, 4096⟩)] [] :=
    ⟨⟨by decide, rfl, by decide, rfl, trivial⟩, rfl, rfl, by decide⟩
  exact ⟨hholds, (memlist_operations_correct_iff twoMemlist _ [] hholds ⟨by simp [Span.Valid, Span.stop], by decide⟩).1⟩

/-- The element is on no list; `memlist_insert` returns, and the list is still empty. -/
theorem insert_on_empty_lost : Holds emptyMemlist [] [] ∧ Loose emptyMemlist [] [] 64 ⟨4096, 4096⟩ ∧
      ∃ s', memlistInsert 1 emptyMemlist 64 = .ok s' ∧ s'.curmemlistp = 0 ∧
        ∀ l' fl', Holds s' l' fl' → denote l' ≠ denote [] ∪ Finset.Ico 4096 8192 := by
  have hempty : Holds emptyMemlist [] [] := ⟨trivial, rfl, rfl, by simp⟩
  have hloose : Loose emptyMemlist [] [] 64 ⟨4096, 4096⟩ := ⟨by decide, ⟨0, 0, rfl⟩, by simp, by simp⟩
  obtain ⟨s', hs', hholds⟩ := memlistInsert_empty hempty hloose Nat.zero_lt_one
  refine ⟨hempty, hloose, s', hs', hholds.head, fun l' fl' hholds' => ?_⟩
  obtain rfl := hholds.unique hholds'
  decide +kernel

end Unleashed.Kernel
