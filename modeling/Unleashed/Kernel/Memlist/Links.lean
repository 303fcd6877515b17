import Unleashed.Kernel.Memlist.Basic

/-!
# What relinking does to a memory list

Every branch of the operations ends in one of a few edits of the list. Each edit is proved here for the code that
makes it, with the free list beside the list.
-/

namespace Unleashed.Kernel

open Lib Function List DMem

/-- The free list, through `ml_next`. -/
def FreeAt (mem : DMem Span) : Nat → List Nat → Prop
  | p, [] => p = 0
  | p, a :: fl => p = a ∧ a ≠ 0 ∧ ∃ n, mem a = some n ∧ FreeAt mem n.next fl

/-- The elements and the nodes of the free list, which share none. -/
structure Holds (s : Memlists) (l : List (Nat × Span)) (fl : List Nat) : Prop where
  linked : Linked s.mem 0 l 0
  head : s.curmemlistp = headOr l 0
  free : FreeAt s.mem s.memlistFreelist fl
  nodup : (addrs l ++ fl).Nodup

/-- A node that is on neither list. -/
structure Loose (s : Memlists) (l : List (Nat × Span)) (fl : List Nat) (a : Nat) (e : Span) : Prop where
  ne_zero : a ≠ 0
  stored : ∃ x y, s.mem a = some ⟨e, x, y⟩
  notMem : a ∉ addrs l
  notFree : a ∉ fl

section
variable {s : Memlists} {l l1 l2 : List (Nat × Span)} {fl : List Nat} {mem : DMem Span}

lemma FreeAt.of_eq {mem' : DMem Span} {p : Nat} (hsame : ∀ a ∈ fl, mem' a = mem a) (h : FreeAt mem p fl) : FreeAt mem' p fl := by
  induction fl generalizing p with
  | nil => exact h
  | cons a fl ih =>
    obtain ⟨hp, hne, n, hn, hrest⟩ := h
    exact ⟨hp, hne, n, (hsame a mem_cons_self).trans hn, ih (fun b hb => hsame b (mem_cons_of_mem _ hb)) hrest⟩

lemma Holds.nodup_list (h : Holds s l fl) : (addrs l).Nodup := (nodup_append.1 h.nodup).1

variable {a : Nat}

lemma Holds.disjoint (h : Holds s l fl) (ha : a ∈ addrs l) : a ∉ fl :=
  fun hf => (nodup_append.1 h.nodup).2.2 a ha a hf rfl

variable {y : Nat × Span}

/-- The head is the first element exactly if nothing comes before it. -/
lemma Holds.eq_head (h : Holds s (l1 ++ l2) fl) {l : List (Nat × Span)} (hl : l2 = y :: l) :
    y.1 = s.curmemlistp ↔ l1 = [] := by
  subst hl
  rw [h.head]
  cases l1 with
  | nil => simp [headOr]
  | cons x l1 =>
    have hnodup := h.nodup_list
    rw [cons_append, addrs_cons, addrs_append, addrs_cons, nodup_cons] at hnodup
    have hne : y.1 ≠ x.1 := fun he => hnodup.1 (by simp [he])
    simpa [headOr] using hne

variable {e : Span}

lemma Holds.load (h : Holds s (l1 ++ (a, e) :: l2) fl) : s.mem.load a = .ok ⟨e, headOr l2 0, lastOr 0 l1⟩ ∧ a ≠ 0 := by
  obtain ⟨_, hne, hstored, _⟩ := linked_append.1 h.linked
  exact ⟨load_ok hstored, hne⟩

lemma memlistGetOne_none (h : Holds s l []) : memlistGetOne s = .ok (0, s) := by
  have hnone : s.memlistFreelist = 0 := h.free
  rw [memlistGetOne, if_neg (not_not.2 hnone)]

lemma memlistGetOne_some (h : Holds s l (a :: fl)) :
    ∃ s' e, memlistGetOne s = .ok (a, s') ∧ Holds s' l fl ∧ Loose s' l fl a e := by
  obtain ⟨hlinked, hhead, ⟨hp, hne, n, hn, hfree⟩, hnodup⟩ := h
  obtain ⟨hl, hfl, hdisjoint⟩ := nodup_append.1 hnodup
  obtain ⟨ha, hfl⟩ := nodup_cons.1 hfl
  refine ⟨{ s with memlistFreelist := n.next }, n.payload, ?_, ⟨hlinked, hhead, hfree, ?_⟩, ⟨hne, ⟨_, _, hn⟩, ?_, ha⟩⟩
  · rw [memlistGetOne, if_pos (hp ▸ hne), hp, load_ok hn, ok_bind]
  · exact nodup_append.2 ⟨hl, hfl, fun b hb c hc => hdisjoint b hb c (mem_cons_of_mem _ hc)⟩
  · exact fun hm => hdisjoint a hm a mem_cons_self rfl

lemma memlistFreeOne_ok (h : Holds s l fl) (ha : Loose s l fl a e) :
    ∃ s', memlistFreeOne s a = .ok s' ∧ Holds s' l (a :: fl) ∧ s'.curmemlistp = s.curmemlistp ∧ ∀ b, b ≠ a → s'.mem b = s.mem b := by
  obtain ⟨x, y, hstored⟩ := ha.stored
  have hframe : ∀ b, b ≠ a → update s.mem a (some ⟨e, s.memlistFreelist, y⟩) b = s.mem b := fun b hb => update_of_ne hb ..
  refine ⟨⟨update s.mem a (some ⟨e, s.memlistFreelist, y⟩), s.curmemlistp, a⟩, ?_, ⟨?_, h.head, ?_, ?_⟩, rfl, hframe⟩
  · rw [memlistFreeOne, ASSERT_bind ha.ne_zero, setNext_ok hstored, ok_bind]
  · exact h.linked.of_eq fun b hb => hframe b (ne_of_mem_of_not_mem hb ha.notMem)
  · exact ⟨rfl, ha.ne_zero, _, update_self .., h.free.of_eq fun b hb => hframe b (ne_of_mem_of_not_mem hb ha.notFree)⟩
  · obtain ⟨hl, hfl, hdisjoint⟩ := nodup_append.1 h.nodup
    refine nodup_append.2 ⟨hl, nodup_cons.2 ⟨ha.notFree, hfl⟩, fun b hb c hc => ?_⟩
    rcases mem_cons.1 hc with rfl | hc
    · exact ne_of_mem_of_not_mem hb ha.notMem
    · exact hdisjoint b hb c hc

lemma setPayload_element (h : Holds s (l1 ++ (a, e) :: l2) fl) (e' : Span) :
    ∃ mem, s.mem.setPayload a e' = .ok mem ∧ Holds { s with mem } (l1 ++ (a, e') :: l2) fl ∧ ∀ b, b ≠ a → mem b = s.mem b := by
  obtain ⟨hbefore, hne, hstored, hafter⟩ := linked_append.1 h.linked
  have hnodup := h.nodup_list
  have hdisjoint := fun b (hb : b ∈ fl) (he : b = a) => h.disjoint (show a ∈ addrs (l1 ++ (a, e) :: l2) by simp) (he ▸ hb)
  rw [addrs_append, addrs_cons, nodup_append, nodup_cons] at hnodup
  have hframe : ∀ b, b ≠ a → update s.mem a (some ⟨e', headOr l2 0, lastOr 0 l1⟩) b = s.mem b := fun b hb => update_of_ne hb ..
  refine ⟨_, setPayload_ok hstored e', ⟨linked_append.2 ⟨?_, hne, update_self .., ?_⟩, ?_, ?_, ?_⟩, hframe⟩
  · exact hbefore.of_eq fun b hb => hframe b (hnodup.2.2 b hb a mem_cons_self)
  · exact hafter.of_eq fun b hb => hframe b (ne_of_mem_of_not_mem hb hnodup.2.1.1)
  · exact h.head.trans (by rw [headOr_append, headOr_append]; rfl)
  · exact h.free.of_eq fun b hb => hframe b (hdisjoint b hb)
  · have := h.nodup
    simpa using this

lemma Loose.setPayload (h : Holds s l fl) (ha : Loose s l fl a e) (e' : Span) :
    ∃ mem, s.mem.setPayload a e' = .ok mem ∧ Holds { s with mem } l fl ∧ Loose { s with mem } l fl a e' := by
  obtain ⟨x, y, hstored⟩ := ha.stored
  have hframe : ∀ b, b ≠ a → update s.mem a (some ⟨e', x, y⟩) b = s.mem b := fun b hb => update_of_ne hb ..
  refine ⟨_, setPayload_ok hstored e', ⟨?_, h.head, ?_, h.nodup⟩, ⟨ha.ne_zero, ⟨x, y, update_self ..⟩, ha.notMem, ha.notFree⟩⟩
  · exact h.linked.of_eq fun b hb => hframe b (ne_of_mem_of_not_mem hb ha.notMem)
  · exact h.free.of_eq fun b hb => hframe b (ne_of_mem_of_not_mem hb ha.notFree)

/-- A list with the loose node `a` linked in, from what its parts have become. -/
lemma Holds.link (h : Holds s (l1 ++ l2) fl) (ha : Loose s (l1 ++ l2) fl a e) {cur : Nat}
    (hbefore : Linked mem 0 l1 a) (hstored : mem a = some ⟨e, headOr l2 0, lastOr 0 l1⟩) (hafter : Linked mem a l2 0)
    (hcur : cur = headOr l1 a) (hframe : ∀ b, b ∉ addrs (l1 ++ l2) → b ≠ a → mem b = s.mem b) :
    Holds { s with mem, curmemlistp := cur } (l1 ++ (a, e) :: l2) fl where
  linked := linked_append.2 ⟨hbefore, ha.ne_zero, hstored, hafter⟩
  head := by
    rw [headOr_append]
    exact hcur
  free := h.free.of_eq fun b hb => hframe b (fun hm => h.disjoint hm hb) (ne_of_mem_of_not_mem hb ha.notFree)
  nodup := by
    have hnodup := h.nodup
    have hfresh := ha.notMem
    rw [addrs_append, append_assoc] at hnodup
    rw [addrs_append] at hfresh
    rw [addrs_append, addrs_cons, append_assoc, cons_append, nodup_middle]
    refine nodup_cons.2 ⟨?_, hnodup⟩
    rw [← append_assoc]
    exact not_mem_append hfresh ha.notFree

/-- `a` is written with its neighbours, and the element after it points back at it. -/
lemma Holds.spliceNext (h : Holds s (l1 ++ l2) fl) (ha : Loose s (l1 ++ l2) fl a e) :
    ∃ mem, setPrevIf (update s.mem a (some ⟨e, headOr l2 0, lastOr 0 l1⟩)) (headOr l2 0) a = .ok mem ∧
      Linked mem 0 l1 (headOr l2 0) ∧ mem a = some ⟨e, headOr l2 0, lastOr 0 l1⟩ ∧ Linked mem a l2 0 ∧
      ∀ b, b ∉ addrs (l1 ++ l2) → b ≠ a → mem b = s.mem b := by
  obtain ⟨hbefore, hafter⟩ := linked_append.1 h.linked
  have hnodup := h.nodup_list
  have hfresh := ha.notMem
  rw [addrs_append] at hnodup hfresh
  obtain ⟨_, hnodup2, hdisjoint⟩ := nodup_append.1 hnodup
  have ha2 : a ∉ addrs l2 := fun hm => hfresh (mem_append_right _ hm)
  have hkeep : ∀ b, b ≠ a → update s.mem a (some (⟨e, headOr l2 0, lastOr 0 l1⟩ : Memlist)) b = s.mem b :=
    fun b hb => update_of_ne hb ..
  have hafter' : Linked (update s.mem a (some ⟨e, headOr l2 0, lastOr 0 l1⟩)) (lastOr 0 l1) l2 0 :=
    hafter.of_eq fun b hb => hkeep b (ne_of_mem_of_not_mem hb ha2)
  obtain ⟨mem, hset, hlinked, hframe⟩ := hafter'.setPrevIf hnodup2 a
  refine ⟨mem, hset, hbefore.of_eq fun b hb => ?_, ?_, hlinked, fun b hb hba => ?_⟩
  · rw [hframe b fun hm => hdisjoint b hb b hm rfl, hkeep b (ne_of_mem_of_not_mem hb fun hm => hfresh (mem_append_left _ hm))]
  · rw [hframe a ha2, update_self]
  · rw [hframe b fun hm => hb (by rw [addrs_append]; exact mem_append_right _ hm), hkeep b hba]

lemma Holds.splice_head (h : Holds s l2 fl) (ha : Loose s l2 fl a e) :
    ∃ mem, setPrevIf (update s.mem a (some ⟨e, headOr l2 0, 0⟩)) (headOr l2 0) a = .ok mem ∧
      Holds { s with mem, curmemlistp := a } ((a, e) :: l2) fl := by
  have h' : Holds s ([] ++ l2) fl := h
  obtain ⟨mem, hset, _, hstored, hafter, hframe⟩ := h'.spliceNext ha
  exact ⟨mem, hset, h'.link ha trivial hstored hafter rfl hframe⟩

lemma Holds.splice (h : Holds s (l1 ++ l2) fl) (ha : Loose s (l1 ++ l2) fl a e) (hl : l1 ≠ []) :
    ∃ mem mem', setPrevIf (update s.mem a (some ⟨e, headOr l2 0, lastOr 0 l1⟩)) (headOr l2 0) a = .ok mem ∧
      mem.setNext (lastOr 0 l1) a = .ok mem' ∧ Holds { s with mem := mem' } (l1 ++ (a, e) :: l2) fl := by
  obtain ⟨mem, hset, hbefore, hstored, hafter, hframe⟩ := h.spliceNext ha
  have hnodup := h.nodup_list
  have hfresh := ha.notMem
  rw [addrs_append] at hnodup hfresh
  obtain ⟨hnodup1, _, hdisjoint⟩ := nodup_append.1 hnodup
  obtain ⟨mem', hnext, hlinked, hframe'⟩ := hbefore.setNext hl hnodup1 a
  have hcur : s.curmemlistp = headOr l1 a := by
    rw [h.head, headOr_append]
    cases l1 with
    | nil => exact absurd rfl hl
    | cons => rfl
  refine ⟨mem, mem', hset, hnext, h.link ha hlinked ?_ (hafter.of_eq fun b hb => ?_) hcur fun b hb hba => ?_⟩
  · rw [hframe' a fun hm => hfresh (mem_append_left _ hm)]
    exact hstored
  · exact hframe' b fun hm => hdisjoint b hm b hb rfl
  · rw [hframe' b fun hm => hb (by rw [addrs_append]; exact mem_append_left _ hm), hframe b hb hba]

/-- Before an element, the splice writes to it without a check. -/
lemma Holds.setPrevIf_eq (h : Holds s (l1 ++ y :: l2) fl) (mem : DMem Span) (x : Nat) :
    mem.setPrevIf (headOr (y :: l2) 0) x = mem.setPrev y.1 x :=
  if_pos (linked_append.1 h.linked).2.1

/-- The list with its last element pointing at the loose node `a`. -/
lemma Holds.spliceLast (h : Holds s l fl) (ha : Loose s l fl a e) (hl : l ≠ []) :
    ∃ mem, s.mem.setNext (lastOr 0 l) a = .ok mem ∧ mem a = s.mem a ∧
      Holds { s with mem := update mem a (some ⟨e, 0, lastOr 0 l⟩) } (l ++ [(a, e)]) fl := by
  obtain ⟨mem, hset, hlinked, hframe⟩ := h.linked.setNext hl h.nodup_list a
  have hkeep : ∀ b, b ≠ a → update mem a (some (⟨e, 0, lastOr 0 l⟩ : Memlist)) b = mem b := fun b hb => update_of_ne hb ..
  have hcur : s.curmemlistp = headOr l a := by
    rw [h.head]
    cases l with
    | nil => exact absurd rfl hl
    | cons => rfl
  have h' : Holds s (l ++ []) fl := by rwa [append_nil]
  have ha' : Loose s (l ++ []) fl a e := by rwa [append_nil]
  refine ⟨mem, hset, hframe a ha.notMem, h'.link ha' (hlinked.of_eq fun b hb => hkeep b (ne_of_mem_of_not_mem hb ha.notMem))
    (update_self ..) trivial hcur fun b hb hba => ?_⟩
  rw [hkeep b hba, hframe b (by rwa [append_nil] at hb)]

/-- An element goes: its neighbours point at one another. -/
lemma Holds.unlink (h : Holds s (l1 ++ (a, e) :: l2) fl) :
    ∃ mem mem', s.mem.setNextIf (lastOr 0 l1) (headOr l2 0) = .ok mem ∧ mem.setPrevIf (headOr l2 0) (lastOr 0 l1) = .ok mem' ∧
      Holds { s with mem := mem', curmemlistp := if a = s.curmemlistp then headOr l2 0 else s.curmemlistp } (l1 ++ l2) fl ∧
      Loose { s with mem := mem', curmemlistp := if a = s.curmemlistp then headOr l2 0 else s.curmemlistp } (l1 ++ l2) fl a e ∧
      (∀ b ∉ addrs l1, mem b = s.mem b) ∧ mem' a = s.mem a := by
  obtain ⟨hbefore, hne, hstored, hafter⟩ := linked_append.1 h.linked
  have hnodup := h.nodup_list
  have hfree := fun b (hb : b ∈ addrs (l1 ++ (a, e) :: l2)) => h.disjoint hb
  rw [addrs_append, addrs_cons] at hnodup hfree
  obtain ⟨hnodup1, hnodup2, hdisjoint⟩ := nodup_append.1 hnodup
  obtain ⟨ha2, hnodup2⟩ := nodup_cons.1 hnodup2
  have ha1 : a ∉ addrs l1 := fun hm => hdisjoint a hm a mem_cons_self rfl
  have hapart : ∀ b ∈ addrs l2, b ∉ addrs l1 := fun b hb hm => hdisjoint b hm b (mem_cons_of_mem _ hb) rfl
  obtain ⟨mem, hnext, hlinked1, hframe1⟩ := hbefore.setNextIf hnodup1 (headOr l2 0)
  have hafter' : Linked mem a l2 0 := hafter.of_eq fun b hb => hframe1 b (hapart b hb)
  obtain ⟨mem', hprev, hlinked2, hframe2⟩ := hafter'.setPrevIf hnodup2 (lastOr 0 l1)
  have hsame : mem' a = s.mem a := (hframe2 a ha2).trans (hframe1 a ha1)
  refine ⟨mem, mem', hnext, hprev, ⟨linked_append.2 ⟨hlinked1.of_eq fun b hb => hframe2 b fun hm => hapart b hm hb, hlinked2⟩, ?_, ?_, ?_⟩,
    ⟨hne, ⟨_, _, hsame.trans hstored⟩, ?_, hfree a (by simp)⟩, hframe1, hsame⟩
  · have hhead := h.eq_head (y := (a, e)) rfl
    have hcur := h.head
    rw [headOr_append] at hcur ⊢
    by_cases hl : l1 = []
    · rw [if_pos (hhead.2 hl), hl]
      rfl
    · rw [if_neg (mt hhead.1 hl)]
      cases l1 with
      | nil => exact absurd rfl hl
      | cons => exact hcur
  · refine h.free.of_eq fun b hb => ?_
    dsimp only
    rw [hframe2 b fun hm => hfree b (by simp [hm]) hb, hframe1 b fun hm => hfree b (by simp [hm]) hb]
  · have hall := h.nodup
    rw [addrs_append, addrs_cons, append_assoc, cons_append, nodup_middle, ← append_assoc, ← addrs_append] at hall
    exact (nodup_cons.1 hall).2
  · rw [addrs_append]
    exact not_mem_append ha1 ha2

end

end Unleashed.Kernel
