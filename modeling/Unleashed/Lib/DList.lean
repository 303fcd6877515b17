import Unleashed.Lib.Fault

/-!
# Doubly linked lists in memory

Nodes at addresses, each with a payload and the addresses of its neighbours, 0 at the ends. `Linked mem prev l q` is a
stretch of a list between the nodes `prev` and `q`. Code relinks a list by `setNextIf` and `setPrevIf`; what each does
to a stretch is all that the proofs need.
-/

namespace Unleashed.Lib

open Function List

structure DNode (β : Type) where
  payload : β
  (next prev : Nat)

abbrev DMem (β : Type) := Nat → Option (DNode β)

namespace DMem

variable {β : Type}

def load (mem : DMem β) (p : Nat) : Except Fault (DNode β) :=
  match mem p with
  | some n => .ok n
  | none => .error .bounds

def setPayload (mem : DMem β) (p : Nat) (e : β) : Except Fault (DMem β) := do
  let n ← mem.load p
  .ok (Function.update mem p (some { n with payload := e }))

def setNext (mem : DMem β) (p x : Nat) : Except Fault (DMem β) := do
  let n ← mem.load p
  .ok (Function.update mem p (some { n with next := x }))

def setPrev (mem : DMem β) (p x : Nat) : Except Fault (DMem β) := do
  let n ← mem.load p
  .ok (Function.update mem p (some { n with prev := x }))

/-- `if (p != NULL) p->next = x`. -/
def setNextIf (mem : DMem β) (p x : Nat) : Except Fault (DMem β) := if p ≠ 0 then mem.setNext p x else .ok mem

/-- `if (p != NULL) p->prev = x`. -/
def setPrevIf (mem : DMem β) (p x : Nat) : Except Fault (DMem β) := if p ≠ 0 then mem.setPrev p x else .ok mem

variable {mem : DMem β} {p : Nat} {n : DNode β}

lemma load_ok (h : mem p = some n) : mem.load p = .ok n := by
  rw [load, h]

lemma setPayload_ok (h : mem p = some n) (e : β) :
    mem.setPayload p e = .ok (update mem p (some { n with payload := e })) := by
  rw [setPayload, load_ok h, ok_bind]

lemma setNext_ok (h : mem p = some n) (x : Nat) : mem.setNext p x = .ok (update mem p (some { n with next := x })) := by
  rw [setNext, load_ok h, ok_bind]

lemma setPrev_ok (h : mem p = some n) (x : Nat) : mem.setPrev p x = .ok (update mem p (some { n with prev := x })) := by
  rw [setPrev, load_ok h, ok_bind]

end DMem

section
variable {β : Type} {mem mem' : DMem β}

/-- The address of the first node of a stretch that ends before `q`. -/
def headOr : List (Nat × β) → Nat → Nat
  | [], q => q
  | x :: _, _ => x.1

/-- The address of the last node of a stretch that starts after `p`. -/
def lastOr : Nat → List (Nat × β) → Nat
  | p, [] => p
  | _, x :: l => lastOr x.1 l

def addrs (l : List (Nat × β)) : List Nat := l.map Prod.fst

/-- A stretch of a list, between the nodes `prev` and `q`. -/
def Linked (mem : DMem β) : Nat → List (Nat × β) → Nat → Prop
  | _, [], _ => True
  | prev, x :: l, q => x.1 ≠ 0 ∧ mem x.1 = some ⟨x.2, headOr l q, prev⟩ ∧ Linked mem x.1 l q

@[simp] lemma addrs_nil : addrs ([] : List (Nat × β)) = [] := rfl
@[simp] lemma addrs_cons (x : Nat × β) (l : List (Nat × β)) : addrs (x :: l) = x.1 :: addrs l := rfl

@[simp] lemma addrs_append (l r : List (Nat × β)) : addrs (l ++ r) = addrs l ++ addrs r := map_append ..

lemma headOr_append (l r : List (Nat × β)) (q : Nat) : headOr (l ++ r) q = headOr l (headOr r q) := by
  cases l <;> rfl

lemma lastOr_append (p : Nat) (l r : List (Nat × β)) : lastOr p (l ++ r) = lastOr (lastOr p l) r := by
  induction l generalizing p with
  | nil => rfl
  | cons x l ih => exact ih x.1

variable {prev q : Nat} {l : List (Nat × β)}

/-- A stretch splits anywhere. -/
lemma linked_append {r : List (Nat × β)} :
    Linked mem prev (l ++ r) q ↔ Linked mem prev l (headOr r q) ∧ Linked mem (lastOr prev l) r q := by
  induction l generalizing prev with
  | nil => simp [Linked, lastOr]
  | cons x l ih => rw [cons_append, Linked, Linked, headOr_append, ih, lastOr, and_assoc, and_assoc]

/-- A stretch depends on its own nodes only. -/
lemma Linked.of_eq (hsame : ∀ a ∈ addrs l, mem' a = mem a) (h : Linked mem prev l q) : Linked mem' prev l q := by
  induction l generalizing prev with
  | nil => trivial
  | cons x l ih =>
    obtain ⟨hne, hx, hl⟩ := h
    exact ⟨hne, (hsame _ mem_cons_self).trans hx, ih (fun a ha => hsame a (mem_cons_of_mem _ ha)) hl⟩

lemma Linked.ne_zero (h : Linked mem prev l q) : ∀ a ∈ addrs l, a ≠ 0 := by
  induction l generalizing prev with
  | nil => simp
  | cons x l ih => simpa using ⟨h.1, by simpa using ih h.2.2⟩

/-- The node before a stretch's end points at what comes after. -/
lemma lastOr_mem (p : Nat) (hl : l ≠ []) : lastOr p l ∈ addrs l := by
  induction l generalizing p with
  | nil => exact absurd rfl hl
  | cons x l ih =>
    cases l with
    | nil => simp [lastOr]
    | cons y l => exact mem_cons_of_mem _ (ih x.1 (cons_ne_nil _ _))

/-- What is at the end of a stretch that starts at the head of a list. -/
lemma lastOr_eq_zero (h : Linked mem 0 l q) : lastOr 0 l = 0 ↔ l = [] := by
  constructor
  · intro hz
    by_contra hl
    exact h.ne_zero _ (lastOr_mem 0 hl) hz
  · rintro rfl
    rfl

/-- The last node of a stretch points at what comes after. -/
lemma Linked.last_next (h : Linked mem prev l q) (hl : l ≠ []) : ∃ n, mem (lastOr prev l) = some n ∧ n.next = q := by
  induction l generalizing prev with
  | nil => exact absurd rfl hl
  | cons x l ih =>
    cases l with
    | nil => exact ⟨_, h.2.1, rfl⟩
    | cons y l => exact ih h.2.2 (cons_ne_nil _ _)

/-- What is linked at an address is determined by memory. -/
lemma Linked.unique {l' : List (Nat × β)} (h : Linked mem prev l 0) (h' : Linked mem prev l' 0)
    (hhead : headOr l 0 = headOr l' 0) : l = l' := by
  induction l generalizing prev l' with
  | nil =>
    cases l' with
    | nil => rfl
    | cons x l' => exact absurd hhead.symm h'.1
  | cons x l ih =>
    cases l' with
    | nil => exact absurd hhead h.1
    | cons x' l' =>
      obtain ⟨_, hx, hl⟩ := h
      obtain ⟨_, hx', hl'⟩ := h'
      have haddr : x.1 = x'.1 := hhead
      rw [← haddr] at hx' hl'
      have hnode := hx.symm.trans hx'
      simp only [Option.some.injEq, DNode.mk.injEq] at hnode
      rw [ih hl hl' hnode.2.1, Prod.ext haddr hnode.1]

/-- Pointing the last node of a stretch elsewhere. -/
lemma Linked.setNext (h : Linked mem prev l q) (hl : l ≠ []) (hnodup : (addrs l).Nodup) (x : Nat) :
    ∃ mem', mem.setNext (lastOr prev l) x = .ok mem' ∧ Linked mem' prev l x ∧ ∀ a ∉ addrs l, mem' a = mem a := by
  induction l generalizing prev with
  | nil => exact absurd rfl hl
  | cons y l ih =>
    obtain ⟨hne, hy, hrest⟩ := h
    obtain ⟨hy', hnodup'⟩ := nodup_cons.1 hnodup
    cases l with
    | nil =>
      refine ⟨_, DMem.setNext_ok hy x, ⟨hne, update_self .., trivial⟩, fun a ha => update_of_ne ?_ ..⟩
      exact ne_of_not_mem_cons ha
    | cons z l =>
      obtain ⟨mem', hset, hlinked, hframe⟩ := ih hrest (cons_ne_nil _ _) hnodup'
      refine ⟨mem', hset, ⟨hne, (hframe _ hy').trans hy, hlinked⟩, fun a ha => hframe a ?_⟩
      exact fun hm => ha (mem_cons_of_mem _ hm)

/-- `if (prev != NULL) prev->next = x`; `prev` is the last node before. -/
lemma Linked.setNextIf (h : Linked mem 0 l q) (hnodup : (addrs l).Nodup) (x : Nat) :
    ∃ mem', mem.setNextIf (lastOr 0 l) x = .ok mem' ∧ Linked mem' 0 l x ∧ ∀ a ∉ addrs l, mem' a = mem a := by
  by_cases hl : l = []
  · subst hl
    exact ⟨mem, if_neg (not_not.2 rfl), trivial, fun _ _ => rfl⟩
  · rw [DMem.setNextIf, if_pos (fun hz => hl ((lastOr_eq_zero h).1 hz))]
    exact h.setNext hl hnodup x

/-- Pointing the first node of a stretch back elsewhere. -/
lemma Linked.setPrev {y : Nat × β} (h : Linked mem prev (y :: l) q) (hnodup : (addrs (y :: l)).Nodup)
    (x : Nat) : ∃ mem', mem.setPrev y.1 x = .ok mem' ∧ Linked mem' x (y :: l) q ∧ ∀ a, a ≠ y.1 → mem' a = mem a := by
  obtain ⟨hne, hy, hrest⟩ := h
  obtain ⟨hy', _⟩ := nodup_cons.1 hnodup
  have hframe : ∀ a, a ≠ y.1 → update mem y.1 (some ⟨y.2, headOr l q, x⟩) a = mem a := fun a ha => update_of_ne ha ..
  exact ⟨_, DMem.setPrev_ok hy x, ⟨hne, update_self .., hrest.of_eq fun a ha => hframe a (ne_of_mem_of_not_mem ha hy')⟩, hframe⟩

/-- `if (next != NULL) next->prev = x`; `next` is the first node after. -/
lemma Linked.setPrevIf (h : Linked mem prev l 0) (hnodup : (addrs l).Nodup) (x : Nat) :
    ∃ mem', mem.setPrevIf (headOr l 0) x = .ok mem' ∧ Linked mem' x l 0 ∧ ∀ a ∉ addrs l, mem' a = mem a := by
  cases l with
  | nil => exact ⟨mem, if_neg (not_not.2 rfl), trivial, fun _ _ => rfl⟩
  | cons y l =>
    obtain ⟨mem', hset, hlinked, hframe⟩ := h.setPrev hnodup x
    refine ⟨mem', ?_, hlinked, fun a ha => hframe a (ne_of_not_mem_cons ha)⟩
    rw [DMem.setPrevIf, if_pos (show headOr (y :: l) 0 ≠ 0 from h.1)]
    exact hset

end

end Unleashed.Lib
