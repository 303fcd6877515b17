import Unleashed.Kernel.Memlist.Links
import Unleashed.Lib.Segs

/-!
# Memory lists as sets of addresses

What the edits mean for the order and the set of addresses. `Ordered k` asks for a gap of at least `k` between
neighbours.
-/

namespace Unleashed.Kernel

open Lib List

/-- The end of a span, exact. -/
def Span.stop (e : Span) : Nat := e.mlAddress + e.mlSize

/-- The addresses of a list. -/
def denote (l : List (Nat × Span)) : Finset Nat := Segs.cover (l.map fun x => ⟨x.2.mlAddress, x.2.stop⟩)

/-- A span that is not empty and does not reach the last address. -/
def Span.Valid (e : Span) : Prop := 0 < e.mlSize ∧ e.stop < 2 ^ 64

structure Ordered (k : Nat) (l : List (Nat × Span)) : Prop where
  valid : ∀ x ∈ l, x.2.Valid
  sorted : l.Pairwise fun x y => x.2.stop + k ≤ y.2.mlAddress

lemma Span.Valid.mlEnd {e : Span} (h : e.Valid) : e.mlEnd = e.stop := Nat.mod_eq_of_lt h.2

lemma denote_append (l r : List (Nat × Span)) : denote (l ++ r) = denote l ∪ denote r := by
  rw [denote, map_append, Segs.cover_append]
  rfl

lemma denote_cons (x : Nat × Span) (l : List (Nat × Span)) : denote (x :: l) = Finset.Ico x.2.mlAddress x.2.stop ∪ denote l := rfl

lemma mem_denote {l : List (Nat × Span)} {v : Nat} : v ∈ denote l ↔ ∃ x ∈ l, x.2.mlAddress ≤ v ∧ v < x.2.stop := by
  rw [denote, Segs.mem_cover]
  simp

section
variable {k : Nat} {l l1 l2 : List (Nat × Span)} {x : Nat × Span}

lemma ordered_append : Ordered k (l1 ++ l2) ↔ Ordered k l1 ∧ Ordered k l2 ∧ ∀ y ∈ l1, ∀ z ∈ l2, y.2.stop + k ≤ z.2.mlAddress := by
  constructor
  · rintro ⟨hvalid, hsorted⟩
    obtain ⟨h1, h2, h⟩ := pairwise_append.1 hsorted
    exact ⟨⟨fun y hy => hvalid y (mem_append_left _ hy), h1⟩, ⟨fun y hy => hvalid y (mem_append_right _ hy), h2⟩, h⟩
  · rintro ⟨h1, h2, h⟩
    refine ⟨fun y hy => ?_, pairwise_append.2 ⟨h1.sorted, h2.sorted, h⟩⟩
    exact (mem_append.1 hy).elim (h1.valid y) (h2.valid y)

lemma ordered_cons : Ordered k (x :: l) ↔ x.2.Valid ∧ Ordered k l ∧ ∀ z ∈ l, x.2.stop + k ≤ z.2.mlAddress := by
  constructor
  · rintro ⟨hvalid, hsorted⟩
    obtain ⟨h, hl⟩ := pairwise_cons.1 hsorted
    exact ⟨hvalid x mem_cons_self, ⟨fun y hy => hvalid y (mem_cons_of_mem _ hy), hl⟩, h⟩
  · rintro ⟨hx, hl, h⟩
    exact ⟨forall_mem_cons.2 ⟨hx, hl.valid⟩, pairwise_cons.2 ⟨h, hl.sorted⟩⟩

/-- An element in its place, with what comes before and after. -/
lemma ordered_middle : Ordered k (l1 ++ x :: l2) ↔ Ordered k l1 ∧ Ordered k l2 ∧ x.2.Valid ∧ (∀ y ∈ l1, y.2.stop + k ≤ x.2.mlAddress) ∧
    (∀ z ∈ l2, x.2.stop + k ≤ z.2.mlAddress) ∧ ∀ y ∈ l1, ∀ z ∈ l2, y.2.stop + k ≤ z.2.mlAddress := by
  rw [ordered_append, ordered_cons]
  constructor
  · rintro ⟨h1, ⟨hx, h2, ha⟩, h⟩
    exact ⟨h1, h2, hx, fun y hy => h y hy x mem_cons_self, ha, fun y hy z hz => h y hy z (mem_cons_of_mem _ hz)⟩
  · rintro ⟨h1, h2, hx, hb, ha, h⟩
    refine ⟨h1, ⟨hx, h2, ha⟩, fun y hy z hz => ?_⟩
    rcases mem_cons.1 hz with rfl | hz
    · exact hb y hy
    · exact h y hy z hz

/-- Disjoint from a list is disjoint from each of its elements. -/
lemma disjoint_denote (ho : Ordered k l) {address bytes : Nat} (hb : 0 < bytes) :
    Disjoint (denote l) (Finset.Ico address (address + bytes)) ↔ ∀ x ∈ l, x.2.stop ≤ address ∨ address + bytes ≤ x.2.mlAddress := by
  rw [Finset.disjoint_left]
  constructor
  · intro h x hx
    by_contra hover
    have hpos := (ho.valid x hx).1
    have hstop : x.2.stop = x.2.mlAddress + x.2.mlSize := rfl
    refine h (mem_denote.2 ⟨x, hx, le_max_left x.2.mlAddress address, ?_⟩) (Finset.mem_Ico.2 ⟨le_max_right _ _, ?_⟩)
    · omega
    · omega
  · intro h v hv hspan
    obtain ⟨x, hx, hlo, hhi⟩ := mem_denote.1 hv
    rw [Finset.mem_Ico] at hspan
    have := h x hx
    omega

end

/-- What an operation on a span leaves: the given addresses, or no change if it fails. -/
structure Outcome (k : Nat) (l : List (Nat × Span)) (fl : List Nat) (succeeds : Prop) (result : Finset Nat) (r : SpanOp)
    (l' : List (Nat × Span)) (fl' : List Nat) : Prop where
  ordered : Ordered k l'
  nodes : (addrs l' ++ fl').Perm (addrs l ++ fl)
  succeeds_iff : r = .ok ↔ succeeds
  denotes : r = .ok → denote l' = result
  unchanged : r ≠ .ok → l' = l

variable {fl fl' : List Nat} {succeeds : Prop} {result : Finset Nat}

lemma Outcome.success {k : Nat} {l l' : List (Nat × Span)} (ho : Ordered k l')
    (hnodes : (addrs l' ++ fl').Perm (addrs l ++ fl)) (hs : succeeds) (hd : denote l' = result) : Outcome k l fl succeeds result .ok l' fl' :=
  ⟨ho, hnodes, ⟨fun _ => hs, fun _ => rfl⟩, fun _ => hd, fun h => absurd rfl h⟩

lemma Outcome.failure {k : Nat} {l : List (Nat × Span)} {r : SpanOp}
    (ho : Ordered k l) (hnodes : fl'.Perm fl) (hs : ¬succeeds) (hr : r ≠ .ok) : Outcome k l fl succeeds result r l fl' :=
  ⟨ho, hnodes.append_left _, ⟨fun h => absurd h hr, fun h => absurd h hs⟩, fun h => absurd h hr, fun _ => rfl⟩

end Unleashed.Kernel
