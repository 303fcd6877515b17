import Mathlib.Data.List.Range
import Mathlib.Data.List.Nodup
import Mathlib.Data.Finset.Card
import Mathlib.Order.Interval.Finset.Nat

/-!
# Combinations in colexicographic order

The combinations of `n` numbers below `m`, as sorted lists, in the order in which the smallest number that can grow
grows first. One rule steps from a combination to the next.
-/

namespace Unleashed.Lib

open List

/-! ## Walks -/

section
variable {α : Type*} {next : α → Option α}

/-- Stepping by `next` visits the list and arrives at the last state. -/
def Walk (next : α → Option α) : Option α → List α → Option α → Prop
  | o, [], o' => o = o'
  | o, a :: l, o' => o = some a ∧ Walk next (next a) l o'

lemma Walk.append {o o' o'' : Option α} {l l' : List α} (h : Walk next o l o') (h' : Walk next o' l' o'') :
    Walk next o (l ++ l') o'' := by
  induction l generalizing o with
  | nil =>
    rw [show o = o' from h]
    exact h'
  | cons a l ih => exact ⟨h.1, ih h.2⟩

end

/-! ## The order -/

/-- The combination after `l`: the first number that can grow grows, those before it fall back. -/
def colexNext (m : Nat) : (pos : Nat) → List Nat → Option (List Nat)
  | _, [] => none
  | pos, a :: l => if a + 1 ≠ l.headD m then some ((a + 1) :: l) else (colexNext m (pos + 1) l).map (pos :: ·)

/-- The combinations of `n` numbers below `m`. -/
def colex : (n m : Nat) → List (List Nat)
  | 0, _ => [[]]
  | n + 1, m => (range' n (m - n)).flatMap fun t => (colex n t).map (· ++ [t])

/-- The combinations of `n + 1` numbers below `m`, the largest at least `lo`. -/
def colexFrom (n lo m : Nat) : List (List Nat) :=
  (range' lo (m - lo)).flatMap fun t => (colex n t).map (· ++ [t])

variable {n m lo : Nat} {l : List Nat} {t : Nat}

lemma length_le_of_sorted (hs : l.Pairwise (· < ·)) (hlt : ∀ a ∈ l, a < t) : l.length ≤ t := by
  have hcard : l.toFinset.card ≤ (Finset.range t).card :=
    Finset.card_le_card fun a ha => Finset.mem_range.2 (hlt a (mem_toFinset.1 ha))
  rwa [toFinset_card_of_nodup (hs.imp Nat.ne_of_lt), Finset.card_range] at hcard

lemma sorted_concat : (l ++ [t]).Pairwise (· < ·) ↔ l.Pairwise (· < ·) ∧ ∀ a ∈ l, a < t := by
  rw [pairwise_append]
  simp

lemma mem_colex : l ∈ colex n m ↔ l.length = n ∧ l.Pairwise (· < ·) ∧ ∀ a ∈ l, a < m := by
  induction n generalizing l m with
  | zero =>
    rw [colex, mem_singleton]
    constructor
    · rintro rfl
      exact ⟨rfl, List.Pairwise.nil, fun _ h => absurd h not_mem_nil⟩
    · rintro ⟨h, -⟩
      exact eq_nil_of_length_eq_zero h
  | succ n ih =>
    rw [colex, mem_flatMap]
    constructor
    · rintro ⟨t, ht, hl⟩
      obtain ⟨l', hl', rfl⟩ := mem_map.1 hl
      obtain ⟨hlen, hs, hlt⟩ := ih.1 hl'
      have htm := mem_range'_1.1 ht
      refine ⟨by rw [length_append, hlen, length_singleton], sorted_concat.2 ⟨hs, hlt⟩, fun a ha => ?_⟩
      rcases mem_append.1 ha with h | h
      · have := hlt a h
        omega
      · have := mem_singleton.1 h
        omega
    · rintro ⟨hlen, hs, hlt⟩
      obtain ⟨l', t, rfl⟩ : ∃ l' t, l = l' ++ [t] := by
        rcases eq_nil_or_concat' l with rfl | h
        · exact absurd hlen (by simp)
        · exact h
      obtain ⟨hs', hlt'⟩ := sorted_concat.1 hs
      have hlen' : l'.length = n := by simpa using hlen
      have hn := length_le_of_sorted hs' hlt'
      have htm := hlt t (by simp)
      refine ⟨t, mem_range'_1.2 ⟨by omega, by omega⟩, mem_map.2 ⟨l', ih.2 ⟨hlen', hs', hlt'⟩, rfl⟩⟩

lemma mem_colexFrom : l ∈ colexFrom n lo m ↔
    ∃ l' t, l = l' ++ [t] ∧ l'.length = n ∧ l.Pairwise (· < ·) ∧ lo ≤ t ∧ t < m := by
  rw [colexFrom, mem_flatMap]
  constructor
  · rintro ⟨t, ht, hl⟩
    obtain ⟨l', hl', rfl⟩ := mem_map.1 hl
    obtain ⟨hlen, hs, hlt⟩ := mem_colex.1 hl'
    have htm := mem_range'_1.1 ht
    exact ⟨l', t, rfl, hlen, sorted_concat.2 ⟨hs, hlt⟩, htm.1, by omega⟩
  · rintro ⟨l', t, rfl, hlen, hs, hlo, htm⟩
    obtain ⟨hs', hlt⟩ := sorted_concat.1 hs
    exact ⟨t, mem_range'_1.2 ⟨hlo, by omega⟩, mem_map.2 ⟨l', mem_colex.2 ⟨hlen, hs', hlt⟩, rfl⟩⟩

/-- Combinations with different largest numbers are different. -/
lemma nodup_blocks (f : Nat → List (List Nat)) (hf : ∀ t, (f t).Nodup) (s k : Nat) :
    ((range' s k).flatMap fun t => (f t).map (· ++ [t])).Nodup := by
  rw [nodup_flatMap]
  refine ⟨fun t _ => (hf t).map fun a b h => append_cancel_right h, ?_⟩
  apply List.Pairwise.imp _ (nodup_range' 1 (by decide) : (range' s k).Nodup)
  intro t u hne l ht hu
  obtain ⟨a, -, rfl⟩ := mem_map.1 ht
  obtain ⟨b, -, hb⟩ := mem_map.1 hu
  exact hne (append_inj_right' hb rfl |> singleton_inj.1).symm

lemma nodup_colex : (colex n m).Nodup := by
  induction n generalizing m with
  | zero => exact nodup_singleton []
  | succ n ih => exact nodup_blocks (colex n) (fun _ => ih) n (m - n)

lemma nodup_colexFrom : (colexFrom n lo m).Nodup := nodup_blocks (colex n) (fun _ => nodup_colex) lo (m - lo)

/-! ## Walking through the combinations -/

/-- Where a walk goes after the last combination with largest number `t`. -/
def blockEnd (n t m : Nat) : Option (List Nat) := if t + 1 ≠ m then some (range n ++ [t + 1]) else none

lemma colexNext_concat (l : List Nat) (t m pos : Nat) : colexNext m pos (l ++ [t]) =
    (colexNext t pos l).elim (if t + 1 ≠ m then some (range' pos l.length ++ [t + 1]) else none) (some <| · ++ [t]) := by
  induction l generalizing pos with
  | nil => rfl
  | cons a l ih =>
    have hhead : (l ++ [t]).headD m = l.headD t := by cases l <;> rfl
    rw [cons_append, colexNext, hhead, colexNext]
    by_cases h : a + 1 ≠ l.headD t
    · rw [if_pos h, if_pos h]
      rfl
    · rw [if_neg h, if_neg h, ih]
      cases colexNext t (pos + 1) l with
      | some l' => rfl
      | none =>
        rw [Option.elim_none, Option.map_none, Option.elim_none]
        split_ifs <;> rfl

/-- A walk below `t` is a walk below `m` with the largest number `t`. -/
lemma Walk.concat {o : Option (List Nat)} {l : List (List Nat)} (h : Walk (colexNext t 0) o l none)
    (hlen : ∀ a ∈ l, a.length = n) :
    Walk (colexNext m 0) (o.elim (blockEnd n t m) (some <| · ++ [t])) (l.map (· ++ [t])) (blockEnd n t m) := by
  induction l generalizing o with
  | nil =>
    rw [show o = none from h]
    exact rfl
  | cons a l ih =>
    obtain ⟨rfl, hrest⟩ := h
    refine ⟨rfl, ?_⟩
    have hnext := colexNext_concat a t m 0
    rw [hlen a mem_cons_self, ← range_eq_range'] at hnext
    rw [hnext]
    exact ih hrest fun b hb => hlen b (mem_cons_of_mem a hb)

lemma walk_blocks (hblock : ∀ t, n ≤ t → Walk (colexNext t 0) (some (range n)) (colex n t) none)
    (hn : n ≤ lo) (hlo : lo < m) : Walk (colexNext m 0) (some (range n ++ [lo])) (colexFrom n lo m) none := by
  obtain ⟨k, rfl⟩ := Nat.exists_eq_add_of_lt hlo
  -- on the number of largest numbers to come
  induction k generalizing lo with
  | zero =>
    have hwalk := (hblock lo hn).concat (m := lo + 0 + 1) fun a ha => (mem_colex.1 ha).1
    rw [blockEnd, if_neg (by omega)] at hwalk
    have hlist : colexFrom n lo (lo + 0 + 1) = (colex n lo).map (· ++ [lo]) := by
      rw [colexFrom, show lo + 0 + 1 - lo = 1 by omega, range'_one, flatMap_singleton]
    rw [hlist]
    exact hwalk
  | succ k ih =>
    have hwalk := (hblock lo hn).concat (m := lo + (k + 1) + 1) fun a ha => (mem_colex.1 ha).1
    rw [blockEnd, if_pos (by omega)] at hwalk
    have hlist : colexFrom n lo (lo + (k + 1) + 1) =
        (colex n lo).map (· ++ [lo]) ++ colexFrom n (lo + 1) (lo + 1 + k + 1) := by
      rw [colexFrom, show lo + (k + 1) + 1 - lo = k + 1 + 1 by omega, range'_succ, flatMap_cons, colexFrom,
        show lo + 1 + k + 1 - (lo + 1) = k + 1 by omega]
    rw [hlist]
    refine hwalk.append ?_
    rw [show lo + (k + 1) + 1 = lo + 1 + k + 1 by omega]
    exact ih (hn.trans (Nat.le_succ lo)) (by omega)

lemma walk_colex (h : n ≤ m) : Walk (colexNext m 0) (some (range n)) (colex n m) none := by
  induction n generalizing m with
  | zero => exact ⟨rfl, rfl⟩
  | succ n ih =>
    rw [range_succ]
    exact walk_blocks (fun t ht => ih ht) le_rfl h

/-- **The walk** from the first combination with largest number `lo` visits all later ones. -/
theorem walk_colexFrom (hn : n ≤ lo) (hlo : lo < m) :
    Walk (colexNext m 0) (some (range n ++ [lo])) (colexFrom n lo m) none :=
  walk_blocks (fun _ => walk_colex) hn hlo

end Unleashed.Lib
