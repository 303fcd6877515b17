import Unleashed.Lib.Fault

/-!
# Counted loops

`for (i = lo; i < hi; i++)` over a state, with and without checks that can stop it, and the invariant rule for each.
-/

namespace Unleashed.Lib

open Nat

variable {σ : Type} {lo hi : Nat}

/-- `for (i = lo; i < hi; i++) body(i)`. -/
def forRange (lo hi : Nat) (body : Nat → σ → σ) (s : σ) : σ :=
  (List.range' lo (hi - lo)).foldl (fun s i => body i s) s

/-- `forRange` with a body that can stop. -/
def forRangeM (lo hi : Nat) (body : Nat → σ → Except Fault σ) (s : σ) : Except Fault σ :=
  (List.range' lo (hi - lo)).foldlM (fun s i => body i s) s

lemma forRange_of_le (h : hi ≤ lo) (body : Nat → σ → σ) (s : σ) : forRange lo hi body s = s := by
  rw [forRange, Nat.sub_eq_zero_of_le h]
  rfl

lemma forRangeM_of_le (h : hi ≤ lo) (body : Nat → σ → Except Fault σ) (s : σ) : forRangeM lo hi body s = .ok s := by
  rw [forRangeM, Nat.sub_eq_zero_of_le h]
  rfl

lemma forRange_succ (h : lo ≤ hi) (body : Nat → σ → σ) (s : σ) :
    forRange lo (hi + 1) body s = body hi (forRange lo hi body s) := by
  rw [forRange, Nat.succ_sub h, List.range'_1_concat, List.foldl_append, Nat.add_sub_cancel' h]
  rfl

lemma forRangeM_succ (h : lo ≤ hi) (body : Nat → σ → Except Fault σ) (s : σ) :
    forRangeM lo (hi + 1) body s = forRangeM lo hi body s >>= body hi := by
  rw [forRangeM, Nat.succ_sub h, List.range'_1_concat, List.foldlM_append, Nat.add_sub_cancel' h]
  simp [forRangeM]

/-- **The invariant rule.** -/
theorem forRange_rule (P : Nat → σ → Prop) {body : Nat → σ → σ} {s : σ} (hle : lo ≤ hi) (h : P lo s)
    (hstep : ∀ i s, lo ≤ i → i < hi → P i s → P (i + 1) (body i s)) : P hi (forRange lo hi body s) := by
  induction hi, hle using le_induction with
  | base => rwa [forRange_of_le le_rfl]
  | succ n hn ih =>
    rw [forRange_succ hn]
    apply hstep n _ hn (lt_succ_self n)
    exact ih fun i s h1 h2 => hstep i s h1 (lt_succ_of_lt h2)

/-- Two loops over independent states are one loop over both. -/
lemma forRange_prod {τ : Type} (f : Nat → σ → σ) (g : Nat → τ → τ) (s : σ × τ) :
    forRange lo hi (fun i s => (f i s.1, g i s.2)) s = (forRange lo hi f s.1, forRange lo hi g s.2) := by
  rcases le_total hi lo with h | h
  · rw [forRange_of_le h, forRange_of_le h, forRange_of_le h]
  · induction hi, h using le_induction with
    | base => rw [forRange_of_le le_rfl, forRange_of_le le_rfl, forRange_of_le le_rfl]
    | succ n hn ih => rw [forRange_succ hn, forRange_succ hn, forRange_succ hn, ih]

/-- **The invariant rule** for a loop that never stops early. -/
theorem forRangeM_rule (P : Nat → σ → Prop) {body : Nat → σ → Except Fault σ} {s : σ} (hle : lo ≤ hi)
    (h : P lo s) (hstep : ∀ i s, lo ≤ i → i < hi → P i s → ∃ s', body i s = .ok s' ∧ P (i + 1) s') :
    ∃ s', forRangeM lo hi body s = .ok s' ∧ P hi s' := by
  induction hi, hle using le_induction with
  | base => exact ⟨s, forRangeM_of_le le_rfl _ _, h⟩
  | succ n hn ih =>
    obtain ⟨s1, h₁, hP1⟩ := ih fun i s h1 h2 => hstep i s h1 (lt_succ_of_lt h2)
    obtain ⟨s2, h₂, hP2⟩ := hstep n s1 hn (lt_succ_self n) hP1
    exact ⟨s2, by rw [forRangeM_succ hn, h₁, ok_bind, h₂], hP2⟩

/-- A loop that only checks. -/
lemma forRangeM_check {body : Nat → Unit → Except Fault Unit} (hle : lo ≤ hi)
    (h : ∀ i, lo ≤ i → i < hi → body i () = .ok ()) : forRangeM lo hi body () = .ok () := by
  obtain ⟨_, heq, -⟩ := forRangeM_rule (fun _ _ => True) hle trivial fun i _ h1 h2 _ => ⟨(), h i h1 h2, trivial⟩
  exact heq

end Unleashed.Lib
