import Mathlib

/-!
# Computations that can stop the system

A failed `VERIFY` panics, a failed `ASSERT` panics in a DEBUG kernel, and an access past a buffer is undefined. A
function with such checks is modelled in `Except Fault`; that it never stops is that it returns `.ok`.
-/

namespace Unleashed.Lib

/-- The ways in which a modelled function stops. -/
inductive Fault where
  /-- A failed `VERIFY`, or an explicit `panic`. -/
  | verify
  /-- A failed `ASSERT`. -/
  | assert
  /-- An access outside the buffer at hand. -/
  | bounds
  /-- A panic that can be tuned into a warning (`zfs_panic_recover`). -/
  | recover
  /-- The iteration bound of a modelled loop ran out. -/
  | fuel
deriving DecidableEq, Repr


def VERIFY (p : Prop) [Decidable p] : Except Fault Unit :=
  if p then .ok () else .error .verify

def ASSERT (p : Prop) [Decidable p] : Except Fault Unit :=
  if p then .ok () else .error .assert

variable {p : Prop} [Decidable p] {α β : Type}

@[simp] lemma VERIFY_eq_ok {u : Unit} : VERIFY p = .ok u ↔ p := by
  unfold VERIFY
  by_cases h : p <;> simp [h]

@[simp] lemma ASSERT_eq_ok {u : Unit} : ASSERT p = .ok u ↔ p := by
  unfold ASSERT
  by_cases h : p <;> simp [h]

lemma VERIFY_bind (h : p) (k : Unit → Except Fault α) : (VERIFY p >>= k) = k () := by
  rw [VERIFY_eq_ok.2 h]; rfl

lemma ASSERT_bind (h : p) (k : Unit → Except Fault α) : (ASSERT p >>= k) = k () := by
  rw [ASSERT_eq_ok.2 h]; rfl

/-- A bind returns exactly when both halves do. -/
lemma bind_returns {m : Except Fault α} {k : α → Except Fault β} {r : β} :
    m >>= k = .ok r ↔ ∃ v, m = .ok v ∧ k v = .ok r := by
  rcases m with e | v
  · constructor
    · intro h; cases h
    · rintro ⟨_, h, -⟩; cases h
  · constructor
    · intro h; exact ⟨v, rfl, h⟩
    · rintro ⟨_, h, hk⟩; cases h; exact hk

lemma ok_bind (a : α) (k : α → Except Fault β) : ((.ok a : Except Fault α) >>= k) = k a := rfl


end Unleashed.Lib
