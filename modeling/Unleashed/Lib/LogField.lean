import Mathlib.Algebra.Field.Basic
import Mathlib.Algebra.Field.Defs
import Mathlib.Algebra.Group.Hom.Defs
import Mathlib.Algebra.Group.Hom.Basic

/-!
# Fields given by a table of logarithms

An additive group in which every nonzero element is some number of applications of one additive map to a unit.
Multiplying by adding logarithms makes it a field.
-/

namespace Unleashed.Lib

open Function

/-- The multiplication by a generator, and the logarithm to its base. -/
structure LogTable (V : Type) [AddCommGroup V] where
  one : V
  step : V →+ V
  order : Nat
  log : V → Nat
  one_ne_zero : one ≠ 0
  log_le : ∀ v, log v ≤ order
  iterate_log : ∀ v, v ≠ 0 → step^[log v] one = v
  iterate_order : step^[order] one = one

namespace LogTable

variable {V : Type} [AddCommGroup V] [DecidableEq V] (T : LogTable V)

/-- Multiplication by adding logarithms. -/
def mul (a b : V) : V := if a = 0 then 0 else T.step^[T.log a] b

def inv (a : V) : V := if a = 0 then 0 else T.step^[T.order - T.log a] T.one

@[simp] lemma mul_zero (a : V) : T.mul a 0 = 0 := by
  unfold mul
  split
  · rfl
  · exact iterate_map_zero T.step _

@[simp] lemma zero_mul (b : V) : T.mul 0 b = 0 := if_pos rfl

omit [DecidableEq V] in
lemma iterate_comm (i j : Nat) (v : V) : T.step^[i] (T.step^[j] v) = T.step^[j] (T.step^[i] v) := by
  rw [← iterate_add_apply, ← iterate_add_apply, Nat.add_comm]

/-- A power of the generator multiplies by iterating. -/
lemma iterate_one_mul (i : Nat) (b : V) : T.mul (T.step^[i] T.one) b = T.step^[i] b := by
  by_cases hb : b = 0
  · rw [hb, mul_zero]
    exact (iterate_map_zero T.step _).symm
  · rw [← T.iterate_log b hb, T.iterate_comm i]
    unfold mul
    by_cases h : T.step^[i] T.one = 0
    · rw [if_pos h, h]
      exact (iterate_map_zero T.step _).symm
    · rw [if_neg h, T.iterate_comm, T.iterate_log _ h]

lemma mul_comm (a b : V) : T.mul a b = T.mul b a := by
  by_cases ha : a = 0
  · rw [ha, zero_mul, mul_zero]
  · by_cases hb : b = 0
    · rw [hb, zero_mul, mul_zero]
    · rw [← T.iterate_log a ha, ← T.iterate_log b hb, T.iterate_one_mul, T.iterate_one_mul, T.iterate_comm]

lemma mul_add (a b c : V) : T.mul a (b + c) = T.mul a b + T.mul a c := by
  unfold mul
  split
  · rw [add_zero]
  · exact iterate_map_add T.step _ b c

lemma mul_assoc (a b c : V) : T.mul (T.mul a b) c = T.mul a (T.mul b c) := by
  by_cases ha : a = 0
  · rw [ha, zero_mul, zero_mul, zero_mul]
  · by_cases hb : b = 0
    · rw [hb, mul_zero, zero_mul, mul_zero]
    · rw [← T.iterate_log a ha, ← T.iterate_log b hb, T.iterate_one_mul, ← iterate_add_apply,
        T.iterate_one_mul, T.iterate_one_mul, T.iterate_one_mul, iterate_add_apply]

lemma one_mul (b : V) : T.mul T.one b = b := T.iterate_one_mul 0 b

lemma mul_inv_cancel {a : V} (ha : a ≠ 0) : T.mul a (T.inv a) = T.one := by
  rw [mul, if_neg ha, inv, if_neg ha, ← iterate_add_apply, Nat.add_sub_cancel' (T.log_le a)]
  exact T.iterate_order

/-- The field of the table. -/
@[reducible] def field : Field V where
  toAddCommGroup := inferInstance
  mul := T.mul
  one := T.one
  inv := T.inv
  mul_assoc := T.mul_assoc
  mul_comm := T.mul_comm
  one_mul := T.one_mul
  mul_one a := (T.mul_comm a T.one).trans (T.one_mul a)
  zero_mul := T.zero_mul
  mul_zero := T.mul_zero
  left_distrib := T.mul_add
  right_distrib a b c := by
    show T.mul (a + b) c = T.mul a c + T.mul b c
    rw [T.mul_comm, T.mul_add, T.mul_comm c, T.mul_comm c]
  exists_pair_ne := ⟨T.one, 0, T.one_ne_zero⟩
  mul_inv_cancel _ := T.mul_inv_cancel
  inv_zero := if_pos rfl
  nnqsmul := _
  nnqsmul_def := fun _ _ => rfl
  qsmul := _
  qsmul_def := fun _ _ => rfl

end LogTable

end Unleashed.Lib
