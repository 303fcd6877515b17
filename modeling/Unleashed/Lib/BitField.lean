import Mathlib

/-!
# Bit fields of a word

A field of `len` bits at position `low` is read by a shift and a mask and written by a mask and a shift. The lemmas
turn both into arithmetic, where `omega` works.
-/

namespace Unleashed.Lib.BitField

/-- `x & (align - 1)`. -/
def phase (x align : Nat) : Nat := x &&& (align - 1)

/-- The field of `len` bits at `low`. -/
def decode (x low len : Nat) : Nat := phase (x >>> low) (1 <<< len)

/-- `x` as a field of `len` bits at `low`; higher bits of `x` are dropped. -/
def encode (x low len : Nat) : Nat := phase x (1 <<< len) <<< low

lemma phase_eq (x len : Nat) : phase x (1 <<< len) = x % 2 ^ len := by
  rw [phase, Nat.one_shiftLeft, Nat.and_two_pow_sub_one_eq_mod]

lemma decode_eq (x low len : Nat) : decode x low len = x / 2 ^ low % 2 ^ len := by
  rw [decode, phase_eq, Nat.shiftRight_eq_div_pow]

lemma encode_eq (x low len : Nat) : encode x low len = x % 2 ^ len * 2 ^ low := by
  rw [encode, phase_eq, Nat.shiftLeft_eq]

lemma encode_lt (x low len : Nat) : encode x low len < 2 ^ (low + len) := by
  rw [encode_eq, pow_add, mul_comm (2 ^ low)]
  exact Nat.mul_lt_mul_of_pos_right (Nat.mod_lt _ (by positivity)) (by positivity)

/-- A field above bit `low` and a word below it do not interfere. -/
lemma encode_or (x len : Nat) {low y : Nat} (hy : y < 2 ^ low) : encode x low len ||| y = x % 2 ^ len * 2 ^ low + y := by
  rw [encode_eq, mul_comm, Nat.two_pow_add_eq_or_of_lt hy]

end Unleashed.Lib.BitField
