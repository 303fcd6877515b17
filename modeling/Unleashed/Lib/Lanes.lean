import Mathlib

/-!
# Words as eight bytes

The lanes of a 64-bit word are its bytes, the lowest first. A bit for each lane can be spread
over the lane by the difference of two shifts, as the borrow of one lane stops at the next.
-/

namespace Unleashed.Lib

open BitVec

/-- Byte `j` of a word. -/
def lane (w : BitVec 64) (j : Nat) : BitVec 8 := w.extractLsb' (8 * j) 8

/-- The word of eight bytes. -/
def ofLanes (f : Nat → BitVec 8) : BitVec 64 :=
  ofFnLE fun k : Fin 64 => (f (k / 8)).getLsbD (k % 8)

lemma getLsbD_lane (w : BitVec 64) (j : Nat) {i : Nat} (hi : i < 8) : (lane w j).getLsbD i = w.getLsbD (8 * j + i) := by
  rw [lane, getLsbD_extractLsb', decide_eq_true hi, Bool.true_and]

@[simp] lemma lane_ofLanes (f : Nat → BitVec 8) {j : Nat} (hj : j < 8) : lane (ofLanes f) j = f j := by
  apply BitVec.eq_of_getLsbD_eq
  intro i hi
  rw [getLsbD_lane _ _ hi, ofLanes, getLsbD_ofFnLE, dif_pos (by omega)]
  have h1 : (8 * j + i) / 8 = j := by omega
  have h2 : (8 * j + i) % 8 = i := by omega
  simp only [h1, h2]

lemma ofLanes_congr {f g : Nat → BitVec 8} (h : ∀ j < 8, f j = g j) : ofLanes f = ofLanes g := by
  unfold ofLanes
  congr 1
  funext k
  rw [h (k / 8) (Nat.div_lt_of_lt_mul k.isLt)]

@[simp] lemma lane_xor (w z : BitVec 64) (j : Nat) : lane (w ^^^ z) j = lane w j ^^^ lane z j :=
  extractLsb'_xor

@[simp] lemma lane_zero (j : Nat) : lane 0 j = 0 := extractLsb'_zero

/-- The `c` lowest bits of lane `j` are set where `b j`. -/
def lanes (c : Nat) (b : Nat → Bool) : BitVec 64 :=
  ofFnLE fun k : Fin 64 => decide ((k : Nat) % 8 < c) && b (k / 8)

lemma getLsbD_lanes (c : Nat) (b : Nat → Bool) {k : Nat} (h : k < 64) :
    (lanes c b).getLsbD k = (decide (k % 8 < c) && b (k / 8)) := by
  rw [lanes, getLsbD_ofFnLE, dif_pos h]

/-- Adding what is shifted past filled lanes fills twice as many. -/
lemma lanes_double {c : Nat} (b : Nat → Bool) (hc : c = 1 ∨ c = 2 ∨ c = 4) :
    lanes (2 * c) b = lanes c b + lanes c b <<< c := by
  have hshift : ∀ k, k < 64 → (lanes c b <<< c).getLsbD k = (decide (c ≤ k ∧ (k - c) % 8 < c) && b (k / 8)) := by
    intro k hk
    rw [getLsbD_shiftLeft]
    by_cases hck : c ≤ k
    · rw [getLsbD_lanes _ _ (by omega)]
      by_cases hlt : (k - c) % 8 < c
      · have : (k - c) / 8 = k / 8 := by omega
        simp [hk, hck, hlt, this]
      · simp [hlt]
    · simp [hck]
  rw [add_eq_or_of_and_eq_zero]
  · apply BitVec.eq_of_getLsbD_eq
    intro k hk
    rw [getLsbD_or, hshift k hk, getLsbD_lanes _ _ hk, getLsbD_lanes _ _ hk, ← Bool.and_or_distrib_right]
    congr 1
    rw [← Bool.decide_or]
    apply decide_eq_decide.2
    omega
  · apply BitVec.eq_of_getLsbD_eq
    intro k hk
    rw [getLsbD_and, hshift k hk, getLsbD_lanes _ _ hk]
    have hnot : ¬ (k % 8 < c ∧ c ≤ k ∧ (k - c) % 8 < c) := by omega
    by_cases h1 : k % 8 < c
    · have h2 : ¬ (c ≤ k ∧ (k - c) % 8 < c) := fun h => hnot ⟨h1, h⟩
      simp [h2]
    · simp [h1]

lemma lanes_sub (b : Nat → Bool) : (lanes 1 b <<< 8) - lanes 1 b = lanes 8 b := by
  have h2 := lanes_double (c := 1) b (by simp)
  have h4 := lanes_double (c := 2) b (by simp)
  have h8 := lanes_double (c := 4) b (by simp)
  simp only [Nat.reduceMul] at h2 h4 h8
  rw [h8, h4, h2]
  generalize lanes 1 b = t
  bv_omega

lemma and_tops (x : BitVec 64) : x &&& 0x8080808080808080#64 = lanes 1 (fun j => x.getLsbD (8 * j + 7)) <<< 7 := by
  have htop : ∀ k : Fin 64, (0x8080808080808080#64).getLsbD k = decide ((k : Nat) % 8 = 7) := by
    decide +kernel
  apply BitVec.eq_of_getLsbD_eq
  intro k hk
  rw [getLsbD_and, htop ⟨k, hk⟩, getLsbD_shiftLeft]
  by_cases h7 : k % 8 = 7
  · have h1 : 8 * ((k - 7) / 8) + 7 = k := by omega
    have h2 : (k - 7) % 8 = 0 := by omega
    rw [getLsbD_lanes _ _ (by omega)]
    simp [h7, h1, h2, hk]
    omega
  · by_cases hk7 : k < 7
    · simp [h7, hk7]
    · have h2 : ¬ (k - 7) % 8 = 0 := by omega
      rw [getLsbD_lanes _ _ (by omega)]
      simp [h7, h2]

/-- **The mask from the top bit of each byte.** -/
theorem spread_tops (x : BitVec 64) : ((x &&& 0x8080808080808080#64) <<< 1) - ((x &&& 0x8080808080808080#64) >>> 7) =
      lanes 8 fun j => x.getLsbD (8 * j + 7) := by
  rw [and_tops, ← lanes_sub]
  generalize hb : (fun j => x.getLsbD (8 * j + 7)) = b
  have hdown : lanes 1 b <<< 7 >>> 7 = lanes 1 b := by
    apply BitVec.eq_of_getLsbD_eq
    intro k hk
    rw [getLsbD_ushiftRight, getLsbD_shiftLeft]
    by_cases hk7 : 7 + k < 64
    · simp [hk7]
    · have : ¬ k % 8 < 1 := by omega
      simp [hk7, getLsbD_lanes _ _ hk]
      omega
  rw [hdown, ← shiftLeft_add]

end Unleashed.Lib
