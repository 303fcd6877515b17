import Unleashed.Lib.Elimination
import Mathlib.Data.List.GetD
import Mathlib.Tactic

/-!
# Fletcher-4

Four running sums of 32-bit words in 64-bit accumulators, and which changes of a buffer they detect.
-/

namespace Unleashed.Zfs

open Finset

/-- `zc_word` of `zio_cksum_t`. -/
structure ZcWord where
  (a b c d : BitVec 64)
deriving DecidableEq

def fletcherInit : ZcWord := ⟨0, 0, 0, 0⟩

/-- The body of the loops: each sum takes in the one before it. -/
def ZcWord.add (z : ZcWord) (f : BitVec 32) : ZcWord :=
  let a := z.a + f.setWidth 64
  let b := z.b + a
  let c := z.c + b
  ⟨a, b, c, z.d + c⟩

def fletcher4IncrementalNative (buf : List (BitVec 32)) (zcp : ZcWord) : ZcWord := buf.foldl .add zcp

def fletcher4Native (buf : List (BitVec 32)) : ZcWord := fletcher4IncrementalNative buf fletcherInit

/-- `BSWAP_32`. -/
def bswap32 (x : BitVec 32) : BitVec 32 :=
  (x <<< 24) ||| ((x <<< 8) &&& 0xff0000) ||| ((x >>> 8) &&& 0xff00) ||| (x >>> 24)

def fletcher4IncrementalByteswap (buf : List (BitVec 32)) (zcp : ZcWord) : ZcWord :=
  buf.foldl (fun z f => z.add (bswap32 f)) zcp

def fletcher4Byteswap (buf : List (BitVec 32)) : ZcWord := fletcher4IncrementalByteswap buf fletcherInit

/-! ## Closed forms -/

/-- The words with weights that depend on how far they are from the end. -/
def weightedSum (w : Nat → Nat) (buf : List (BitVec 32)) : Nat :=
  ∑ i ∈ range buf.length, w (buf.length - i) * (buf.getD i 0).toNat

/-- The weights of the four sums. -/
def weight : Fin 4 → Nat → Nat
  | 0, _ => 1
  | 1, k => k
  | 2, k => k * (k + 1) / 2
  | 3, k => k * (k + 1) * (k + 2) / 6

lemma weight_succ (j : Fin 3) (k : Nat) : weight j.succ (k + 1) = weight j.succ k + weight j.castSucc (k + 1) := by
  match j with
  | 0 => rfl
  | 1 =>
    show (k + 1) * (k + 1 + 1) / 2 = k * (k + 1) / 2 + (k + 1)
    rw [← Nat.add_mul_div_left _ _ two_pos]
    congr 1
    ring
  | 2 =>
    show (k + 1) * (k + 1 + 1) * (k + 1 + 2) / 6 = k * (k + 1) * (k + 2) / 6 + (k + 1) * (k + 1 + 1) / 2
    have heven := Nat.two_mul_div_two_of_even (Nat.even_mul_succ_self (k + 1))
    rw [← Nat.add_mul_div_left _ _ (by norm_num : 0 < 6)]
    congr 1
    nlinarith [heven]

variable {w w' : Nat → Nat} (buf : List (BitVec 32)) (f : BitVec 32)

lemma weightedSum_concat : weightedSum w (buf ++ [f]) =
    ∑ i ∈ range buf.length, w (buf.length - i + 1) * (buf.getD i 0).toNat + w 1 * f.toNat := by
  unfold weightedSum
  rw [List.length_append, List.length_singleton, sum_range_succ]
  congr 1
  · refine sum_congr rfl fun i hi => ?_
    have hi := mem_range.1 hi
    rw [List.getD_append _ _ _ _ hi, Nat.sub_add_comm hi.le]
  · simp

lemma weightedSum_add (hw : ∀ k, w' (k + 1) = w' k + w (k + 1)) (h0 : w' 0 = 0) :
    weightedSum w' (buf ++ [f]) = weightedSum w' buf + weightedSum w (buf ++ [f]) := by
  rw [weightedSum_concat, weightedSum_concat, weightedSum, ← add_assoc, ← sum_add_distrib, hw 0, h0, zero_add]
  congr 1
  refine sum_congr rfl fun i _ => ?_
  rw [hw, add_mul]

lemma weightedSum_one : weightedSum (weight 0) (buf ++ [f]) = weightedSum (weight 0) buf + f.toNat := by
  rw [weightedSum_concat, weightedSum]
  simp [weight]

local instance sumIndex : NeZero 4 := ⟨by decide⟩

/-- The four weighted sums, modulo `2 ^ 64`. -/
def closedForm : ZcWord :=
  ⟨.ofNat 64 (weightedSum (weight 0) buf), .ofNat 64 (weightedSum (weight 1) buf),
    .ofNat 64 (weightedSum (weight 2) buf), .ofNat 64 (weightedSum (weight 3) buf)⟩

/-- **Step.** One more word. -/
theorem closedForm_concat : closedForm (buf ++ [f]) = (closedForm buf).add f := by
  have hf : f.setWidth 64 = BitVec.ofNat 64 f.toNat := (BitVec.ofNat_toNat ..).symm
  have hb : weightedSum (weight 1) (buf ++ [f]) = weightedSum (weight 1) buf + weightedSum (weight 0) (buf ++ [f]) :=
    weightedSum_add buf f (weight_succ 0) rfl
  have hc : weightedSum (weight 2) (buf ++ [f]) = weightedSum (weight 2) buf + weightedSum (weight 1) (buf ++ [f]) :=
    weightedSum_add buf f (weight_succ 1) rfl
  have hd : weightedSum (weight 3) (buf ++ [f]) = weightedSum (weight 3) buf + weightedSum (weight 2) (buf ++ [f]) :=
    weightedSum_add buf f (weight_succ 2) rfl
  simp only [closedForm, ZcWord.add, hf, ← BitVec.ofNat_add, ← weightedSum_one]
  rw [hd, hc, hb]

/-- **Run.** -/
theorem fletcher4Native_eq : fletcher4Native buf = closedForm buf := by
  induction buf using List.reverseRecOn with
  | nil => rfl
  | append_singleton buf f ih =>
    rw [closedForm_concat, ← ih]
    exact List.foldl_concat ..

/-! ## Detection -/

section
variable {l l' : List (BitVec 32)}

/-- The words in which two buffers of the same length differ. -/
def differing (l l' : List (BitVec 32)) : Finset Nat := {i ∈ range l.length | l.getD i 0 ≠ l'.getD i 0}

/-- The difference of two words. -/
def wordDiff (l l' : List (BitVec 32)) (i : Nat) : Int := (l.getD i 0).toNat - (l'.getD i 0).toNat

lemma wordDiff_ne_zero {i : Nat} (hi : i ∈ differing l l') : wordDiff l l' i ≠ 0 := by
  intro h
  apply (mem_filter.1 hi).2
  apply BitVec.eq_of_toNat_eq
  unfold wordDiff at h
  omega

lemma abs_wordDiff_le (i : Nat) : |wordDiff l l' i| ≤ 2 ^ 32 := by
  have h := (l.getD i 0).isLt
  have h' := (l'.getD i 0).isLt
  unfold wordDiff
  rw [abs_le]
  omega

lemma weightedSum_sub (hlen : l.length = l'.length) (w : Nat → Nat) :
    (weightedSum w l : Int) - weightedSum w l' = ∑ i ∈ differing l l', w (l.length - i) * wordDiff l l' i := by
  unfold weightedSum
  rw [← hlen, differing, sum_filter_of_ne]
  · push_cast
    rw [← sum_sub_distrib]
    exact sum_congr rfl fun i _ => (mul_sub ..).symm
  · rintro i - hne heq
    exact hne (by rw [wordDiff, heq, sub_self, mul_zero])

/-- Sums that agree modulo `2 ^ 64` agree, for few and small differences. -/
lemma sum_eq_zero_of_small {W : Nat} (hlen : l.length = l'.length)
    (heq : BitVec.ofNat 64 (weightedSum w l) = BitVec.ofNat 64 (weightedSum w l')) (hw : ∀ k ≤ l.length, w k ≤ W)
    (hsmall : (differing l l').card * (W * 2 ^ 32) < 2 ^ 64) : ∑ i ∈ differing l l', w (l.length - i) * wordDiff l l' i = 0 := by
  rw [← weightedSum_sub hlen]
  apply Int.eq_zero_of_abs_lt_dvd (m := 2 ^ 64)
  · have := congrArg BitVec.toNat heq
    rw [BitVec.toNat_ofNat, BitVec.toNat_ofNat] at this
    omega
  · rw [weightedSum_sub hlen]
    have hterm : ∀ i ∈ differing l l', |(w (l.length - i) : Int) * wordDiff l l' i| ≤ (W * 2 ^ 32 : Nat) := by
      intro i _
      rw [abs_mul, Nat.abs_cast]
      push_cast
      exact mul_le_mul (mod_cast hw _ (Nat.sub_le ..)) (abs_wordDiff_le i) (abs_nonneg _) (Nat.cast_nonneg W)
    calc |∑ i ∈ differing l l', (w (l.length - i) : Int) * wordDiff l l' i|
        ≤ ∑ i ∈ differing l l', |(w (l.length - i) : Int) * wordDiff l l' i| := abs_sum_le_sum_abs ..
      _ ≤ (differing l l').card • ((W * 2 ^ 32 : Nat) : Int) := sum_le_card_nsmul _ _ _ hterm
      _ < 2 ^ 64 := by rw [nsmul_eq_mul]; exact_mod_cast hsmall

/-- Power sums over the differing words that vanish leave no such word. -/
lemma eq_of_power_sums (hlen : l.length = l'.length)
    (h : ∀ j < (differing l l').card, ∑ i ∈ differing l l', ((l.length - i : Nat) : Int) ^ j * wordDiff l l' i = 0) : l = l' := by
  have hinj : Set.InjOn (fun i => ((l.length - i : Nat) : ℚ)) (differing l l') := by
    intro i hi j hj hij
    have hi := mem_range.1 (mem_filter.1 hi).1
    have hj := mem_range.1 (mem_filter.1 hj).1
    have : l.length - i = l.length - j := Nat.cast_injective (R := ℚ) hij
    omega
  have hzero := Lib.Elimination.eq_zero_of_power_sums (v := fun i => (wordDiff l l' i : ℚ)) hinj fun j hj => by
    simp only [mul_comm _ (_ ^ j)]
    exact_mod_cast h j hj
  refine List.ext_getElem hlen fun i hi hi' => ?_
  by_contra hne
  have hmem : i ∈ differing l l' := mem_filter.2 ⟨mem_range.2 hi, by simpa [hi, hi'] using hne⟩
  exact wordDiff_ne_zero hmem (by exact_mod_cast hzero i hmem)

lemma fletcher4Native_inj (hlen : l.length = l'.length)
    (hfew : l.length ≤ 2 ^ 22 ∧ (differing l l').card ≤ 2 ∨ l.length ≤ 2 ^ 15 ∧ (differing l l').card ≤ 3)
    (heq : fletcher4Native l = fletcher4Native l') : l = l' := by
  rw [fletcher4Native_eq, fletcher4Native_eq, closedForm, closedForm, ZcWord.mk.injEq] at heq
  obtain ⟨ha, hb, hc, -⟩ := heq
  have hlong : l.length ≤ 2 ^ 22 := by omega
  have hcard : (differing l l').card ≤ 3 := by omega
  have h0 := sum_eq_zero_of_small (W := 1) hlen ha (fun _ _ => le_rfl) (by omega)
  have h1 := sum_eq_zero_of_small hlen hb (fun _ hk => hk.trans hlong) (by omega)
  refine eq_of_power_sums hlen fun j hj => ?_
  obtain rfl | rfl | rfl : j = 0 ∨ j = 1 ∨ j = 2 := by omega
  · simpa [weight] using h0
  · simpa [weight] using h1
  · have hshort : l.length ≤ 2 ^ 15 := by omega
    have h2 := sum_eq_zero_of_small (W := 2 ^ 30) hlen hc (fun k hk => ?_) (by omega)
    · -- `k ^ 2` is twice the third weight less the second
      have hsq (k : Nat) : (k : Int) ^ 2 = 2 * weight 2 k - weight 1 k := by
        have := Nat.two_mul_div_two_of_even (Nat.even_mul_succ_self k)
        have : (2 * weight 2 k : Int) = k * (k + 1) := by exact_mod_cast this
        rw [this, weight]
        ring
      simp only [hsq, sub_mul, mul_assoc, sum_sub_distrib, ← mul_sum, h1, h2, mul_zero, sub_zero]
    · have : k * (k + 1) ≤ 2 ^ 15 * (2 ^ 15 + 1) := Nat.mul_le_mul (by omega) (by omega)
      show k * (k + 1) / 2 ≤ 2 ^ 30
      omega

end

/-- The four bytes in the opposite order. -/
def byteSwapped (x : BitVec 32) : BitVec 32 :=
  x.extractLsb' 0 8 ++ x.extractLsb' 8 8 ++ x.extractLsb' 16 8 ++ x.extractLsb' 24 8

lemma bswap32_eq (x : BitVec 32) : bswap32 x = byteSwapped x := by
  apply BitVec.eq_of_getLsbD_eq
  intro i hi
  show _ = BitVec.getLsbD (w := 8 + 8 + 8 + 8) (x.extractLsb' 0 8 ++ x.extractLsb' 8 8 ++ x.extractLsb' 16 8 ++ x.extractLsb' 24 8) i
  simp only [BitVec.getLsbD_append]
  interval_cases i <;> simp [bswap32]

/-- **What Fletcher-4 computes and detects.** -/
theorem fletcher_4_detects : (∀ buf, fletcher4Native buf =
      ⟨.ofNat 64 (weightedSum (fun _ => 1) buf), .ofNat 64 (weightedSum (fun k => k) buf),
        .ofNat 64 (weightedSum (fun k => k * (k + 1) / 2) buf), .ofNat 64 (weightedSum (fun k => k * (k + 1) * (k + 2) / 6) buf)⟩) ∧
    (∀ pieces : List (List (BitVec 32)),
      pieces.foldl (fun zcp piece => fletcher4IncrementalNative piece zcp) fletcherInit = fletcher4Native pieces.flatten) ∧
    (∀ buf, fletcher4Byteswap buf = fletcher4Native (buf.map byteSwapped)) ∧
    ∀ l l' : List (BitVec 32), l.length = l'.length → l ≠ l' →
      l.length ≤ 2 ^ 22 ∧ (differing l l').card ≤ 2 ∨ l.length ≤ 2 ^ 15 ∧ (differing l l').card ≤ 3 →
      fletcher4Native l ≠ fletcher4Native l' := by
  refine ⟨fletcher4Native_eq, fun pieces => ?_, fun buf => ?_, fun l l' hlen hne hfew heq => ?_⟩
  · exact List.foldl_flatten.symm
  · rw [fletcher4Native, fletcher4IncrementalNative, List.foldl_map]
    simp only [← bswap32_eq]
    rfl
  · exact hne (fletcher4Native_inj hlen hfew heq)

/-- Two words that have changed places. -/
theorem fletcher_4_detects_swap : (differing [7, 1, 2] [7, 2, 1]).card = 2 ∧ fletcher4Native [7, 1, 2] ≠ fletcher4Native [7, 2, 1] :=
  ⟨by decide, fletcher_4_detects.2.2.2 [7, 1, 2] [7, 2, 1] rfl (by decide) (.inl ⟨by decide, by decide⟩)⟩

end Unleashed.Zfs
