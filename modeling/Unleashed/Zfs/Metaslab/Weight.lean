import Unleashed.Lib.BitField
import Unleashed.Zfs.RangeTree

/-!
# Segment-based metaslab weights

The weight of a metaslab is the highest bucket of a histogram of its free segments, with the number of segments in it.
A loaded metaslab has the histogram of its range tree, an unloaded one that of its space map, into which
`space_map_histogram_add` folds the first; `metaslab_weight_from_range_tree` folds it on its way down.
-/

namespace Unleashed.Zfs

open Lib Lib.Segs Function Finset BitField

def spaceMapHistogramSize : Nat := 32
def rangeTreeHistogramSize : Nat := 64
def spaMinblockshift : Nat := 9

def bf64Set (x low len val : Nat) : Except Fault Nat := do
  ASSERT (val < 1 <<< len)
  ASSERT (low + len ≤ 64)
  .ok (x ^^^ encode ((x >>> low) ^^^ val) low len)

def weightGetActive (weight : Nat) : Nat := decode weight 61 3

def weightSetActive (weight x : Nat) : Except Fault Nat := bf64Set weight 61 3 x

def weightIsSpacebased (weight : Nat) : Bool := weight = 0 ∨ decode weight 60 1 ≠ 0

def weightSetIndex (weight x : Nat) : Except Fault Nat := bf64Set weight 54 6 x

def weightSetCount (weight x : Nat) : Except Fault Nat := bf64Set weight 0 54 x

/-- What the weight reads of a space map; `hasHistogram` is `db_size == sizeof (space_map_phys_t)`. -/
structure SpaceMapHistogram where
  smShift : UInt8
  smAlloc : BitVec 64
  smObject : Nat
  hasHistogram : Bool
  smpHistogram : Nat → Nat

/-- What `metaslab_t` has for the weight; `vdevAshift` is its vdev's. -/
structure WeightedMetaslab where
  msSize : Nat
  msLoaded : Bool
  msAllocatable : RangeTree
  msSm : Option SpaceMapHistogram
  (vdevAshift msActivationWeight msWeight : Nat)

/-! ## The histogram of a space map -/

def spaceMapHistogramClear (sm : SpaceMapHistogram) : SpaceMapHistogram :=
  if sm.hasHistogram then { sm with smpHistogram := fun _ => 0 } else sm

def spaceMapHistogramVerify (sm : SpaceMapHistogram) (rt : RangeTree) : Bool :=
  (List.range sm.smShift.toNat).all fun i => rt.rtHistogram i = 0

/-- The loop of `space_map_histogram_add`, with `n` buckets to go. -/
def histogramAddLoop (rtHistogram : Nat → Nat) (smShift : Nat) : Nat → Nat → Nat → (Nat → Nat) → Except Fault (Nat → Nat)
  | 0, _, _, smpHistogram => .ok smpHistogram
  | n + 1, i, idx, smpHistogram => do
    ASSERT (i ≥ idx + smShift)
    let added := (smpHistogram idx + (rtHistogram i <<< (i - idx - smShift)) % 2 ^ 64) % 2 ^ 64
    let smpHistogram := update smpHistogram idx added
    if idx < spaceMapHistogramSize - 1 then do
      ASSERT (idx + smShift = i)
      ASSERT (idx + 1 < spaceMapHistogramSize)
      histogramAddLoop rtHistogram smShift n (i + 1) (idx + 1) smpHistogram
    else histogramAddLoop rtHistogram smShift n (i + 1) idx smpHistogram

/-- `space_map_histogram_add`; `syncing` is `dmu_tx_is_syncing(tx)`. -/
def spaceMapHistogramAdd (sm : SpaceMapHistogram) (rt : RangeTree) (syncing : Bool) : Except Fault SpaceMapHistogram := do
  ASSERT (syncing = true)
  VERIFY (sm.smObject ≠ 0)
  if sm.hasHistogram then do
    ASSERT (spaceMapHistogramVerify sm rt = true)
    let smpHistogram ← histogramAddLoop rt.rtHistogram sm.smShift.toNat (rangeTreeHistogramSize - sm.smShift.toNat) sm.smShift.toNat 0
      sm.smpHistogram
    .ok { sm with smpHistogram }
  else .ok sm

/-! ## The weights -/

/-- The three fields that both histograms set in a weight of 0. -/
def segmentWeight (count index : Nat) : Except Fault Nat := do
  let weight ← weightSetCount 0 count
  let weight ← weightSetIndex weight index
  weightSetActive weight 0

/-- The loop of `metaslab_weight_from_range_tree` from bucket `i` down. -/
def rangeTreeWeightLoop (rtHistogram : Nat → Nat) (maxIdx : Nat) : Nat → Nat → Except Fault Nat
  | 0, _ => .ok 0
  | i + 1, segments =>
    if i + 1 < spaMinblockshift then .ok 0
    else
      let segments := (segments <<< 1 % 2 ^ 32 + rtHistogram (i + 1)) % 2 ^ 32
      if i + 1 > maxIdx then rangeTreeWeightLoop rtHistogram maxIdx i segments
      else if segments ≠ 0 then segmentWeight segments (i + 1)
      else rangeTreeWeightLoop rtHistogram maxIdx i segments

def metaslabWeightFromRangeTree (msp : WeightedMetaslab) : Except Fault Nat := do
  ASSERT (msp.msLoaded = true)
  let shift := msp.vdevAshift % 2 ^ 8
  rangeTreeWeightLoop msp.msAllocatable.rtHistogram (spaceMapHistogramSize + shift - 1) (rangeTreeHistogramSize - 1) 0

/-- The loop of `metaslab_weight_from_spacemap` over the buckets below `i`. -/
def spacemapWeightLoop (smpHistogram : Nat → Nat) (smShift : Nat) : Nat → Except Fault Nat
  | 0 => .ok 0
  | i + 1 =>
    if smpHistogram i ≠ 0 then segmentWeight (smpHistogram i) (i + smShift)
    else spacemapWeightLoop smpHistogram smShift i

/-- `metaslab_weight_from_spacemap`; it follows `ms_sm` without a check. -/
def metaslabWeightFromSpacemap (msp : WeightedMetaslab) : Except Fault Nat :=
  match msp.msSm with
  | none => .error .bounds
  | some sm => spacemapWeightLoop sm.smpHistogram sm.smShift.toNat spaceMapHistogramSize

def spaceMapAllocated (sm : Option SpaceMapHistogram) : BitVec 64 := (sm.map (·.smAlloc)).getD 0

/-- The count and the index of a metaslab of one free segment. -/
def freeWeight (msSize shift : Nat) : Except Fault Nat := do
  let idx := highbit64 msSize - 1
  let maxIdx := spaceMapHistogramSize + shift - 1
  if idx < maxIdx then do
    let weight ← weightSetCount 0 1
    weightSetIndex weight idx
  else do
    let weight ← weightSetCount 0 (1 <<< (idx - maxIdx))
    weightSetIndex weight maxIdx

/-- The active bits of the last weight are kept. -/
def keepActive (msp : WeightedMetaslab) (weight : Nat) : Except Fault Nat :=
  if msp.msActivationWeight ≠ 0 ∧ weight ≠ 0 then weightSetActive weight (weightGetActive msp.msWeight)
  else .ok weight

def metaslabSegmentWeight (msp : WeightedMetaslab) : Except Fault Nat :=
  if spaceMapAllocated msp.msSm = 0 then do
    let weight ← freeWeight msp.msSize (msp.vdevAshift % 2 ^ 8)
    let weight ← weightSetActive weight 0
    ASSERT (weightIsSpacebased weight = false)
    .ok weight
  else do
    ASSERT (msp.msSm.any (·.hasHistogram) = true)
    if spaceMapAllocated msp.msSm = BitVec.ofNat 64 msp.msSize then .ok 0
    else do
      let weight ← if msp.msLoaded then metaslabWeightFromRangeTree msp else metaslabWeightFromSpacemap msp
      keepActive msp weight

/-! ## Setting the fields -/

/-- A field above the bits of a word is put there by `BF64_SET`. -/
lemma bf64Set_above {x low len val : Nat} (hx : x < 2 ^ low) (hval : val < 2 ^ len) (hbits : low + len ≤ 64) :
    bf64Set x low len val = .ok (val * 2 ^ low + x) := by
  have hval' : val < 1 <<< len := by rwa [Nat.one_shiftLeft]
  have hzero : x >>> low = 0 := by rw [Nat.shiftRight_eq_div_pow, Nat.div_eq_of_lt hx]
  rw [bf64Set, ASSERT_bind hval', ASSERT_bind hbits, hzero, Nat.zero_xor, encode_eq, Nat.mod_eq_of_lt hval]
  congr 1
  rw [mul_comm, Nat.two_pow_add_eq_or_of_lt hx]
  refine Nat.eq_of_testBit_eq fun j => ?_
  rw [Nat.testBit_xor, Nat.testBit_or, Nat.testBit_two_pow_mul]
  by_cases hj : low ≤ j
  · have hclear : x.testBit j = false := Nat.testBit_lt_two_pow (hx.trans_le (Nat.pow_le_pow_right (by norm_num) hj))
    simp [hclear]
  · simp [hj]

variable {count index : Nat}

lemma weightSetFields (hcount : count < 2 ^ 54) (hindex : index < 64) :
    (weightSetCount 0 count >>= fun weight => weightSetIndex weight index) = .ok (index * 2 ^ 54 + count) := by
  rw [weightSetCount, bf64Set_above (by norm_num) hcount (by norm_num), ok_bind, weightSetIndex,
    bf64Set_above (by omega) (by omega) (by norm_num), pow_zero, mul_one, add_zero]

lemma weightSetActive_zero {weight : Nat} (h : weight < 2 ^ 60) : weightSetActive weight 0 = .ok weight := by
  rw [weightSetActive, bf64Set_above (by omega) (by norm_num) (by norm_num), zero_mul, zero_add]

lemma segmentWeight_eq (hcount : count < 2 ^ 54) (hindex : index < 64) :
    segmentWeight count index = .ok (index * 2 ^ 54 + count) := by
  have hfields := weightSetFields hcount hindex
  have hactive : weightSetActive (index * 2 ^ 54 + count) 0 = .ok (index * 2 ^ 54 + count) := weightSetActive_zero (by omega)
  rw [segmentWeight, ← bind_assoc, hfields, ok_bind, hactive]

/-! ## What the two histograms have in common -/

/-- The bucket of a space map into which bucket `i` of a range tree goes. -/
def smBucket (shift i : Nat) : Nat := min (i - shift) (spaceMapHistogramSize - 1)

/-- The segments of bucket `i`, in segments of the space map's bucket. -/
def scaled (h : Nat → Nat) (shift i : Nat) : Nat := h i * 2 ^ (i - smBucket shift i - shift)

/-- The scaled number of segments that go into bucket `k`, from range tree buckets `i` up. -/
def scaledFrom (h : Nat → Nat) (shift i k : Nat) : Nat :=
  ∑ j ∈ Ico i 64, if smBucket shift j = k then scaled h shift j else 0

/-- The scaled number of segments of a space map's bucket. -/
def scaledCount (h : Nat → Nat) (shift k : Nat) : Nat := scaledFrom h shift shift k

/-- The segments of buckets `i` up, counted in segments of bucket `i`. -/
def tailCount (h : Nat → Nat) (i : Nat) : Nat := ∑ j ∈ Ico i 64, h j * 2 ^ (j - i)

variable {i idx : Nat}

section
variable {h : Nat → Nat} {shift : Nat}

lemma scaledFrom_step (hi : i < 64) (k : Nat) :
    scaledFrom h shift i k = (if smBucket shift i = k then scaled h shift i else 0) + scaledFrom h shift (i + 1) k :=
  sum_eq_sum_Ico_succ_bot hi _

lemma smBucket_succ (hidx : idx = smBucket shift i) (hi : shift ≤ i) :
    (if idx < spaceMapHistogramSize - 1 then idx + 1 else idx) = smBucket shift (i + 1) := by
  subst hidx
  by_cases hlast : smBucket shift i < spaceMapHistogramSize - 1
  · rw [if_pos hlast]
    simp only [smBucket, spaceMapHistogramSize] at hlast ⊢
    omega
  · rw [if_neg hlast]
    simp only [smBucket, spaceMapHistogramSize] at hlast ⊢
    omega

/-- The loop adds the scaled counts, as long as they fit. -/
lemma histogramAddLoop_ok (n : Nat) : ∀ {i idx : Nat} {smp : Nat → Nat}, i + n = 64 → shift ≤ i → idx = smBucket shift i →
      (∀ k, smp k + scaledFrom h shift i k < 2 ^ 64) →
      histogramAddLoop h shift n i idx smp = .ok fun k => smp k + scaledFrom h shift i k := by
  induction n with
  | zero =>
    intro i idx smp hi _ _ _
    obtain rfl : i = 64 := hi
    rw [histogramAddLoop]
    congr 1
  | succ n ih =>
    intro i idx smp hi hshift hidx hfit
    have hstep : ∀ k, scaledFrom h shift i k = (if smBucket shift i = k then scaled h shift i else 0) + scaledFrom h shift (i + 1) k :=
      scaledFrom_step (by omega)
    have hge : i ≥ idx + shift := by
      rw [hidx, smBucket]
      omega
    have hidxFit := hfit idx
    rw [hstep, if_pos hidx.symm] at hidxFit
    have hadded : (smp idx + (h i <<< (i - idx - shift)) % 2 ^ 64) % 2 ^ 64 = smp idx + scaled h shift i := by
      have hscaled : h i <<< (i - idx - shift) = scaled h shift i := by rw [Nat.shiftLeft_eq, hidx, scaled]
      rw [hscaled, Nat.mod_eq_of_lt (show scaled h shift i < 2 ^ 64 by omega), Nat.mod_eq_of_lt (by omega)]
    -- whatever bucket comes next, the invariant is that the rest still has to be added
    have hrest : ∀ k, update smp idx (smp idx + scaled h shift i) k + scaledFrom h shift (i + 1) k =
        smp k + scaledFrom h shift i k := by
      intro k
      rw [hstep k]
      by_cases hk : k = idx
      · rw [hk, update_self, if_pos hidx.symm, add_assoc]
      · rw [update_of_ne hk, if_neg (fun he => hk (hidx ▸ he.symm)), zero_add]
    have hnext := smBucket_succ hidx hshift
    have hrec : ∀ {idx'}, idx' = smBucket shift (i + 1) →
        histogramAddLoop h shift n (i + 1) idx' (update smp idx (smp idx + scaled h shift i)) =
          .ok fun k => smp k + scaledFrom h shift i k := by
      intro idx' hidx'
      rw [ih (by omega) (by omega) hidx' (fun k => (hrest k).trans_lt (hfit k))]
      exact congrArg _ (funext hrest)
    rw [histogramAddLoop, ASSERT_bind hge]
    dsimp only
    rw [hadded]
    by_cases hlast : idx < spaceMapHistogramSize - 1
    · have hexact : idx + shift = i := by
        rw [hidx, smBucket] at hlast ⊢
        omega
      rw [if_pos hlast] at hnext ⊢
      rw [ASSERT_bind hexact, ASSERT_bind (show idx + 1 < spaceMapHistogramSize by omega)]
      exact hrec hnext
    · rw [if_neg hlast] at hnext ⊢
      exact hrec hnext

variable {k : Nat}

/-- Below the last bucket of the space map, buckets correspond one to one. -/
lemma scaledCount_low (hk : k < 31) (htop : ∀ j, 64 ≤ j → h j = 0) : scaledCount h shift k = h (k + shift) := by
  have hcond : ∀ j ∈ Ico shift 64, (if smBucket shift j = k then scaled h shift j else 0) =
      if k + shift = j then h j else 0 := by
    intro j hj
    rw [mem_Ico] at hj
    have hiff : smBucket shift j = k ↔ k + shift = j := by
      simp only [smBucket, spaceMapHistogramSize]
      omega
    simp only [hiff]
    split_ifs with he
    · rw [scaled, hiff.2 he, ← he, Nat.add_sub_cancel_left, Nat.sub_self, pow_zero, mul_one]
    · rfl
  rw [scaledCount, scaledFrom, sum_congr rfl hcond, sum_ite_eq]
  split_ifs with hmem
  · rfl
  · rw [mem_Ico] at hmem
    exact (htop _ (by omega)).symm

/-- The last bucket of the space map has everything above it. -/
lemma scaledCount_last : scaledCount h shift 31 = tailCount h (31 + shift) := by
  have hfilter : (Ico shift 64).filter (fun j => smBucket shift j = 31) = Ico (31 + shift) 64 := by
    ext j
    rw [mem_filter, mem_Ico, mem_Ico, smBucket, spaceMapHistogramSize]
    omega
  rw [scaledCount, scaledFrom, ← sum_filter, hfilter, tailCount]
  refine sum_congr rfl fun j hj => ?_
  rw [mem_Ico] at hj
  have hbucket : smBucket shift j = 31 := by
    simp only [smBucket, spaceMapHistogramSize]
    omega
  rw [scaled, hbucket, show j - 31 - shift = j - (31 + shift) by omega]

/-- Halving on the way down: the accumulator of `metaslab_weight_from_range_tree`. -/
lemma tailCount_step (htop : ∀ j, 64 ≤ j → h j = 0) (i : Nat) : tailCount h i = 2 * tailCount h (i + 1) + h i := by
  by_cases hi : i < 64
  · have hdouble : ∑ j ∈ Ico (i + 1) 64, h j * 2 ^ (j - i) = 2 * tailCount h (i + 1) := by
      rw [tailCount, mul_sum]
      refine sum_congr rfl fun j hj => ?_
      rw [mem_Ico] at hj
      rw [show j - i = j - (i + 1) + 1 by omega, pow_succ]
      ring
    rw [tailCount, sum_eq_sum_Ico_succ_bot hi, hdouble, Nat.sub_self, pow_zero, mul_one, add_comm]
  · rw [tailCount, tailCount, Ico_eq_empty (by omega), Ico_eq_empty (by omega), sum_empty, sum_empty,
      htop i (by omega), mul_zero, add_zero]

lemma tailCount_le (htop : ∀ j, 64 ≤ j → h j = 0) {j : Nat} (hij : i ≤ j) : tailCount h j ≤ tailCount h i := by
  refine antitone_nat_of_succ_le (fun k => ?_) hij
  rw [tailCount_step htop k]
  omega

/-! ## The two ways down -/

variable {maxIdx : Nat}

lemma rangeTreeWeightLoop_empty (hempty : h (i + 1) = 0) :
    rangeTreeWeightLoop h maxIdx (i + 1) 0 = if i + 1 < spaMinblockshift then .ok 0 else rangeTreeWeightLoop h maxIdx i 0 := by
  rw [rangeTreeWeightLoop, hempty]
  simp

lemma rangeTreeWeightLoop_below {n : Nat} (hlow : ∀ j < n, h j = 0) : ∀ {i : Nat}, i < n → rangeTreeWeightLoop h maxIdx i 0 = .ok 0 := by
  intro i
  induction i with
  | zero => exact fun _ => rfl
  | succ i ih =>
    intro hi
    rw [rangeTreeWeightLoop_empty (hlow _ hi), ih (by omega), ite_self]

lemma rangeTreeWeightLoop_above (htop : ∀ j, 64 ≤ j → h j = 0) (d : Nat) :
    rangeTreeWeightLoop h maxIdx (63 + d) 0 = rangeTreeWeightLoop h maxIdx 63 0 := by
  induction d with
  | zero => rfl
  | succ d ih =>
    rw [← add_assoc, rangeTreeWeightLoop_empty (htop _ (by omega)), if_neg (by rw [spaMinblockshift]; omega), ih]

lemma rangeTreeWeightLoop_round {segments : Nat} (hi : spaMinblockshift ≤ i + 1) (hfit : 2 * segments + h (i + 1) < 2 ^ 32) :
    rangeTreeWeightLoop h maxIdx (i + 1) segments =
      if i + 1 > maxIdx then rangeTreeWeightLoop h maxIdx i (2 * segments + h (i + 1))
      else if 2 * segments + h (i + 1) ≠ 0 then segmentWeight (2 * segments + h (i + 1)) (i + 1)
      else rangeTreeWeightLoop h maxIdx i (2 * segments + h (i + 1)) := by
  have hacc : (segments <<< 1 % 2 ^ 32 + h (i + 1)) % 2 ^ 32 = 2 * segments + h (i + 1) := by
    rw [Nat.shiftLeft_eq]
    omega
  rw [rangeTreeWeightLoop, if_neg (by omega)]
  dsimp only
  rw [hacc]

lemma rangeTreeWeightLoop_accumulate (htop : ∀ j, 64 ≤ j → h j = 0) (hmax : spaMinblockshift ≤ maxIdx)
    (hfit : tailCount h maxIdx < 2 ^ 32) (d : Nat) : rangeTreeWeightLoop h maxIdx (maxIdx + d) (tailCount h (maxIdx + d + 1)) =
      rangeTreeWeightLoop h maxIdx maxIdx (tailCount h (maxIdx + 1)) := by
  induction d with
  | zero => rfl
  | succ d ih =>
    have hstep := tailCount_step htop (maxIdx + d + 1)
    have hle := tailCount_le htop (show maxIdx ≤ maxIdx + d + 1 by omega)
    rw [← add_assoc, rangeTreeWeightLoop_round (by omega) (by omega), if_pos (by omega), ← hstep, ih]

section
variable (hshift : spaMinblockshift ≤ shift) (hlow : ∀ j < shift, h j = 0) (htop : ∀ j, 64 ≤ j → h j = 0)
  (hfit : ∀ k < 32, scaledCount h shift k < 2 ^ 32)
include hshift hlow htop hfit

/-- From corresponding buckets on, both loops find the same one. -/
lemma rangeTreeWeightLoop_low (hk : k ≤ 31) :
    rangeTreeWeightLoop h (31 + shift) (k + shift - 1) 0 = spacemapWeightLoop (scaledCount h shift) shift k := by
  rw [spaMinblockshift] at hshift
  induction k with
  | zero => exact rangeTreeWeightLoop_below hlow (by omega)
  | succ k ih =>
    have hcount : scaledCount h shift k = h (k + shift) := scaledCount_low (by omega) htop
    have hbound := hfit k (by omega)
    have hi : k + 1 + shift - 1 = k + shift - 1 + 1 := by omega
    have hi' : k + shift - 1 + 1 = k + shift := by omega
    rw [hcount] at hbound
    rw [hi, rangeTreeWeightLoop_round (by rw [spaMinblockshift]; omega) (by rw [hi']; omega), if_neg (by omega), hi', spacemapWeightLoop,
      hcount, mul_zero, zero_add]
    by_cases hzero : h (k + shift) = 0
    · rw [if_neg (not_not.2 hzero), if_neg (not_not.2 hzero), hzero, ih (by omega)]
    · rw [if_pos hzero, if_pos hzero]

/-- **The two schemes agree**: accumulating from bucket 63 down, and the highest bucket of the histogram. -/
theorem rangeTreeWeightLoop_eq :
    rangeTreeWeightLoop h (31 + shift) 63 0 = spacemapWeightLoop (scaledCount h shift) shift 32 := by
  have hlast := hfit 31 (by norm_num)
  rw [scaledCount_last] at hlast
  have hmax : spaMinblockshift ≤ 31 + shift := by omega
  have hnone : tailCount h (31 + shift + 63 + 1) = 0 := by
    rw [tailCount, Ico_eq_empty (by omega), sum_empty]
  have hstart : rangeTreeWeightLoop h (31 + shift) 63 0 =
      rangeTreeWeightLoop h (31 + shift) (31 + shift) (tailCount h (31 + shift + 1)) := by
    rw [← rangeTreeWeightLoop_accumulate htop hmax hlast 63, hnone, ← rangeTreeWeightLoop_above htop (31 + shift), add_comm 63]
  have hstep := tailCount_step htop (31 + shift)
  have hi : 31 + shift = 31 + shift - 1 + 1 := by omega
  rw [hstart, spacemapWeightLoop, scaledCount_last]
  generalize tailCount h (31 + shift + 1) = acc at hstep
  rw [hstep] at hlast ⊢
  have hround : rangeTreeWeightLoop h (31 + shift) (31 + shift) acc =
      if 2 * acc + h (31 + shift) ≠ 0 then segmentWeight (2 * acc + h (31 + shift)) (31 + shift)
      else rangeTreeWeightLoop h (31 + shift) (31 + shift - 1) (2 * acc + h (31 + shift)) := by
    rw [hi] at hlast
    have hr : rangeTreeWeightLoop h (31 + shift) (31 + shift - 1 + 1) acc = _ := rangeTreeWeightLoop_round (by omega) hlast
    rw [← hi, if_neg (by omega)] at hr
    exact hr
  rw [hround]
  by_cases hzero : 2 * acc + h (31 + shift) = 0
  · rw [if_neg (not_not.2 hzero), if_neg (not_not.2 hzero), hzero]
    exact rangeTreeWeightLoop_low hshift hlow htop hfit (le_refl 31)
  · rw [if_pos hzero, if_pos hzero]

end

/-- The loop finds a weight: its counts have 32 bits and its indices are below 64. -/
lemma rangeTreeWeightLoop_ok (h : Nat → Nat) (maxIdx : Nat) : ∀ {i : Nat} (segments : Nat), i < 64 →
    ∃ w, rangeTreeWeightLoop h maxIdx i segments = .ok w := by
  intro i
  induction i with
  | zero => exact fun _ _ => ⟨0, rfl⟩
  | succ i ih =>
    intro segments hi
    rw [rangeTreeWeightLoop]
    dsimp only
    split_ifs
    · exact ⟨0, rfl⟩
    · exact ih _ (by omega)
    · exact ⟨_, segmentWeight_eq (by omega) hi⟩
    · exact ih _ (by omega)

lemma spacemapWeightLoop_highest {smp : Nat → Nat} (hk : smp k ≠ 0) (habove : ∀ j, k < j → smp j = 0) :
    ∀ {n : Nat}, k < n → spacemapWeightLoop smp shift n = segmentWeight (smp k) (k + shift) := by
  intro n
  induction n with
  | zero => exact fun hn => absurd hn (Nat.not_lt_zero _)
  | succ n ih =>
    intro hn
    rw [spacemapWeightLoop]
    by_cases he : k = n
    · rw [← he, if_pos hk]
    · rw [if_neg (not_not.2 (habove n (by omega))), ih (by omega)]

end

/-! ## Loaded and unloaded metaslabs -/

/-- The lengths of the segments are multiples of the unit, in 64 bits. -/
def InUnits (rt : RangeTree) (ashift : Nat) : Prop := ∀ s ∈ rt.rtRoot, 2 ^ ashift ∣ len s ∧ len s < 2 ^ 64

/-- The scaled segment counts of a tree fit in 32 bits. -/
def CountsFit (rt : RangeTree) (ashift : Nat) : Prop :=
  ∀ k < spaceMapHistogramSize, scaledCount rt.rtHistogram ashift k < 2 ^ 32

section
variable {rt : RangeTree} {ashift : Nat} {s : Seg}

lemma InUnits.idx_bounds (hu : InUnits rt ashift) (hs : s ∈ rt.rtRoot) : ashift ≤ histogramIdx s ∧ histogramIdx s < 64 := by
  obtain ⟨hdvd, hlt⟩ := hu s hs
  have hpos : 0 < len s := Nat.sub_pos_of_lt (rt.consistent.separated.pos s hs)
  have hne : len s ≠ 0 := by omega
  rw [histogramIdx, highbit64, if_neg hne, Nat.add_sub_cancel]
  exact ⟨(Nat.le_log2 hne).2 (Nat.le_of_dvd hpos hdvd), (Nat.log2_lt hne).2 hlt⟩

lemma InUnits.histogram_zero (hu : InUnits rt ashift) (hi : i < ashift ∨ 64 ≤ i) : rt.rtHistogram i = 0 := by
  rw [rt.consistent.histogram, List.countP_eq_zero]
  intro s hs he
  have hb := hu.idx_bounds hs
  simp only [decide_eq_true_eq] at he
  omega

/-- On a cleared histogram the scaled counts are left. -/
lemma spaceMapHistogramAdd_ok {sm : SpaceMapHistogram} (hu : InUnits rt sm.smShift.toNat) (hfit : CountsFit rt sm.smShift.toNat)
    (hobject : sm.smObject ≠ 0) (hhist : sm.hasHistogram = true) : spaceMapHistogramAdd (spaceMapHistogramClear sm) rt true =
      .ok { sm with smpHistogram := scaledCount rt.rtHistogram sm.smShift.toNat } := by
  have hverify : ∀ smp, spaceMapHistogramVerify { sm with smpHistogram := smp } rt = true := by
    intro smp
    rw [spaceMapHistogramVerify, List.all_eq_true]
    intro i hi
    exact decide_eq_true (hu.histogram_zero (.inl (List.mem_range.1 hi)))
  have hbuckets : ∀ k, scaledCount rt.rtHistogram sm.smShift.toNat k < 2 ^ 64 := by
    intro k
    by_cases hk : k < spaceMapHistogramSize
    · exact (hfit k hk).trans (by norm_num)
    · have hnone : scaledCount rt.rtHistogram sm.smShift.toNat k = 0 := by
        rw [scaledCount, scaledFrom]
        refine sum_eq_zero fun j _ => if_neg ?_
        rw [spaceMapHistogramSize] at hk
        rw [smBucket, spaceMapHistogramSize]
        omega
      rw [hnone]
      norm_num
  -- a unit of 64 bits or more leaves no bucket, and then there is no segment either
  have hloop : histogramAddLoop rt.rtHistogram sm.smShift.toNat (rangeTreeHistogramSize - sm.smShift.toNat) sm.smShift.toNat 0 (fun _ => 0) =
      .ok (scaledCount rt.rtHistogram sm.smShift.toNat) := by
    by_cases hshift : sm.smShift.toNat < 64
    · rw [histogramAddLoop_ok (h := rt.rtHistogram) (rangeTreeHistogramSize - sm.smShift.toNat) (by rw [rangeTreeHistogramSize]; omega)
        (le_refl _) (by rw [smBucket]; omega) (fun k => by rw [zero_add]; exact hbuckets k)]
      exact congrArg _ (funext fun k => zero_add _)
    · have hnone : ∀ k, scaledCount rt.rtHistogram sm.smShift.toNat k = 0 := by
        intro k
        rw [scaledCount, scaledFrom, Ico_eq_empty (by omega), sum_empty]
      rw [rangeTreeHistogramSize, Nat.sub_eq_zero_of_le (by omega), histogramAddLoop]
      exact congrArg _ (funext fun k => (hnone k).symm)
  rw [spaceMapHistogramClear, if_pos hhist, spaceMapHistogramAdd, ASSERT_bind rfl, VERIFY_bind hobject]
  dsimp only
  rw [if_pos hhist, ASSERT_bind (hverify _), hloop, ok_bind]

lemma scaledCount_single (hroot : rt.rtRoot = [s]) (hu : InUnits rt ashift) (k : Nat) : scaledCount rt.rtHistogram ashift k =
      if smBucket ashift (histogramIdx s) = k then 2 ^ (histogramIdx s - smBucket ashift (histogramIdx s) - ashift) else 0 := by
  have hb := hu.idx_bounds (s := s) (by rw [hroot]; exact List.mem_singleton_self s)
  have hhist : ∀ j, rt.rtHistogram j = if histogramIdx s = j then 1 else 0 := by
    intro j
    rw [rt.consistent.histogram, hroot, List.countP_singleton]
    simp
  have hterm : ∀ j ∈ Ico ashift 64, (if smBucket ashift j = k then scaled rt.rtHistogram ashift j else 0) =
      if histogramIdx s = j then (if smBucket ashift j = k then 2 ^ (j - smBucket ashift j - ashift) else 0) else 0 := by
    intro j _
    rw [scaled, hhist]
    split_ifs <;> simp
  rw [scaledCount, scaledFrom, sum_congr rfl hterm, sum_ite_eq, if_pos (mem_Ico.2 hb)]

/-- A single segment always fits: its length has at most 64 bits. -/
lemma countsFit_single (hroot : rt.rtRoot = [s]) (hu : InUnits rt ashift) (hpos : 0 < ashift) : CountsFit rt ashift := by
  intro k _
  have hb := hu.idx_bounds (s := s) (by rw [hroot]; exact List.mem_singleton_self s)
  rw [scaledCount_single hroot hu]
  split_ifs
  · refine Nat.pow_lt_pow_right (by norm_num) ?_
    rw [smBucket, spaceMapHistogramSize]
    omega
  · norm_num

end

/-- The direct computation is the weight of the one segment's bucket. -/
lemma metaslabSegmentWeight_free {msp : WeightedMetaslab} (hshift : msp.vdevAshift < 2 ^ 8)
    (hfree : spaceMapAllocated msp.msSm = 0) (hidx : highbit64 msp.msSize - 1 = idx)
    (hlow : msp.vdevAshift ≤ idx) (hhigh : idx < 64) :
    metaslabSegmentWeight msp =
      segmentWeight (2 ^ (idx - smBucket msp.vdevAshift idx - msp.vdevAshift)) (smBucket msp.vdevAshift idx + msp.vdevAshift) := by
  have hindex : smBucket msp.vdevAshift idx + msp.vdevAshift < 64 := by
    rw [smBucket]
    omega
  have hcount : 2 ^ (idx - smBucket msp.vdevAshift idx - msp.vdevAshift) < 2 ^ 54 := by
    refine Nat.pow_lt_pow_right (by norm_num) ?_
    rw [smBucket, spaceMapHistogramSize]
    omega
  have hpos : 0 < 2 ^ (idx - smBucket msp.vdevAshift idx - msp.vdevAshift) := Nat.two_pow_pos _
  have hfields := weightSetFields hcount hindex
  have hweight : freeWeight msp.msSize (msp.vdevAshift % 2 ^ 8) =
      (weightSetCount 0 (2 ^ (idx - smBucket msp.vdevAshift idx - msp.vdevAshift)) >>= fun weight =>
        weightSetIndex weight (smBucket msp.vdevAshift idx + msp.vdevAshift)) := by
    rw [freeWeight, Nat.mod_eq_of_lt hshift, hidx, spaceMapHistogramSize]
    by_cases hlt : idx < 32 + msp.vdevAshift - 1
    · have hbucket : smBucket msp.vdevAshift idx = idx - msp.vdevAshift := by
        rw [smBucket, spaceMapHistogramSize]
        omega
      rw [if_pos hlt, hbucket, show idx - (idx - msp.vdevAshift) - msp.vdevAshift = 0 by omega, pow_zero, Nat.sub_add_cancel hlow]
    · have hbucket : smBucket msp.vdevAshift idx = 31 := by
        rw [smBucket, spaceMapHistogramSize]
        omega
      rw [if_neg hlt, hbucket, Nat.one_shiftLeft, show idx - (32 + msp.vdevAshift - 1) = idx - 31 - msp.vdevAshift by omega,
        show 32 + msp.vdevAshift - 1 = 31 + msp.vdevAshift by omega]
  rw [metaslabSegmentWeight, if_pos hfree, hweight, hfields, ok_bind, segmentWeight_eq hcount hindex]
  generalize 2 ^ (idx - smBucket msp.vdevAshift idx - msp.vdevAshift) = count at hcount hpos
  generalize smBucket msp.vdevAshift idx + msp.vdevAshift = index at hindex
  have hsegment : weightIsSpacebased (index * 2 ^ 54 + count) = false := by
    have hbit : (index * 2 ^ 54 + count) / 2 ^ 60 = 0 := Nat.div_eq_of_lt (by omega)
    rw [weightIsSpacebased, decode_eq, hbit]
    simp
    omega
  rw [weightSetActive_zero (by omega), ok_bind, ASSERT_bind hsegment]

/-- **Loaded and unloaded weights.** The weight from the range tree is that of the space map rebuilt from it, and for
free space that from the size. -/
theorem loaded_unloaded_weights_agree (msp : WeightedMetaslab) (sm : SpaceMapHistogram) (hsm : msp.msSm = some sm)
    (hshift : sm.smShift.toNat = msp.vdevAshift) (hmin : 9 ≤ msp.vdevAshift) (hu : InUnits msp.msAllocatable msp.vdevAshift)
    (hfit : CountsFit msp.msAllocatable msp.vdevAshift) (hobject : sm.smObject ≠ 0) (hhist : sm.hasHistogram = true) :
    ∃ sm' w, spaceMapHistogramAdd (spaceMapHistogramClear sm) msp.msAllocatable true = .ok sm' ∧
      metaslabWeightFromRangeTree { msp with msLoaded := true } = .ok w ∧
      metaslabWeightFromSpacemap { msp with msSm := some sm' } = .ok w ∧
      (∀ start, msp.msAllocatable.rtRoot = [⟨start, start + msp.msSize⟩] → sm.smAlloc = 0 →
        metaslabSegmentWeight msp = .ok w) := by
  have hbyte : msp.vdevAshift < 2 ^ 8 := hshift ▸ sm.smShift.toNat_lt
  obtain ⟨w, hw⟩ := rangeTreeWeightLoop_ok msp.msAllocatable.rtHistogram (31 + msp.vdevAshift) 0 (show 63 < 64 by norm_num)
  have heq : rangeTreeWeightLoop msp.msAllocatable.rtHistogram (31 + msp.vdevAshift) 63 0 = _ := rangeTreeWeightLoop_eq hmin
    (fun j hj => hu.histogram_zero (.inl hj)) (fun j hj => hu.histogram_zero (.inr hj)) hfit
  rw [← hshift] at hu hfit
  refine ⟨_, w, spaceMapHistogramAdd_ok hu hfit hobject hhist, ?_, ?_, ?_⟩
  · rw [metaslabWeightFromRangeTree, ASSERT_bind rfl]
    dsimp only
    rw [Nat.mod_eq_of_lt hbyte, spaceMapHistogramSize, rangeTreeHistogramSize, show 32 + msp.vdevAshift - 1 = 31 + msp.vdevAshift by omega]
    exact hw
  · rw [metaslabWeightFromSpacemap]
    dsimp only
    rw [hshift, spaceMapHistogramSize, ← heq, hw]
  · intro start hroot halloc
    have hs : (⟨start, start + msp.msSize⟩ : Seg) ∈ msp.msAllocatable.rtRoot := by
      rw [hroot]
      exact List.mem_singleton_self _
    rw [hshift] at hu
    have hb := hu.idx_bounds hs
    have hlen : highbit64 msp.msSize - 1 = histogramIdx ⟨start, start + msp.msSize⟩ := by
      rw [histogramIdx, len, Nat.add_sub_cancel_left]
    have hfree : spaceMapAllocated msp.msSm = 0 := by rw [hsm, spaceMapAllocated, Option.map_some, halloc, Option.getD_some]
    have hcount := scaledCount_single hroot hu
    have hbucket : smBucket msp.vdevAshift (histogramIdx ⟨start, start + msp.msSize⟩) < spaceMapHistogramSize := by
      rw [smBucket, spaceMapHistogramSize]
      omega
    have htop : spacemapWeightLoop (scaledCount msp.msAllocatable.rtHistogram msp.vdevAshift) msp.vdevAshift spaceMapHistogramSize = _ :=
      spacemapWeightLoop_highest (by rw [hcount, if_pos rfl]; exact (Nat.two_pow_pos _).ne') (fun j hj => by rw [hcount, if_neg (by omega)]) hbucket
    rw [metaslabSegmentWeight_free hbyte hfree hlen hb.1 hb.2, ← hw, heq]
    rw [hcount, if_pos rfl] at htop
    exact htop.symm

/-- A new space map on a vdev with sectors of 512 bytes. -/
def freeSpaceMap : SpaceMapHistogram := ⟨9, 0, 1, true, fun _ => 7⟩

/-- A free metaslab of 16 TB, past the last bucket of its space map. -/
def freeMetaslab : WeightedMetaslab where
  msSize := 2 ^ 44
  msLoaded := false
  msAllocatable := .ofSeg ⟨0, 0 + 2 ^ 44⟩ (by norm_num)
  msSm := some freeSpaceMap
  vdevAshift := 9
  msActivationWeight := 0
  msWeight := 0

theorem loaded_unloaded_weights_agree_free :
    ∃ sm' w, spaceMapHistogramAdd (spaceMapHistogramClear freeSpaceMap) freeMetaslab.msAllocatable true = .ok sm' ∧
      metaslabWeightFromRangeTree { freeMetaslab with msLoaded := true } = .ok w ∧
      metaslabWeightFromSpacemap { freeMetaslab with msSm := some sm' } = .ok w ∧ metaslabSegmentWeight freeMetaslab = .ok w := by
  have hu : InUnits freeMetaslab.msAllocatable 9 := by
    intro s hs
    obtain rfl := List.mem_singleton.1 hs
    decide
  obtain ⟨sm', w, hadd, htree, hmap, hfree⟩ := loaded_unloaded_weights_agree freeMetaslab freeSpaceMap rfl rfl (le_refl 9) hu
    (countsFit_single rfl hu (by decide)) (by decide) rfl
  exact ⟨sm', w, hadd, htree, hmap, hfree 0 rfl rfl⟩

end Unleashed.Zfs
