import Mathlib

/-!
# Time conversion without division

`hrt2ts` multiplies by shifts and adds in 32 bits, keeping the high part of the product. The sums carry out of the 32
bits for a time of 98 years or more.
-/

namespace Unleashed.Kernel

/-- `uint32_t`. -/
def u32 (x : Int) : Int := x % 2 ^ 32

/-- The first estimate of the seconds, from the high bits of the time. -/
def hrtSec (tmp : Int) : Int :=
  let sec := u32 (tmp - tmp / 2 ^ 2)
  let sec := u32 (tmp - sec / 2 ^ 5)
  let sec := u32 (tmp + sec / 2 ^ 1)
  let sec := u32 (tmp - sec / 2 ^ 6 + 7)
  let sec := u32 (tmp - sec / 2 ^ 3)
  let sec := u32 (tmp + sec / 2 ^ 1)
  let sec := u32 (tmp + sec / 2 ^ 3)
  u32 (tmp + sec / 2 ^ 4)

/-- What is left of the time behind `sec` seconds. -/
def hrtNsec (hrt sec : Int) : Int :=
  let tmp := u32 (sec * 2 ^ 7 - sec - sec - sec)
  let tmp := u32 (tmp * 2 ^ 7 - tmp - tmp - tmp)
  let tmp := u32 (tmp * 2 ^ 7 - tmp - tmp - tmp)
  u32 (u32 hrt - u32 (tmp * 2 ^ 9))

/-- The correction, of at most `fuel` turns; `NANOSEC` is `10 ^ 9`. -/
def hrtCorrect : (fuel : Nat) → (sec nsec : Int) → Option (Int × Int)
  | 0, sec, nsec => if nsec ≥ 10 ^ 9 then none else some (sec, nsec)
  | fuel + 1, sec, nsec => if nsec ≥ 10 ^ 9 then hrtCorrect fuel (u32 (sec + 1)) (nsec - 10 ^ 9) else some (sec, nsec)

/-- The seconds and nanoseconds, or nothing if the correction takes more than four turns. -/
def hrt2ts (hrt : Int) : Option (Int × Int) :=
  let sec := hrtSec (u32 (hrt / 2 ^ 30))
  hrtCorrect 4 sec (hrtNsec hrt sec)

/-- `hrtime_t` holds all of these sums. -/
def ts2hrt (ts : Int × Int) : Int :=
  let hrt := ts.1
  let hrt := hrt * 2 ^ 7 - hrt - hrt - hrt
  let hrt := hrt * 2 ^ 7 - hrt - hrt - hrt
  let hrt := hrt * 2 ^ 7 - hrt - hrt - hrt
  hrt * 2 ^ 9 + ts.2

/-- The division by 1000. -/
def nsecToUsec (nsec : Int) : Int :=
  let t := u32 (nsec / 2 ^ 7 + nsec / 2 ^ 8 + nsec / 2 ^ 12)
  let q := u32 (nsec / 2 ^ 1 + t + nsec / 2 ^ 15 + t / 2 ^ 11 + t / 2 ^ 14)
  let q := q / 2 ^ 9
  let r := u32 (nsec - q * 1000)
  u32 (q + u32 (r + 24) / 2 ^ 10)

def hrt2tv (hrt : Int) : Option (Int × Int) := (hrt2ts hrt).map fun ts => (ts.1, nsecToUsec ts.2)

/-- The conversions of `hrt` are exact. -/
structure HrtExact (hrt : Int) : Prop where
  ts : hrt2ts hrt = some (hrt / 10 ^ 9, hrt % 10 ^ 9)
  tv : hrt2tv hrt = some (hrt / 10 ^ 9, hrt % 10 ^ 9 / 1000)
  back : (hrt2ts hrt).map ts2hrt = some hrt

variable {hrt sec nsec : Int} {fuel : Nat}

lemma u32_of_lt {x : Int} (h0 : 0 ≤ x) (hlt : x < 2 ^ 32) : u32 x = x := Int.emod_eq_of_lt h0 hlt

lemma u32_le {x : Int} (h0 : 0 ≤ x) : 0 ≤ u32 x ∧ u32 x ≤ x := by
  unfold u32
  omega

lemma hrtNsec_eq : hrtNsec hrt sec = u32 (hrt - sec * 10 ^ 9) := by
  unfold hrtNsec u32
  dsimp only
  omega

lemma hrtCorrect_eq (h0 : 0 ≤ sec) (hn : 0 ≤ nsec) (hfuel : nsec < (fuel + 1) * 10 ^ 9) (hlt : sec + nsec / 10 ^ 9 < 2 ^ 32) :
    hrtCorrect fuel sec nsec = some (sec + nsec / 10 ^ 9, nsec % 10 ^ 9) := by
  induction fuel generalizing sec nsec with
  | zero => rw [hrtCorrect, if_neg (by omega), Int.ediv_eq_zero_of_lt hn (by omega), Int.emod_eq_of_lt hn (by omega), add_zero]
  | succ fuel ih =>
    unfold hrtCorrect
    split_ifs with hge
    · rw [u32_of_lt (by omega) (by omega), ih (by omega) (by omega) (by push_cast at hfuel; omega) (by omega)]
      congr 2 <;> omega
    · rw [Int.ediv_eq_zero_of_lt hn (by omega), Int.emod_eq_of_lt hn (by omega), add_zero]

/-- The correction adds at most `fuel` seconds. -/
lemma hrtCorrect_sec {ts : Int × Int} (h : hrtCorrect fuel sec nsec = some ts) (hsec : 0 ≤ sec) (hlt : sec + fuel < 2 ^ 32) :
    ts.1 ≤ sec + fuel := by
  induction fuel generalizing sec nsec with
  | zero =>
    unfold hrtCorrect at h
    split_ifs at h
    cases h
    simp
  | succ fuel ih =>
    unfold hrtCorrect at h
    push_cast at hlt ⊢
    split_ifs at h
    · rw [u32_of_lt (by omega) (by omega)] at h
      have := ih h (by omega) (by omega)
      omega
    · cases h
      dsimp only
      omega

section
variable {t : Int}

/-- The first two sums never carry. -/
lemma first_sums (h0 : 0 ≤ t) (hlt : t < 2 ^ 32) :
    ∃ s, u32 (t - u32 (t - t / 2 ^ 2) / 2 ^ 5) = s ∧ 125 * t - 3 ≤ 128 * s ∧ 128 * s ≤ 125 * t + 124 := by
  rw [u32_of_lt (x := t - t / 2 ^ 2) (by omega) (by omega)]
  exact ⟨_, u32_of_lt (by omega) (by omega), by omega, by omega⟩

/-- The estimate where no sum carries. -/
lemma hrtSec_bounds (h0 : 0 ≤ t) (hlt : t < 2885857291) :
    36028797 * t - 33554307 ≤ 33554432 * hrtSec t ∧ 33554432 * hrtSec t ≤ 36028797 * t + 124 := by
  obtain ⟨s2, hs2, bs2⟩ := first_sums h0 (by omega)
  obtain ⟨s3, hs3, bs3⟩ : ∃ s, u32 (t + s2 / 2 ^ 1) = s ∧ 381 * t - 131 ≤ 256 * s ∧ 256 * s ≤ 381 * t + 124 :=
    ⟨_, u32_of_lt (by omega) (by omega), by omega, by omega⟩
  clear bs2
  obtain ⟨s4, hs4, bs4⟩ : ∃ s, u32 (t - s3 / 2 ^ 6 + 7) = s ∧ 16003 * t + 114564 ≤ 16384 * s ∧ 16384 * s ≤ 16003 * t + 130947 :=
    ⟨_, u32_of_lt (by omega) (by omega), by omega, by omega⟩
  clear bs3
  obtain ⟨s5, hs5, bs5⟩ : ∃ s, u32 (t - s4 / 2 ^ 3) = s ∧ 115069 * t - 130947 ≤ 131072 * s ∧ 131072 * s ≤ 115069 * t + 124 :=
    ⟨_, u32_of_lt (by omega) (by omega), by omega, by omega⟩
  clear bs4
  obtain ⟨s6, hs6, bs6⟩ : ∃ s, u32 (t + s5 / 2 ^ 1) = s ∧ 377213 * t - 262019 ≤ 262144 * s ∧ 262144 * s ≤ 377213 * t + 124 :=
    ⟨_, u32_of_lt (by omega) (by omega), by omega, by omega⟩
  clear bs5
  obtain ⟨s7, hs7, bs7⟩ : ∃ s, u32 (t + s6 / 2 ^ 3) = s ∧ 2474365 * t - 2097027 ≤ 2097152 * s ∧ 2097152 * s ≤ 2474365 * t + 124 :=
    ⟨_, u32_of_lt (by omega) (by omega), by omega, by omega⟩
  clear bs6
  simp only [hrtSec, hs2, hs3, hs4, hs5, hs6, hs7]
  rw [u32_of_lt (by omega) (by omega)]
  omega

/-- Where the estimate could be too large, for a small `t`, the two products are further apart than it is wrong. -/
lemma estimate_le {s : Int} (h0 : 0 ≤ t) (hs : 33554432 * s ≤ 36028797 * t + 124) : s * 1953125 ≤ t * 2097152 := by
  by_contra hgt
  obtain ⟨d, hd⟩ : ∃ d, s * 1953125 = t * 2097152 + d := ⟨s * 1953125 - t * 2097152, by ring⟩
  have hd1 : 1 ≤ d := by omega
  have hd7 : d ≤ 7 := by omega
  have hsmall : t < 6540 := by omega
  -- `1061338` is the inverse of 2²¹ modulo 5⁹
  have hmod : t + d * 1061338 = 1953125 * (s * 1061338 - t * 1139603) := by linear_combination -1061338 * hd
  generalize s * 1061338 - t * 1139603 = m at hmod
  clear hd hs hgt
  interval_cases d <;> omega

/-- A carry out of the third sum leaves the estimate too small. -/
lemma hrtSec_carry (hge : 2885857291 ≤ t) (hlt : t < 4000000000) : 0 ≤ hrtSec t ∧ 33554432 * hrtSec t < 36028797 * t - 2 ^ 39 := by
  obtain ⟨s2, hs2, b2⟩ := first_sums (by omega) (by omega : t < 2 ^ 32)
  have h3 : 2 ^ 32 ≤ t + s2 / 2 ^ 1 := by
    rcases hge.eq_or_lt with rfl | hgt
    · rw [← hs2]
      decide
    · omega
  obtain ⟨s3, hs3, b3⟩ : ∃ s, u32 (t + s2 / 2 ^ 1) = s ∧ 0 ≤ s ∧ 256 * s ≤ 381 * t + 124 - 2 ^ 40 := by
    refine ⟨t + s2 / 2 ^ 1 - 2 ^ 32, ?_, by omega, by omega⟩
    rw [u32, ← Int.sub_emod_right, Int.emod_eq_of_lt (by omega) (by omega)]
  clear b2 h3
  obtain ⟨s4, hs4, b4⟩ : ∃ s, u32 (t - s3 / 2 ^ 6 + 7) = s ∧ 64 * t - s3 + 448 ≤ 64 * s ∧ s ≤ t + 7 :=
    ⟨_, u32_of_lt (by omega) (by omega), by omega, by omega⟩
  obtain ⟨s5, hs5, b5⟩ : ∃ s, u32 (t - s4 / 2 ^ 3) = s ∧ 0 ≤ s ∧ 8 * s ≤ 8 * t - s4 + 7 :=
    ⟨_, u32_of_lt (by omega) (by omega), by omega, by omega⟩
  have h6 := u32_le (x := t + s5 / 2 ^ 1) (by omega)
  have h7 := u32_le (x := t + u32 (t + s5 / 2 ^ 1) / 2 ^ 3) (by omega)
  have h8 := u32_le (x := t + u32 (t + u32 (t + s5 / 2 ^ 1) / 2 ^ 3) / 2 ^ 4) (by omega)
  simp only [hrtSec, hs2, hs3, hs4, hs5]
  omega

end

lemma hrt2ts_eq (h0 : 0 ≤ hrt) (hlt : hrt < 2885857291 * 2 ^ 30) : hrt2ts hrt = some (hrt / 10 ^ 9, hrt % 10 ^ 9) := by
  have hbounds := hrtSec_bounds (t := hrt / 2 ^ 30) (by omega) (by omega)
  have hle := estimate_le (by omega) hbounds.2
  unfold hrt2ts
  rw [u32_of_lt (by omega) (by omega)]
  generalize hrtSec (hrt / 2 ^ 30) = sec at *
  dsimp only
  rw [hrtNsec_eq, u32_of_lt (by omega) (by omega), hrtCorrect_eq (by omega) (by omega) (by omega) (by omega)]
  congr 2 <;> omega

lemma nsecToUsec_eq (h0 : 0 ≤ nsec) (hlt : nsec < 10 ^ 9) : nsecToUsec nsec = nsec / 1000 := by
  obtain ⟨t, ht, ht0, bt⟩ : ∃ t, u32 (nsec / 2 ^ 7 + nsec / 2 ^ 8 + nsec / 2 ^ 12) = t ∧ 0 ≤ t ∧
      49 * nsec - 12269 ≤ 4096 * t ∧ 4096 * t ≤ 49 * nsec := ⟨_, u32_of_lt (by omega) (by omega), by omega, by omega, by omega⟩
  obtain ⟨q, hq, bq⟩ : ∃ q, u32 (nsec / 2 ^ 1 + t + nsec / 2 ^ 15 + t / 2 ^ 11 + t / 2 ^ 14) = q ∧
      1000 * (q / 2 ^ 9) ≤ nsec ∧ nsec < 1000 * (q / 2 ^ 9) + 2000 := ⟨_, u32_of_lt (by positivity) (by omega), by omega, by omega⟩
  simp only [nsecToUsec, ht, hq]
  rw [u32_of_lt (x := nsec - _) (by omega) (by omega), u32_of_lt (x := _ + 24) (by omega) (by omega), u32_of_lt (by omega) (by omega)]
  omega

/-- **The conversion of a time** to seconds and nanoseconds or microseconds, and back, is exact for the times up to the
first whose sums carry, about 98 years. -/
theorem hrt2ts_exact_iff (h0 : 0 ≤ hrt) (hlt : hrt < 2 ^ 32 * 10 ^ 9) : HrtExact hrt ↔ hrt < 2885857291 * 2 ^ 30 := by
  constructor
  · intro h
    by_contra hge
    have hcarry := hrtSec_carry (t := hrt / 2 ^ 30) (by omega) (by omega)
    have hts := h.ts
    unfold hrt2ts at hts
    rw [u32_of_lt (by omega) (by omega)] at hts
    have := hrtCorrect_sec hts hcarry.1 (by omega)
    dsimp only at this
    omega
  · intro hlt
    have hts := hrt2ts_eq h0 hlt
    refine ⟨hts, ?_, ?_⟩
    · rw [hrt2tv, hts, Option.map_some, nsecToUsec_eq (Int.emod_nonneg _ (by decide)) (Int.emod_lt_of_pos _ (by decide))]
    · rw [hts, Option.map_some, ts2hrt]
      congr 1
      dsimp only
      omega

theorem hrt2ts_exact_iff_second : HrtExact 1500000000 :=
  (hrt2ts_exact_iff (by decide) (by decide)).2 (by decide)

/-- At 126 years. -/
theorem hrt2ts_carries : 4000000000000000000 < 2 ^ 32 * 10 ^ 9 ∧ ¬ HrtExact 4000000000000000000 :=
  ⟨by decide, fun h => absurd h.ts (by decide)⟩

end Unleashed.Kernel
