import Unleashed.Lib.Fault

/-!
# The ranges of record locks (`fcntl.c`, `flock.c`)

`flock_check` decides whether the range of an `fcntl` request is acceptable, and `flk_convert_lock_data` with
`flk_check_lock_data` computes it again. Both mix `offset_t` with the unsigned `uoff_t`: integers and natural numbers
here, with the conversion written out.
-/

namespace Unleashed.Kernel

open Lib Option Except

/-- The conversion of `offset_t` to `uoff_t`, and its arithmetic. -/
def uoff (x : Int) : Nat := (x % 2 ^ 64).toNat

/-- `MAXOFFSET_T`, which is also `MAXEND`. -/
def maxoffsetT : Int := 2 ^ 63 - 1

def maxUOffsetT : Nat := 2 ^ 64 - 1

inductive Errno where
  | EINVAL
  | EOVERFLOW
  | EIO
deriving DecidableEq, Repr

inductive LockType where
  | F_RDLCK
  | F_WRLCK
  | F_UNLCK
deriving DecidableEq, Repr

/-- `flock64_t`. -/
structure Flock64 where
  lType : LockType
  (lWhence lStart lLen : Int)
  start_range : -2 ^ 63 ≤ lStart ∧ lStart < 2 ^ 63
  len_range : -2 ^ 63 ≤ lLen ∧ lLen < 2 ^ 63

/-! ## `flock_check` -/

section
variable (getattr : Except Errno Int) (flp : Flock64) (offset max : Int)

/-- The start of the request. `getattr` is what `fop_getattr` gives. -/
def flockCheckStart : Except Errno Nat :=
  if flp.lWhence = 0 then
    if uoff flp.lStart > uoff max then .error .EINVAL else .ok (uoff flp.lStart)
  else if flp.lWhence = 1 then
    if flp.lStart > max - offset then .error .EOVERFLOW
    else if uoff (flp.lStart + offset) > uoff max then .error .EINVAL
    else .ok (uoff (flp.lStart + offset))
  else if flp.lWhence = 2 then
    match getattr with
    | .error e => .error e
    | .ok size =>
      if flp.lStart > max - size then .error .EOVERFLOW
      else if uoff (flp.lStart + size) > uoff max then .error .EINVAL
      else .ok (uoff (flp.lStart + size))
  else .error .EINVAL

/-- The range that is covered by the request: its start and its end. -/
def flockCheckRange (start : Nat) : Except Fault (Except Errno (Nat × Nat)) :=
  if flp.lLen = 0 then .ok (.ok (start, uoff maxoffsetT))
  else if flp.lLen > 0 then
    if uoff flp.lLen > uoff (max - start + 1) then .ok (.error .EOVERFLOW)
    else do
      ASSERT (uoff (start + (flp.lLen - 1)) ≤ uoff max)
      .ok (.ok (start, uoff (start + (flp.lLen - 1))))
  else
    -- a negative length: the start of the request is the end of the range
    if uoff (start + uoff flp.lLen + 1) > uoff max then .ok (.error .EINVAL)
    else do
      ASSERT (start ≤ uoff max)
      .ok (.ok (uoff (start + uoff flp.lLen + 1), start))

/-- An unlock up to the last offset has no end. -/
def Flock64.unlockToEnd (flp : Flock64) (stop : Nat) (max : Int) : Flock64 :=
  if flp.lType = .F_UNLCK ∧ flp.lLen > 0 ∧ stop = uoff max then { flp with lLen := 0, len_range := by decide } else flp

/-- `flock_check`: the error, or the request, its length perhaps changed. -/
def flockCheck : Except Fault (Except Errno Flock64) :=
  match flockCheckStart getattr flp offset max with
  | .error e => .ok (.error e)
  | .ok start => do
    match ← flockCheckRange flp max start with
    | .error e => .ok (.error e)
    | .ok (start, stop) =>
      ASSERT (start ≤ uoff max)
      if start > stop then .ok (.error .EINVAL) else .ok (.ok (flp.unlockToEnd stop max))

end

/-! ## Setting the lock -/

/-- The starting point, which `flk_convert_lock_data` does not check. -/
def flkConvertStart (getattr : Except Errno Int) (flp : Flock64) (offset : Int) : Except Errno Nat :=
  if flp.lWhence = 0 then .ok (uoff flp.lStart)
  else if flp.lWhence = 1 then .ok (uoff (flp.lStart + offset))
  else if flp.lWhence = 2 then getattr.map fun size => uoff (flp.lStart + size)
  else .error .EINVAL

def flkConvertLockData (getattr : Except Errno Int) (flp : Flock64) (offset : Int) : Except Errno (Nat × Nat) := do
  let start ← flkConvertStart getattr flp offset
  if flp.lLen = 0 then .ok (start, maxUOffsetT)
  else if flp.lLen > 0 then .ok (start, uoff (start + (flp.lLen - 1)))
  else .ok (uoff (start + uoff flp.lLen + 1), start)

def flkCheckLockData (start stop : Nat) (max : Int) : Except Errno Unit :=
  if start > uoff max ∨ (stop > uoff max ∧ stop ≠ maxUOffsetT) then .error .EINVAL
  else if start > stop then .error .EINVAL
  else .ok ()

/-! ## The manual -/

/-- What `l_start` is relative to. -/
def whenceBase (whence offset size : Int) : Option Int :=
  if whence = 0 then some 0 else if whence = 1 then some offset else if whence = 2 then some size else none

/-- The range that fcntl(2) gives to a request; `none` is no end. -/
def documentedRange (base lStart lLen : Int) : Int × Option Int :=
  if lLen > 0 then (base + lStart, some (base + lStart + lLen - 1))
  else if lLen < 0 then (base + lStart + lLen, some (base + lStart - 1))
  else (base + lStart, none)

/-- A range that can be locked: between 0 and the last offset. -/
def Lockable (base lStart lLen : Int) : Prop :=
  0 ≤ (documentedRange base lStart lLen).1 ∧ (∀ e, (documentedRange base lStart lLen).2 = some e → e ≤ maxoffsetT) ∧
  base + lStart ≤ maxoffsetT

/-- How an end is represented. -/
def representedEnd (type : LockType) : Option Int → Nat
  | none => maxUOffsetT
  | some e => if type = .F_UNLCK ∧ e = maxoffsetT then maxUOffsetT else e.toNat

/-- Accepted if and only if the range can be locked, with the documented range. -/
def AsDocumented (flp : Flock64) (offset size base : Int) : Prop :=
  ((∃ flp', flockCheck (.ok size) flp offset maxoffsetT = .ok (.ok flp')) ↔ Lockable base flp.lStart flp.lLen) ∧
  ∀ flp', flockCheck (.ok size) flp offset maxoffsetT = .ok (.ok flp') →
    ∃ start stop, flkConvertLockData (.ok size) flp' offset = .ok (start, stop) ∧
      flkCheckLockData start stop maxoffsetT = .ok () ∧
      (start : Int) = (documentedRange base flp.lStart flp.lLen).1 ∧
      stop = representedEnd flp.lType (documentedRange base flp.lStart flp.lLen).2

section
variable {flp : Flock64} {offset size base : Int}

lemma uoff_of_nonneg {x : Int} (h0 : 0 ≤ x) (h : x < 2 ^ 64) : (uoff x : Int) = x := by
  rw [uoff, Int.emod_eq_of_lt h0 h, Int.toNat_of_nonneg h0]

lemma uoff_of_neg {x : Int} (h0 : x < 0) (h : -2 ^ 64 ≤ x) : (uoff x : Int) = x + 2 ^ 64 := by
  unfold uoff
  omega

lemma uoff_maxoffsetT : (uoff maxoffsetT : Int) = 2 ^ 63 - 1 := uoff_of_nonneg (by decide) (by decide)

lemma uoff_start (h0 : 0 ≤ base + flp.lStart) (hle : base + flp.lStart ≤ maxoffsetT) :
    (uoff (flp.lStart + base) : Int) = flp.lStart + base := by
  have hm : maxoffsetT = 2 ^ 63 - 1 := rfl
  exact uoff_of_nonneg (by omega) (by omega)

lemma uoff_start_gt (hb : 0 ≤ base ∧ base < 2 ^ 63) (hle : flp.lStart ≤ maxoffsetT - base) :
    uoff (flp.lStart + base) > uoff maxoffsetT ↔ base + flp.lStart < 0 := by
  have hstart := flp.start_range
  have hmax := uoff_maxoffsetT
  have hm : maxoffsetT = 2 ^ 63 - 1 := rfl
  rcases lt_or_ge (flp.lStart + base) 0 with hneg | hpos
  · have := uoff_of_neg hneg (by omega)
    omega
  · have := uoff_of_nonneg hpos (by omega)
    omega

/-- The two checks of a start relative to the offset or the end. -/
lemma relative_start_spec (hb : 0 ≤ base ∧ base < 2 ^ 63) :
    let checked : Except Errno Nat :=
      if flp.lStart > maxoffsetT - base then .error .EOVERFLOW
      else if uoff (flp.lStart + base) > uoff maxoffsetT then .error .EINVAL
      else .ok (uoff (flp.lStart + base))
    (0 ≤ base + flp.lStart ∧ base + flp.lStart ≤ maxoffsetT → checked = .ok (uoff (flp.lStart + base))) ∧
    (¬ (0 ≤ base + flp.lStart ∧ base + flp.lStart ≤ maxoffsetT) → ∃ e, checked = .error e) := by
  have := @uoff_start_gt flp base hb
  intro checked
  constructor
  · intro h
    exact (if_neg (by omega)).trans (if_neg (by omega))
  · intro h
    dsimp only [checked]
    split_ifs with hover hin
    · exact ⟨_, rfl⟩
    · exact ⟨_, rfl⟩
    · omega

lemma flockCheckStart_spec (hoff : 0 ≤ offset ∧ offset < 2 ^ 63) (hsize : 0 ≤ size ∧ size < 2 ^ 63)
    (hbase : whenceBase flp.lWhence offset size = some base) : (0 ≤ base + flp.lStart ∧ base + flp.lStart ≤ maxoffsetT →
      flockCheckStart (.ok size) flp offset maxoffsetT = .ok (uoff (flp.lStart + base))) ∧
    (¬ (0 ≤ base + flp.lStart ∧ base + flp.lStart ≤ maxoffsetT) →
      ∃ e, flockCheckStart (.ok size) flp offset maxoffsetT = .error e) := by
  have hstart := flp.start_range
  have hm : maxoffsetT = 2 ^ 63 - 1 := rfl
  unfold whenceBase at hbase
  unfold flockCheckStart
  split_ifs at hbase with h0 h1 h2
  · obtain rfl := some.inj hbase
    have := @uoff_start_gt flp 0 (by omega) (by omega)
    rw [Int.add_zero] at this ⊢
    rw [if_pos h0]
    constructor
    · intro h
      rw [if_neg (by omega)]
    · intro h
      rw [if_pos (by omega)]
      exact ⟨_, rfl⟩
  · obtain rfl := some.inj hbase
    rw [if_neg h0, if_pos h1]
    exact relative_start_spec hoff
  · obtain rfl := some.inj hbase
    rw [if_neg h0, if_neg h1, if_pos h2]
    exact relative_start_spec hsize

/-- What `flock_check` accepts: a start that is an offset, for a negative length the one after the documented start. -/
structure Accepted (base lStart lLen : Int) : Prop where
  nonneg : 0 ≤ base + lStart
  le : base + lStart ≤ maxoffsetT
  positive : 0 < lLen → base + lStart + lLen - 1 ≤ maxoffsetT
  negative : lLen < 0 → 0 ≤ base + lStart + lLen + 1

/-- The end of an accepted request, as `flock_check` computes it. -/
def acceptedEnd (base lStart lLen : Int) : Int :=
  if lLen = 0 then maxoffsetT else if 0 < lLen then base + lStart + lLen - 1 else base + lStart

/-- Adding a negative length wraps around to the start of the range. -/
lemma Accepted.uoff_back (h : Accepted base flp.lStart flp.lLen) (hneg : flp.lLen < 0) :
    (uoff (uoff (flp.lStart + base) + uoff flp.lLen + 1) : Int) = base + flp.lStart + flp.lLen + 1 := by
  have hm : maxoffsetT = 2 ^ 63 - 1 := rfl
  have hlen := flp.len_range
  have hle := h.le
  have hlow := h.negative hneg
  have hstart := uoff_start h.nonneg h.le
  have hwrap := uoff_of_neg hneg (by omega)
  unfold uoff at *
  omega

lemma flockCheckRange_accepts (h : Accepted base flp.lStart flp.lLen) :
    ∃ start stop : Nat, flockCheckRange flp maxoffsetT (uoff (flp.lStart + base)) = .ok (.ok (start, stop)) ∧
      start ≤ uoff maxoffsetT ∧ start ≤ stop ∧ (stop : Int) = acceptedEnd base flp.lStart flp.lLen := by
  have hm : maxoffsetT = 2 ^ 63 - 1 := rfl
  have hmax := uoff_maxoffsetT
  have hlen := flp.len_range
  have hle := h.le
  have hstart := uoff_start h.nonneg h.le
  unfold flockCheckRange acceptedEnd
  rcases lt_trichotomy flp.lLen 0 with hneg | hzero | hpos
  · have hlow := h.negative hneg
    have hback := h.uoff_back hneg
    rw [if_neg (by omega), if_neg (by omega), if_neg (by omega), ASSERT_bind (by omega), if_neg (by omega), if_neg (by omega)]
    exact ⟨_, _, rfl, by omega, by omega, by omega⟩
  · rw [if_pos hzero, if_pos hzero]
    exact ⟨_, _, rfl, by omega, by omega, by omega⟩
  · have hwrap := uoff_of_nonneg hpos.le (by omega)
    have hroom := uoff_of_nonneg (x := maxoffsetT - uoff (flp.lStart + base) + 1) (by omega) (by omega)
    have hend := uoff_of_nonneg (x := uoff (flp.lStart + base) + (flp.lLen - 1)) (by omega) (by have := h.positive hpos; omega)
    have := h.positive hpos
    rw [if_neg (by omega), if_pos hpos, if_neg (by omega), ASSERT_bind (by omega), if_neg (by omega), if_pos hpos]
    exact ⟨_, _, rfl, by omega, by omega, by omega⟩

lemma flockCheckRange_rejects (h0 : 0 ≤ base + flp.lStart) (hle : base + flp.lStart ≤ maxoffsetT)
    (h : ¬ Accepted base flp.lStart flp.lLen) :
    ∃ e, flockCheckRange flp maxoffsetT (uoff (flp.lStart + base)) = .ok (.error e) := by
  have hm : maxoffsetT = 2 ^ 63 - 1 := rfl
  have hmax := uoff_maxoffsetT
  have hlen := flp.len_range
  have hstart := uoff_start h0 hle
  unfold flockCheckRange
  rcases lt_trichotomy flp.lLen 0 with hneg | hzero | hpos
  · have hlow : base + flp.lStart + flp.lLen + 1 < 0 := by
      by_contra hnn
      exact h ⟨h0, hle, fun hp => absurd hp (by omega), fun _ => by omega⟩
    have hwrap := uoff_of_neg hneg (by omega)
    have hback : (uoff (uoff (flp.lStart + base) + uoff flp.lLen + 1) : Int) = base + flp.lStart + flp.lLen + 1 + 2 ^ 64 := by
      unfold uoff at *
      omega
    rw [if_neg (by omega), if_neg (by omega), if_pos (by omega)]
    exact ⟨_, rfl⟩
  · exact absurd ⟨h0, hle, fun hp => absurd hp (by omega), fun hn => absurd hn (by omega)⟩ h
  · have hhigh : maxoffsetT < base + flp.lStart + flp.lLen - 1 := by
      by_contra hnn
      exact h ⟨h0, hle, fun _ => by omega, fun hn => absurd hn (by omega)⟩
    have hwrap := uoff_of_nonneg hpos.le (by omega)
    have hroom := uoff_of_nonneg (x := maxoffsetT - uoff (flp.lStart + base) + 1) (by omega) (by omega)
    rw [if_neg (by omega), if_pos hpos, if_pos (by omega)]
    exact ⟨_, rfl⟩

/-- **`flock_check`** accepts what is `Accepted`, and no assertion fails. -/
theorem flockCheck_spec (hoff : 0 ≤ offset ∧ offset < 2 ^ 63) (hsize : 0 ≤ size ∧ size < 2 ^ 63)
    (hbase : whenceBase flp.lWhence offset size = some base) :
    (Accepted base flp.lStart flp.lLen → ∃ stop : Nat, (stop : Int) = acceptedEnd base flp.lStart flp.lLen ∧
      flockCheck (.ok size) flp offset maxoffsetT = .ok (.ok (flp.unlockToEnd stop maxoffsetT))) ∧
    (¬ Accepted base flp.lStart flp.lLen → ∃ e, flockCheck (.ok size) flp offset maxoffsetT = .ok (.error e)) := by
  obtain ⟨hgood, hbad⟩ := flockCheckStart_spec hoff hsize hbase
  unfold flockCheck
  constructor
  · intro h
    obtain ⟨start, stop, hrange, hle, hord, hstop⟩ := flockCheckRange_accepts h
    rw [hgood ⟨h.nonneg, h.le⟩]
    dsimp only
    rw [hrange, ok_bind]
    dsimp only
    rw [ASSERT_bind hle, if_neg (by omega)]
    exact ⟨stop, hstop, rfl⟩
  · intro h
    by_cases hb : 0 ≤ base + flp.lStart ∧ base + flp.lStart ≤ maxoffsetT
    · obtain ⟨e, he⟩ := flockCheckRange_rejects hb.1 hb.2 h
      rw [hgood hb]
      dsimp only
      rw [he, ok_bind]
      exact ⟨e, rfl⟩
    · obtain ⟨e, he⟩ := hbad hb
      rw [he]
      exact ⟨e, rfl⟩

lemma flkConvertStart_eq (hbase : whenceBase flp.lWhence offset size = some base) :
    flkConvertStart (.ok size) flp offset = .ok (uoff (flp.lStart + base)) := by
  unfold whenceBase at hbase
  unfold flkConvertStart
  split_ifs at hbase with h0 h1 h2
  · obtain rfl := some.inj hbase
    rw [if_pos h0, Int.add_zero]
  · obtain rfl := some.inj hbase
    rw [if_neg h0, if_pos h1]
  · obtain rfl := some.inj hbase
    rw [if_neg h0, if_neg h1, if_pos h2]
    rfl

/-- The range of an accepted request without a negative length. -/
lemma converts_documented (hbase : whenceBase flp.lWhence offset size = some base) (h : Accepted base flp.lStart flp.lLen)
    (hlen : 0 ≤ flp.lLen) {stop : Nat} (hstop : (stop : Int) = acceptedEnd base flp.lStart flp.lLen) :
    ∃ start stop', flkConvertLockData (.ok size) (flp.unlockToEnd stop maxoffsetT) offset = .ok (start, stop') ∧
      flkCheckLockData start stop' maxoffsetT = .ok () ∧
      (start : Int) = (documentedRange base flp.lStart flp.lLen).1 ∧
      stop' = representedEnd flp.lType (documentedRange base flp.lStart flp.lLen).2 := by
  have hm : maxoffsetT = 2 ^ 63 - 1 := rfl
  have hu : maxUOffsetT = 2 ^ 64 - 1 := rfl
  have hmax := uoff_maxoffsetT
  have hle := h.le
  have hrange := flp.len_range
  have hstart := uoff_start h.nonneg h.le
  have hconv := flkConvertStart_eq hbase
  have hfirst : (documentedRange base flp.lStart flp.lLen).1 = base + flp.lStart := by
    unfold documentedRange
    split_ifs with h1 h2
    · rfl
    · omega
    · rfl
  have hcheck (e : Nat) (he : uoff (flp.lStart + base) ≤ e) (hend : e ≤ uoff maxoffsetT ∨ e = maxUOffsetT) :
      flkCheckLockData (uoff (flp.lStart + base)) e maxoffsetT = .ok () := by
    unfold flkCheckLockData
    rw [if_neg (by omega), if_neg (by omega)]
  rw [hfirst]
  unfold acceptedEnd at hstop
  unfold Flock64.unlockToEnd
  by_cases hz : flp.lLen = 0
  · rw [if_neg (by omega)]
    refine ⟨_, _, by rw [flkConvertLockData, hconv]; exact if_pos hz, hcheck _ (by omega) (.inr rfl), by omega, ?_⟩
    rw [documentedRange, if_neg (by omega), if_neg (by omega)]
    rfl
  have hpos : 0 < flp.lLen := by omega
  have hmaxle := h.positive hpos
  rw [if_neg hz, if_pos hpos] at hstop
  have hdoc : (documentedRange base flp.lStart flp.lLen).2 = some (base + flp.lStart + flp.lLen - 1) := by
    rw [documentedRange, if_pos hpos]
  rw [hdoc, representedEnd]
  by_cases hun : flp.lType = .F_UNLCK ∧ flp.lLen > 0 ∧ stop = uoff maxoffsetT
  · -- the unlock is converted with length zero
    have hdocmax : flp.lType = .F_UNLCK ∧ base + flp.lStart + flp.lLen - 1 = maxoffsetT := ⟨hun.1, by omega⟩
    have hconv' : flkConvertStart (.ok size) { flp with lLen := 0, len_range := by decide } offset =
        .ok (uoff (flp.lStart + base)) := hconv
    rw [if_pos hun, if_pos hdocmax]
    exact ⟨_, _, by rw [flkConvertLockData, hconv']; rfl, hcheck _ (by omega) (.inr rfl), by omega, rfl⟩
  · have hdocmax : ¬ (flp.lType = .F_UNLCK ∧ base + flp.lStart + flp.lLen - 1 = maxoffsetT) := fun hd =>
      hun ⟨hd.1, hpos, by omega⟩
    have hend := uoff_of_nonneg (x := uoff (flp.lStart + base) + (flp.lLen - 1)) (by omega) (by omega)
    rw [if_neg hun, if_neg hdocmax]
    refine ⟨_, _, by rw [flkConvertLockData, hconv]; exact (if_neg hz).trans (if_pos hpos), hcheck _ (by omega) (.inl (by omega)),
      by omega, by omega⟩

lemma lockable_iff_accepted (hlen : 0 ≤ flp.lLen) : Lockable base flp.lStart flp.lLen ↔ Accepted base flp.lStart flp.lLen := by
  unfold Lockable documentedRange
  split_ifs with h1 h2
  · constructor
    · rintro ⟨h0, hend, hle⟩
      exact ⟨h0, hle, fun _ => hend _ rfl, fun hn => absurd hn (by omega)⟩
    · intro h
      refine ⟨h.nonneg, fun e he => ?_, h.le⟩
      obtain rfl := some.inj he
      exact h.positive h1
  · omega
  · constructor
    · rintro ⟨h0, -, hle⟩
      exact ⟨h0, hle, fun hp => absurd hp h1, fun hn => absurd hn h2⟩
    · intro h
      exact ⟨h.nonneg, fun e he => absurd he (by simp), h.le⟩

lemma accepted_of_lockable (hlen : flp.lLen < 0) (h : Lockable base flp.lStart flp.lLen) :
    Accepted base flp.lStart flp.lLen := by
  obtain ⟨h0, -, hle⟩ := h
  rw [documentedRange, if_neg (by omega), if_pos hlen] at h0
  dsimp only at h0
  exact ⟨by omega, hle, fun hp => absurd hp (by omega), fun _ => by omega⟩

/-- A negative length: the range starts one offset after the documented one. -/
lemma converts_shifted (hbase : whenceBase flp.lWhence offset size = some base) (h : Accepted base flp.lStart flp.lLen)
    (hneg : flp.lLen < 0) (stop : Nat) :
    ∃ start stop', flkConvertLockData (.ok size) (flp.unlockToEnd stop maxoffsetT) offset = .ok (start, stop') ∧
      (start : Int) = (documentedRange base flp.lStart flp.lLen).1 + 1 := by
  have hback := h.uoff_back hneg
  rw [Flock64.unlockToEnd, if_neg (by omega), documentedRange, if_neg (by omega), if_pos hneg]
  refine ⟨_, uoff (flp.lStart + base), ?_, hback⟩
  rw [flkConvertLockData, flkConvertStart_eq hbase]
  exact (if_neg (by omega)).trans (if_neg (by omega))

end

/-- The requests with a negative length that `flock_check` refuses. -/
lemma not_accepted_of_negative {base lStart lLen : Int} (hneg : lLen < 0) :
    ¬ Accepted base lStart lLen ↔ base + lStart + lLen + 1 < 0 ∨ maxoffsetT < base + lStart := by
  constructor
  · intro h
    by_contra hin
    exact h ⟨by omega, by omega, fun hpos => absurd hpos (by omega), fun _ => by omega⟩
  · rintro (hlow | hhigh) h
    · have := h.negative hneg
      omega
    · have := h.le
      omega

/-- **The ranges of record locks** are those of fcntl(2) exactly if the length is not negative, or the start of the
request is so low or so high that it is refused. -/
theorem lock_range_documented_iff (flp : Flock64) (offset size base : Int) (hoff : 0 ≤ offset ∧ offset < 2 ^ 63)
    (hsize : 0 ≤ size ∧ size < 2 ^ 63) (hbase : whenceBase flp.lWhence offset size = some base) :
    AsDocumented flp offset size base ↔
      0 ≤ flp.lLen ∨ base + flp.lStart + flp.lLen + 1 < 0 ∨ maxoffsetT < base + flp.lStart := by
  obtain ⟨hgood, hbad⟩ := flockCheck_spec hoff hsize hbase
  by_cases h : Accepted base flp.lStart flp.lLen
  · obtain ⟨stop, hstop, hok⟩ := hgood h
    unfold AsDocumented
    rw [hok]
    constructor
    · rintro ⟨-, hrange⟩
      refine .inl ?_
      by_contra hneg
      obtain ⟨start, stop', hconv, -, hfirst, -⟩ := hrange _ rfl
      obtain ⟨start1, stop1, hconv1, hshift⟩ := converts_shifted hbase h (not_le.1 hneg) stop
      have hsame := ok.inj (hconv.symm.trans hconv1)
      have : start = start1 := congrArg Prod.fst hsame
      omega
    · intro hcond
      have hlen : 0 ≤ flp.lLen := by
        by_contra hneg
        exact (not_accepted_of_negative (not_le.1 hneg)).2 (hcond.resolve_left hneg) h
      refine ⟨⟨fun _ => (lockable_iff_accepted hlen).2 h, fun _ => ⟨_, rfl⟩⟩, fun flp' heq => ?_⟩
      obtain rfl := ok.inj (ok.inj heq)
      exact converts_documented hbase h hlen hstop
  · obtain ⟨e, he⟩ := hbad h
    unfold AsDocumented
    rw [he]
    refine ⟨fun _ => ?_, fun _ => ⟨⟨fun ⟨flp', hok⟩ => ?_, fun hlock => ?_⟩, fun flp' hok => ?_⟩⟩
    · rcases lt_or_ge flp.lLen 0 with hneg | hpos
      · exact .inr ((not_accepted_of_negative hneg).1 h)
      · exact .inl hpos
    · exact absurd (ok.inj hok) (by simp)
    · rcases lt_or_ge flp.lLen 0 with hneg | hpos
      · exact absurd (accepted_of_lockable hneg hlock) h
      · exact absurd ((lockable_iff_accepted hpos).1 hlock) h
    · exact absurd (ok.inj hok) (by simp)

/-- A read lock of five bytes before offset ten. -/
def fiveBytesBefore : Flock64 := ⟨.F_RDLCK, 0, 10, -5, by decide, by decide⟩

/-- The manual's range is from 5 to 9, and the lock is set from 6 to 10. -/
theorem lock_before_start_shifted : documentedRange 0 fiveBytesBefore.lStart fiveBytesBefore.lLen = (5, some 9) ∧
    (flockCheck (.ok 100) fiveBytesBefore 0 maxoffsetT).map (·.map (·.lLen)) = .ok (.ok (-5)) ∧
    flkConvertLockData (.ok 100) fiveBytesBefore 0 = .ok (6, 10) ∧ flkCheckLockData 6 10 maxoffsetT = .ok () :=
  ⟨rfl, rfl, rfl, rfl⟩

/-- An unlock from offset ten to the last offset of a file. -/
theorem lock_range_documented_unlock : AsDocumented ⟨.F_UNLCK, 1, 10, 2 ^ 63 - 30, by decide, by decide⟩ 20 100 20 :=
  (lock_range_documented_iff ⟨.F_UNLCK, 1, 10, 2 ^ 63 - 30, by decide, by decide⟩ 20 100 20 (by decide) (by decide) rfl).2
    (.inl (by decide))

end Unleashed.Kernel
