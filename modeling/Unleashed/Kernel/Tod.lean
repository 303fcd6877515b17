import Mathlib

/-!
# Calendar conversion

`utc_to_tod` with its cache of the last minute, and `tod_to_utc`. The days of the years are counted with a leap day in
every fourth one, so that the 29th of February 2100 is a date.
-/

namespace Unleashed.Kernel.Tod

open Finset Option

structure Todinfo where
  (todSec todMin todHour todDow todDay todMonth todYear : Int)
deriving DecidableEq

def daysThruMonth : List Int :=
  [0, 0, 31, 60, 91, 121, 152, 182, 213, 244, 274, 305, 335, 366, 0, 0,
   0, 0, 31, 59, 90, 120, 151, 181, 212, 243, 273, 304, 334, 365, 0, 0,
   0, 0, 31, 59, 90, 120, 151, 181, 212, 243, 273, 304, 334, 365, 0, 0,
   0, 0, 31, 59, 90, 120, 151, 181, 212, 243, 273, 304, 334, 365, 0, 0]

/-- `saved_tod` and `saved_utc`. -/
structure Saved where
  savedTod : Todinfo
  savedUtc : Int

def savedInit : Saved := ⟨⟨0, 0, 0, 0, 0, 0, 0⟩, -60⟩

/-- `int`. -/
def s32 (x : Int) : Int := (x + 2 ^ 31) % 2 ^ 32 - 2 ^ 31

/-- The day within `year`. -/
def dayOfYear (dse year : Int) : Int := dse - 365 * (year - 70) - (year - 69) / 2 ^ 2

/-- Down to the first year that has begun. -/
def yearLoop (dse : Int) : (fuel : Nat) → (year : Int) → Option Int
  | 0, _ => none
  | fuel + 1, year => if dayOfYear dse (year - 1) < 0 then yearLoop dse fuel (year - 1) else some (year - 1)

def monthLoop (day : Int) : (fuel month : Nat) → Option Nat
  | 0, _ => none
  | fuel + 1, month => daysThruMonth[month + 1]?.bind fun days => if day ≥ days then monthLoop day fuel (month + 1) else some month

/-- The conversion behind the cache; nothing if a loop does not end or leaves the table. -/
def todOfUtc (utc : Int) : Option Todinfo := do
  let dse := utc / 86400
  let year ← yearLoop dse (dse / 365 + 2).toNat (dse / 365 + 72)
  let day := dayOfYear dse year
  let month ← monthLoop day 15 ((year % 4).toNat * 16 + 1)
  let days ← daysThruMonth[month]?
  return ⟨utc % 60, utc % 3600 / 60, utc % 86400 / 3600, (dse + 4) % 7 + 1, day - days + 1, month % 16, year⟩

def utcToTod (s : Saved) (utc : Int) : Option (Todinfo × Saved) :=
  let utc := if utc < 0 then 0 else utc
  let tod : Todinfo := { s.savedTod with todSec := s32 (s.savedTod.todSec + (utc - s.savedUtc)) }
  if 0 ≤ tod.todSec ∧ tod.todSec < 60 then some (tod, ⟨tod, s32 utc⟩)
  else (todOfUtc utc).map fun tod => (tod, ⟨tod, s32 utc⟩)

/-- `time_t` holds all of these sums. -/
def todToUtc (tod : Todinfo) : Option Int :=
  daysThruMonth[(tod.todMonth + tod.todYear % 4 * 16).toNat]?.map fun days =>
    let utc := tod.todYear - 70
    let utc := utc + (utc * 2 ^ 3 + utc * 2 ^ 6)
    let utc := utc + (utc * 2 ^ 2 + (tod.todYear - 69) / 2 ^ 2)
    let utc := utc + (days + tod.todDay - 1)
    let utc := utc * 2 ^ 3 + utc * 2 ^ 4 + tod.todHour
    let utc := utc * 2 ^ 6 - utc * 2 ^ 2 + tod.todMin
    utc * 2 ^ 6 - utc * 2 ^ 2 + tod.todSec

/-! ## Calendars -/

/-- The leap years of the Gregorian calendar. -/
def gregorian (year : Nat) : Bool := year % 4 = 0 ∧ (year % 100 ≠ 0 ∨ year % 400 = 0)

/-- A leap year every four years, as the code has it. -/
def julian (year : Nat) : Bool := year % 4 = 0

def monthDays (leap : Bool) : Nat → Nat
  | 2 => if leap then 29 else 28
  | 4 | 6 | 9 | 11 => 30
  | _ => 31

section
variable (leap : Nat → Bool)

/-- The days from the first of January 1970 to a year. -/
def daysToYear (year : Nat) : Nat := ∑ y ∈ Ico 1970 year, if leap y then 366 else 365

/-- The days of a year before a month. -/
def daysToMonth (leap : Bool) (month : Nat) : Nat := ∑ m ∈ Ico 1 month, monthDays leap m

/-- The date that is `days` days after the first of January 1970. -/
structure IsDate (days year month day : Nat) : Prop where
  year_ge : 1970 ≤ year
  month_ge : 1 ≤ month
  month_le : month ≤ 12
  day_ge : 1 ≤ day
  day_le : day ≤ monthDays (leap year) month
  days_eq : days = daysToYear leap year + daysToMonth (leap year) month + (day - 1)

end

/-- What `utc_to_tod` should return. The first of January 1970 was a Thursday, the fifth day of the week. -/
structure Right (utc : Int) (tod : Todinfo) : Prop where
  sec : tod.todSec = utc % 60
  min : tod.todMin = utc / 60 % 60
  hour : tod.todHour = utc / 3600 % 24
  dow : tod.todDow = (utc / 86400 + 4) % 7 + 1
  date : ∃ year month day : Nat, tod.todYear = year - 1900 ∧ tod.todMonth = month ∧ tod.todDay = day ∧
    IsDate gregorian (utc / 86400).toNat year month day
  back : todToUtc tod = some utc

/-- Every call of a sequence returns what it should. -/
def AllRight : Saved → List Int → Prop
  | _, [] => True
  | s, utc :: utcs => ∃ tod s', utcToTod s utc = some (tod, s') ∧ Right utc tod ∧ AllRight s' utcs

variable {dse utc : Int}

lemma yearLoop_eq (h0 : 0 ≤ dse) (fuel : Nat) (year : Int) (hfuel : year ≤ 70 + fuel) (hneg : dayOfYear dse year < 0) :
    ∃ y, yearLoop dse fuel year = some y ∧ 70 ≤ y ∧ 0 ≤ dayOfYear dse y ∧ dayOfYear dse (y + 1) < 0 := by
  unfold dayOfYear at *
  induction fuel generalizing year with
  | zero => omega
  | succ fuel ih =>
    unfold yearLoop dayOfYear
    split_ifs with hday
    · exact ih _ (by push_cast at hfuel; omega) hday
    · exact ⟨year - 1, rfl, by omega, by omega, by rw [sub_add_cancel]; exact hneg⟩

/-- The rows of the table, for a year that is `r` modulo 4. -/
lemma daysThruMonth_eq : ∀ r : Fin 4, ∀ m : Fin 13,
    daysThruMonth[r.val * 16 + 1 + m]? = some (daysToMonth (decide (r.val = 0)) (1 + m) : Int) := by
  decide +kernel

lemma monthLoop_eq (r : Fin 4) (day : Int) (n : Nat) : ∀ {m fuel : Nat}, m + n = 12 → n ≤ fuel →
    daysToMonth (r.val = 0) (1 + m) ≤ day → day < daysToMonth (r.val = 0) 13 → ∃ k < 12,
      monthLoop day fuel (r.val * 16 + 1 + m) = some (r.val * 16 + 1 + k) ∧
      daysToMonth (r.val = 0) (1 + k) ≤ day ∧ day < daysToMonth (r.val = 0) (1 + (k + 1)) := by
  induction n with
  | zero =>
    intro m fuel hm _ hle hlt
    obtain rfl : m = 12 := hm
    exact absurd hlt (not_lt.2 hle)
  | succ n ih =>
    intro m fuel hm hfuel hle hlt
    obtain ⟨fuel, rfl⟩ : ∃ k, fuel = k + 1 := ⟨fuel - 1, by omega⟩
    have hrow := daysThruMonth_eq r ⟨m + 1, by omega⟩
    dsimp only at hrow
    rw [monthLoop, add_assoc _ m 1, hrow, Option.bind_some]
    split_ifs with hday
    · exact ih (by omega) (by omega) hday hlt
    · exact ⟨m, by omega, rfl, hle, not_le.1 hday⟩

lemma daysToMonth_year : ∀ leap : Bool, daysToMonth leap 1 = 0 ∧ daysToMonth leap 13 = if leap then 366 else 365 := by
  decide +kernel

lemma daysToYear_julian (y : Nat) : daysToYear julian (1970 + y) = 365 * y + (y + 1) / 4 := by
  induction y with
  | zero => rfl
  | succ y ih =>
    unfold daysToYear julian at *
    rw [← add_assoc, sum_Ico_succ_top (by omega), ih]
    simp only [decide_eq_true_eq]
    split_ifs <;> omega

/-- The two calendars differ in the year 2100. -/
lemma gregorian_eq : ∀ y < 200, gregorian (1970 + y) = (julian (1970 + y) && y ≠ 130) := by decide +kernel

lemma daysToYear_gregorian {y : Nat} (hy : y ≤ 200) :
    daysToYear gregorian (1970 + y) + (if 130 < y then 1 else 0) = daysToYear julian (1970 + y) := by
  induction y with
  | zero => rfl
  | succ y ih =>
    specialize ih (by omega)
    unfold daysToYear at *
    rw [← add_assoc, sum_Ico_succ_top (by omega), sum_Ico_succ_top (by omega), ← ih, gregorian_eq y (by omega)]
    rcases Nat.lt_trichotomy y 130 with h | rfl | h
    · simp [h.ne, show ¬ 130 < y + 1 by omega, h.le]
    · simp [julian]
    · simp [h.ne', h, show 130 < y + 1 by omega]
      omega

lemma todOfUtc_eq (h0 : 0 ≤ utc) : ∃ year month day : Nat, IsDate julian (utc / 86400).toNat year month day ∧
    todOfUtc utc = some ⟨utc % 60, utc % 3600 / 60, utc % 86400 / 3600, (utc / 86400 + 4) % 7 + 1, day, month, year - 1900⟩ ∧
    daysThruMonth[((month : Int) + (year - 1900) % 4 * 16).toNat]? = some (daysToMonth (julian year) month : Int) := by
  have hdse : 0 ≤ utc / 86400 := by omega
  unfold todOfUtc
  generalize utc / 86400 = dse at *
  obtain ⟨year, hyear, hge, hday, hnext⟩ := yearLoop_eq hdse (dse / 365 + 2).toNat (dse / 365 + 72) (by omega)
    (by unfold dayOfYear; omega)
  obtain ⟨y, rfl⟩ : ∃ y : Nat, year = y + 70 := ⟨(year - 70).toNat, by omega⟩
  obtain ⟨day, hd⟩ := Int.eq_ofNat_of_zero_le hday
  obtain ⟨r, hr⟩ : ∃ r : Fin 4, r.val = (y + 70) % 4 := ⟨⟨(y + 70) % 4, Nat.mod_lt _ (by decide)⟩, rfl⟩
  have hjulian : julian (1970 + y) = decide (r.val = 0) := by
    unfold julian
    congr 1
    apply propext
    omega
  have hdays := hd
  unfold dayOfYear at hdays hnext
  obtain ⟨hfirst, hlast⟩ := daysToMonth_year (r.val = 0)
  obtain ⟨m, hm, hloop, hle, hlt⟩ := monthLoop_eq r day 12 (zero_add 12) (by decide : 12 ≤ 15)
    (by rw [add_zero, hfirst]; omega) (by rw [hlast]; simp only [decide_eq_true_eq]; split_ifs <;> omega)
  rw [add_zero] at hloop
  have hrow := daysThruMonth_eq r ⟨m, by omega⟩
  dsimp only at hrow
  rw [daysToMonth, ← add_assoc, sum_Ico_succ_top (by omega), ← daysToMonth] at hlt
  have hindex : ((y + 70 : Int) % 4).toNat = r := by omega
  refine ⟨1970 + y, 1 + m, day - daysToMonth (decide (r.val = 0)) (1 + m) + 1, ⟨by omega, by omega, by omega, by omega, ?_, ?_⟩, ?_, ?_⟩
  · rw [hjulian]
    push_cast at hlt hle
    omega
  · rw [hjulian, daysToYear_julian]
    omega
  · simp only [hyear, hd, hindex, hloop, hrow, Option.bind_eq_bind, Option.bind_some, Option.pure_def, Option.some.injEq, Todinfo.mk.injEq, true_and]
    omega
  · rw [hjulian, ← hrow]
    congr 1
    omega

lemma daysToMonth_le : ∀ leap : Bool, ∀ m < 13, daysToMonth leap m + monthDays leap m ≤ 366 := by decide +kernel

/-- The months of a leap year and those of another year. -/
lemma daysToMonth_leap : ∀ m < 13, (m ≤ 2 → daysToMonth true m = 31 * (m - 1) ∧ daysToMonth false m = 31 * (m - 1)) ∧
    (2 < m → 60 ≤ daysToMonth true m ∧ daysToMonth true m = daysToMonth false m + 1) := by
  decide +kernel

/-- A date is one of both calendars up to the 28th of February 2100, and of the Gregorian calendar a day later from then on. -/
lemma isDate_gregorian_iff {days year month day : Nat} (h : IsDate julian days year month day) (hlt : days < 50000) :
    IsDate gregorian days year month day ↔ days < 47541 := by
  obtain ⟨y, rfl⟩ := Nat.exists_eq_add_of_le h.year_ge
  have hdays := h.days_eq
  have hj := daysToYear_julian y
  have hy : y ≤ 200 := by omega
  have hg := daysToYear_gregorian hy
  have hle := daysToMonth_le (julian (1970 + y)) month (by have := h.month_le; omega)
  have hday := h.day_le
  have hday' := h.day_ge
  rcases Nat.lt_trichotomy y 130 with hlt | rfl | hgt
  · have heq : gregorian (1970 + y) = julian (1970 + y) := by rw [gregorian_eq y (by omega)]; simp [hlt.ne]
    rw [if_neg (by omega)] at hg
    refine ⟨fun _ => by omega, fun _ => { h with day_le := heq ▸ h.day_le, days_eq := ?_ }⟩
    rw [heq, ← add_zero (daysToYear gregorian _), hg]
    exact h.days_eq
  · have heq : gregorian 2100 = false := by decide
    have heq' : julian 2100 = true := by decide
    have hmonths := daysToMonth_leap month (by have := h.month_le; omega)
    simp only [heq', Nat.reduceAdd, lt_irrefl, if_false, add_zero] at *
    have hmonth := h.month_ge
    rcases Nat.lt_or_ge 2 month with hm | hm
    · refine ⟨fun hd => ?_, fun _ => by omega⟩
      have := hd.days_eq
      rw [heq] at this
      omega
    · obtain ⟨ht, hf⟩ := hmonths.1 hm
      constructor
      · intro hd
        have hd := hd.day_le
        rw [heq] at hd
        interval_cases month <;> simp [monthDays] at hd hday <;> omega
      · intro hlt'
        refine { h with day_le := ?_, days_eq := ?_ }
        · rw [heq]
          interval_cases month <;> simp [monthDays] at hday ⊢ <;> omega
        · rw [heq]
          omega
  · have heq : gregorian (1970 + y) = julian (1970 + y) := by rw [gregorian_eq y (by omega)]; simp [hgt.ne']
    rw [if_pos hgt] at hg
    refine ⟨fun hd => ?_, fun _ => by omega⟩
    have := hd.days_eq
    rw [heq] at this
    omega

/-- The conversion behind the cache is right before the first of March 2100. -/
lemma todOfUtc_right_iff (h0 : 0 ≤ utc) (hlt : utc < 2 ^ 32) :
    ∃ tod, todOfUtc utc = some tod ∧ (Right utc tod ↔ utc < 4107542400) ∧ tod.todSec = utc % 60 := by
  obtain ⟨year, month, day, hdate, htod, hrow⟩ := todOfUtc_eq h0
  have hiff := isDate_gregorian_iff hdate (by omega)
  refine ⟨_, htod, ⟨fun h => ?_, fun hlt => ⟨rfl, ?_, ?_, rfl, ⟨year, month, day, rfl, rfl, rfl, hiff.2 (by omega)⟩, ?_⟩⟩, rfl⟩
  · obtain ⟨y, m, d, hy, hm, hd, hg⟩ := h.date
    obtain rfl : y = year := by dsimp only at hy; omega
    obtain rfl : m = month := by dsimp only at hm; omega
    obtain rfl : d = day := by dsimp only at hd; omega
    have := hiff.1 hg
    omega
  · dsimp only
    omega
  · dsimp only
    omega
  · obtain ⟨y, rfl⟩ := Nat.exists_eq_add_of_le hdate.year_ge
    have hdays := hdate.days_eq
    have hday := hdate.day_ge
    rw [daysToYear_julian] at hdays
    unfold todToUtc
    dsimp only
    rw [hrow, map_some]
    congr 1
    push_cast
    omega

/-- The cache holds the conversion of the last time, which was before the first of March 2100. -/
def Cached (s : Saved) : Prop :=
  s = savedInit ∨ ∃ u tod, 0 ≤ u ∧ u < 4107542400 ∧ todOfUtc u = some tod ∧ s = ⟨tod, s32 u⟩

lemma todOfUtc_minute {u : Int} {tod : Todinfo} (h : utc / 60 = u / 60) (hu : todOfUtc u = some tod) :
    todOfUtc utc = some { tod with todSec := utc % 60 } := by
  have h1 : utc / 86400 = u / 86400 := by omega
  have h2 : utc % 3600 / 60 = u % 3600 / 60 := by omega
  have h3 : utc % 86400 / 3600 = u % 86400 / 3600 := by omega
  unfold todOfUtc at *
  simp only [h1, h2, h3, Option.bind_eq_bind, Option.pure_def, Option.bind_eq_some_iff] at *
  obtain ⟨year, hyear, month, hmonth, days, hdays, hu⟩ := hu
  cases hu
  exact ⟨year, hyear, month, hmonth, days, hdays, rfl⟩

lemma s32_sub (x y u : Int) : s32 (x + (y - s32 u)) = s32 (x + (y - u)) := by
  unfold s32
  omega

lemma s32_second {x : Int} (hge : -4107542400 ≤ x) (hlt : x < 2 ^ 32) (h : 0 ≤ s32 x ∧ s32 x < 60) : s32 x = x := by
  unfold s32 at *
  omega

/-- A call returns the conversion, from the cache or not. -/
lemma utcToTod_eq {s : Saved} (h : Cached s) (h0 : 0 ≤ utc) (hlt : utc < 2 ^ 32) (hinit : ¬ (s = savedInit ∧ 2 ^ 32 - 60 ≤ utc)) :
    utcToTod s utc = (todOfUtc utc).map fun tod => (tod, ⟨tod, s32 utc⟩) := by
  unfold utcToTod
  rw [if_neg (not_lt.2 h0)]
  dsimp only
  rcases h with rfl | ⟨u, tod, hu0, hu, htod, rfl⟩
  · rw [if_neg]
    unfold savedInit s32
    dsimp only
    have : utc < 2 ^ 32 - 60 := not_le.1 fun h => hinit ⟨rfl, h⟩
    omega
  · obtain ⟨_, htod', -, hsec⟩ := todOfUtc_right_iff hu0 (by omega)
    cases htod.symm.trans htod'
    split_ifs with hcache
    · dsimp only at hcache
      rw [hsec, s32_sub] at hcache ⊢
      have hsecs := s32_second (by omega) (by omega) hcache
      rw [hsecs] at hcache
      have hutc : u % 60 + (utc - u) = utc % 60 := by omega
      rw [todOfUtc_minute (by omega) htod, map_some, hsecs, hutc]
    · rfl

lemma allRight_iff (utcs : List Int) : ∀ {s : Saved}, Cached s → (∀ utc ∈ utcs, 0 ≤ utc ∧ utc < 2 ^ 32) →
    (AllRight s utcs ↔ ∀ utc ∈ utcs, utc < 4107542400) := by
  induction utcs with
  | nil => exact fun _ _ => by simp [AllRight]
  | cons utc utcs ih =>
    intro s h hutcs
    obtain ⟨⟨h0, hlt⟩, hutcs⟩ := List.forall_mem_cons.1 hutcs
    obtain ⟨tod, htod, hiff, -⟩ := todOfUtc_right_iff h0 hlt
    rw [AllRight, List.forall_mem_cons]
    by_cases hinit : s = savedInit ∧ 2 ^ 32 - 60 ≤ utc
    · refine ⟨?_, fun hall => by omega⟩
      rintro ⟨tod, s', hcall, hright, -⟩
      obtain ⟨year, month, day, -, hmonth, -, hdate⟩ := hright.date
      have hge := hdate.month_ge
      obtain ⟨rfl, hge'⟩ := hinit
      unfold utcToTod at hcall
      rw [if_neg (not_lt.2 h0), if_pos (by unfold savedInit s32; dsimp only; omega)] at hcall
      cases hcall
      unfold savedInit at hmonth
      dsimp only at hmonth
      omega
    · have hcall := utcToTod_eq h h0 hlt hinit
      rw [htod, map_some] at hcall
      have hcached : utc < 4107542400 → Cached ⟨tod, s32 utc⟩ := fun hlt => .inr ⟨utc, tod, h0, hlt, htod, rfl⟩
      constructor
      · rintro ⟨_, _, hcall', hright, hrest⟩
        cases hcall.symm.trans hcall'
        exact ⟨hiff.1 hright, (ih (hcached (hiff.1 hright)) hutcs).1 hrest⟩
      · rintro ⟨hlt, hrest⟩
        exact ⟨tod, _, hcall, hiff.2 hlt, (ih (hcached hlt) hutcs).2 hrest⟩

/-- **The calendar conversion** is right for every sequence of times before the first of March 2100, and for no other. -/
theorem utcToTod_right_iff (utcs : List Int) (h : ∀ utc ∈ utcs, 0 ≤ utc ∧ utc < 2 ^ 32) :
    AllRight savedInit utcs ↔ ∀ utc ∈ utcs, utc < 4107542400 :=
  allRight_iff utcs (.inl rfl) h

/-- The epoch, the leap day of 2000, the day before it and the last second before March 2100. -/
theorem utcToTod_right_iff_epoch : AllRight savedInit [0, 951782400, 951696000, 4107542399] :=
  (utcToTod_right_iff [0, 951782400, 951696000, 4107542399] (by simp)).2 (by simp)

/-- The first of March 2100 is returned as the 29th of February. -/
theorem utcToTod_leap_day : (utcToTod savedInit 4107542400).map Prod.fst = some ⟨0, 0, 0, 2, 29, 2, 200⟩ ∧
    ¬ AllRight savedInit [4107542400] := by
  refine ⟨by decide, fun h => ?_⟩
  have := (allRight_iff [4107542400] (.inl rfl) (by simp)).1 h
  simp at this

end Unleashed.Kernel.Tod
