import Unleashed.Lib.Colex
import Unleashed.Zfs.Raidz.Recovery

/-!
# Combinatorial reconstruction

When the columns read without an error give a wrong checksum, `vdev_raidz_combrec` takes one combination of them after
the other as lost, and puts back what they held when the checksum is still wrong.
-/

namespace Unleashed.Zfs

open Unleashed.Lib List Function RaidzMap

/-! ## The code -/

def ecksum : Nat := 50

/-- The loop that looks for the next valid column, and stops at `rm_cols`. -/
def nextValid (rm : RaidzMap) : (fuel next : Nat) → Nat
  | 0, next => next
  | fuel + 1, next =>
    if next < rm.rmCols ∧ (rm.rmCol next).rcError ≠ 0 then nextValid rm fuel (next + 1) else next

/-- The loop that looks for the next valid column, and knows that there is one. -/
def nextValidAfter (rm : RaidzMap) : (fuel c : Nat) → Except Fault Nat
  | 0, _ => .error .fuel
  | fuel + 1, c =>
    if rm.rmCols ≤ c then .error .bounds
    else if (rm.rmCol c).rcError ≠ 0 then nextValidAfter rm fuel (c + 1)
    else .ok c

/-- The loop over the columns with an error at the start of a round. -/
def skipErrors (rm : RaidzMap) : (fuel c : Nat) → Except Fault Nat
  | 0, _ => .error .fuel
  | fuel + 1, c =>
    if rm.rmCols ≤ c then .error .bounds
    else if (rm.rmCol c).rcError ≠ 0 then do
      ASSERT (c + 1 < rm.rmCols)
      skipErrors rm fuel (c + 1)
    else .ok c

/-- The loop body that finds target `i` of the first `n`. -/
def initTarget (rm : RaidzMap) (n dataErrors i : Nat) (s : Nat × List Nat) : Except Fault (Nat × List Nat) := do
  -- Push the highest target up into the data columns.
  let c := if i = n - 1 ∧ dataErrors = 0 ∧ s.1 < rm.rmFirstdatacol then rm.rmFirstdatacol else s.1
  let c ← skipErrors rm (rm.rmCols + 1) c
  .ok (c + 1, s.2 ++ [c])

def initTargets (rm : RaidzMap) (n dataErrors : Nat) : Except Fault (List Nat) := do
  let s ← forRangeM 0 n (initTarget rm n dataErrors) (0, [])
  .ok s.2

/-- `tgts[current - 1] + 1`, where `tgts[-1]` is -1. -/
def afterPrevious (tgts : List Nat) (current : Nat) : Nat :=
  if current = 0 then 0 else tgts.getD (current - 1) 0 + 1

/-- `tgts[current + 1]`, where `tgts[n]` is `rm_cols`. -/
def following (rm : RaidzMap) (tgts : List Nat) (n current : Nat) : Nat :=
  if current + 1 < n then tgts.getD (current + 1) 0 else rm.rmCols

/-- The inner loop finds the target that moves on and its column. -/
def nextTargets (rm : RaidzMap) (n : Nat) : (fuel : Nat) → (tgts : List Nat) → (current : Nat) →
    Except Fault (List Nat × Nat × Nat)
  | 0, _, _ => .error .fuel
  | fuel + 1, tgts, current => do
    let next := nextValid rm rm.rmCols (tgts.getD current 0 + 1)
    ASSERT (next ≤ following rm tgts n current)
    -- If that spot is available, we're done here.
    if next ≠ following rm tgts n current then .ok (tgts, current, next)
    else do
      let c ← nextValidAfter rm (rm.rmCols + 1) (afterPrevious tgts current)
      if current + 1 = n then .ok (tgts.set current c, current + 1, next)
      else nextTargets rm n fuel (tgts.set current c) (current + 1)

/-- The copies of the targets in `orig`, as far as they are read. -/
def saveTargets (rm : RaidzMap) (tgts : List Nat) : List Abd :=
  tgts.map fun c => abdCopy (abdAllocLinear fun _ => 0) (rm.rmCol c).rcAbd (rm.rmCol c).rcSize

def restoreTargets (rm : RaidzMap) (tgts : List Nat) (orig : List Abd) : RaidzMap :=
  (tgts.zip orig).foldl (fun rm co =>
    rm.setAbd co.1 (abdCopy (rm.rmCol co.1).rcAbd co.2 (rm.rmCol co.1).rcSize)) rm

def RaidzMap.setError (rm : RaidzMap) (c error : Nat) : RaidzMap :=
  { rm with rmCol := update rm.rmCol c { rm.rmCol c with rcError := error } }

/-- The targets of a reconstruction that has succeeded had wrong data. -/
def markTargets : (tgts : List Nat) → (rm : RaidzMap) → Except Fault RaidzMap
  | [], rm => .ok rm
  | c :: tgts, rm => do
    ASSERT ((rm.rmCol c).rcError = 0)
    markTargets tgts (rm.setError c ecksum)

/-- Where the search has come to: the map, the code, and the targets tried with their verdicts. -/
structure Combrec where
  rm : RaidzMap
  ret : Nat
  done : Bool
  tried : List (List Nat × Bool)

section

/- Whether the optimized routines are passed over, the verdict of the checksum, and what the
memory holds that an attempt allocates. -/
variable (vdevRaidzDefaultToGeneral : Bool) (raidzChecksumVerify : RaidzMap → Bool) (uninit : List Nat → ByteRows)

/-- The loop over the combinations of `n` columns. -/
def combrecLoop (n : Nat) : (fuel : Nat) → (rm : RaidzMap) → (tgts : List Nat) → (current next : Nat) →
    (tried : List (List Nat × Bool)) → Except Fault Combrec
  | 0, _, _, _, _, _ => .error .fuel
  | fuel + 1, rm, tgts, current, next, tried =>
    if current = n then .ok ⟨rm, 0, false, tried⟩
    else do
      let tgts := tgts.set current next
      -- Save off the original data that we're going to attempt to reconstruct.
      ASSERT (∀ c ∈ tgts, c < rm.rmCols)
      let orig := saveTargets rm tgts
      let (rm, code) ← vdevRaidzReconstruct vdevRaidzDefaultToGeneral rm tgts (uninit tgts)
      if raidzChecksumVerify rm then do
        let rm ← markTargets tgts rm
        .ok ⟨rm, code, true, tried ++ [(tgts, true)]⟩
      else do
        let rm := restoreTargets rm tgts orig
        let (tgts', current, next) ← nextTargets rm n n tgts 0
        combrecLoop n fuel rm tgts' current next (tried ++ [(tgts, false)])

/-- The outer loop, of which `count` rounds are left. -/
def combrecRounds (fuel dataErrors : Nat) : (count n : Nat) → (rm : RaidzMap) → (tried : List (List Nat × Bool)) →
    Except Fault Combrec
  | 0, _, rm, tried => .ok ⟨rm, 0, false, tried⟩
  | count + 1, n, rm, tried => do
    let tgts ← initTargets rm n dataErrors
    let s ← combrecLoop vdevRaidzDefaultToGeneral raidzChecksumVerify uninit n fuel rm tgts 0 (tgts.getD 0 0) tried
    if s.done then .ok s else combrecRounds fuel dataErrors count (n + 1) s.rm s.tried

/-- `vdev_raidz_combrec`. The fuel bounds the combinations of a round. -/
def vdevRaidzCombrec (fuel : Nat) (rm : RaidzMap) (totalErrors dataErrors : Nat) : Except Fault Combrec := do
  ASSERT (totalErrors < rm.rmFirstdatacol)
  combrecRounds vdevRaidzDefaultToGeneral raidzChecksumVerify uninit fuel dataErrors (rm.rmFirstdatacol - totalErrors) 1 rm []

end

/-! ## The columns without an error -/

/-- The number of columns with an error. -/
def RaidzMap.totalErrors (rm : RaidzMap) : Nat :=
  ((range rm.rmCols).filter fun c => (rm.rmCol c).rcError ≠ 0).length

/-- The number of data columns with an error. -/
def RaidzMap.dataErrors (rm : RaidzMap) : Nat :=
  ((range' rm.rmFirstdatacol (rm.rmCols - rm.rmFirstdatacol)).filter fun c => (rm.rmCol c).rcError ≠ 0).length

/-- The columns without an error, in order. -/
def RaidzMap.valid (rm : RaidzMap) : List Nat := (range rm.rmCols).filter fun c => (rm.rmCol c).rcError = 0

/-- The valid column of rank `r`, and `rm_cols` after the last one. -/
def RaidzMap.validCol (rm : RaidzMap) (r : Nat) : Nat := rm.valid.getD r rm.rmCols

variable {c a fuel : Nat}

section
variable {rm : RaidzMap}

lemma RaidzMap.mem_valid : c ∈ rm.valid ↔ c < rm.rmCols ∧ (rm.rmCol c).rcError = 0 := by
  rw [valid, mem_filter, mem_range, decide_eq_true_iff]

variable {r : Nat}

lemma RaidzMap.validCol_mem (hr : r < rm.valid.length) : rm.validCol r ∈ rm.valid := by
  rw [validCol, getD_eq_getElem _ _ hr]
  exact getElem_mem hr

lemma RaidzMap.validCol_end : rm.validCol rm.valid.length = rm.rmCols := getD_eq_default _ _ le_rfl

variable {b : Nat}

lemma RaidzMap.validCol_lt (hab : a < b) (hb : b ≤ rm.valid.length) : rm.validCol a < rm.validCol b := by
  rcases Nat.lt_or_eq_of_le hb with hlt | rfl
  · have hs : rm.valid.Pairwise (· < ·) := pairwise_lt_range.filter _
    rw [validCol, validCol, getD_eq_getElem _ _ (hab.trans hlt), getD_eq_getElem _ _ hlt]
    exact pairwise_iff_getElem.1 hs a b (hab.trans hlt) hlt hab
  · rw [validCol_end]
    exact (mem_valid.1 (validCol_mem hab)).1

lemma RaidzMap.validCol_le (hab : a ≤ b) (hb : b ≤ rm.valid.length) : rm.validCol a ≤ rm.validCol b := by
  rcases Nat.lt_or_eq_of_le hab with hlt | rfl
  · exact (validCol_lt hlt hb).le
  · exact le_rfl

lemma RaidzMap.validCol_lt_iff (ha : a ≤ rm.valid.length) (hb : b ≤ rm.valid.length) :
    rm.validCol a < rm.validCol b ↔ a < b := by
  constructor
  · intro h
    by_contra hge
    exact absurd (validCol_le (not_lt.1 hge) ha) (not_le.2 h)
  · exact fun h => validCol_lt h hb

lemma RaidzMap.validCol_inj (ha : a ≤ rm.valid.length) (hb : b ≤ rm.valid.length)
    (h : rm.validCol a = rm.validCol b) : a = b := by
  have h1 : rm.validCol a < rm.validCol b ↔ a < b := validCol_lt_iff ha hb
  have h2 : rm.validCol b < rm.validCol a ↔ b < a := validCol_lt_iff hb ha
  omega

lemma RaidzMap.exists_rank (hc : c ∈ rm.valid) : ∃ r < rm.valid.length, rm.validCol r = c := by
  obtain ⟨r, hr, h⟩ := getElem_of_mem hc
  exact ⟨r, hr, by rw [validCol, getD_eq_getElem _ _ hr, h]⟩

/-- A search for rank `r` starts after the column of the rank before. -/
def RaidzMap.searchFrom (rm : RaidzMap) (r : Nat) : Nat := if r = 0 then 0 else rm.validCol (r - 1) + 1

section
variable (hr : r ≤ rm.valid.length)
include hr

/-- Between two valid columns there are only columns with an error. -/
lemma RaidzMap.error_of_between (hlo : rm.searchFrom r ≤ c) (hhi : c < rm.validCol r) : (rm.rmCol c).rcError ≠ 0 := by
  intro herr
  have hcols : rm.validCol r ≤ rm.rmCols := by
    rw [← validCol_end]
    exact validCol_le hr le_rfl
  obtain ⟨i, hi, rfl⟩ := exists_rank (mem_valid.2 ⟨hhi.trans_le hcols, herr⟩)
  have hir := (validCol_lt_iff hi.le hr).1 hhi
  rw [searchFrom, if_neg (by omega)] at hlo
  have hri : rm.validCol (r - 1) < rm.validCol i ↔ r - 1 < i := validCol_lt_iff (by omega) hi.le
  omega

lemma RaidzMap.searchFrom_le : rm.searchFrom r ≤ rm.validCol r := by
  unfold searchFrom
  split_ifs with h
  · exact Nat.zero_le _
  · exact validCol_lt (by omega) hr

lemma RaidzMap.validCol_le_cols : rm.validCol r ≤ rm.rmCols := by
  rw [← validCol_end]
  exact validCol_le hr le_rfl

lemma nextValid_eq (hlo : rm.searchFrom r ≤ c)
    (hhi : c ≤ rm.validCol r) (hfuel : rm.validCol r ≤ c + fuel) : nextValid rm fuel c = rm.validCol r := by
  induction fuel generalizing c with
  | zero => exact Nat.le_antisymm hhi hfuel
  | succ fuel ih =>
    rw [nextValid]
    rcases Nat.lt_or_eq_of_le hhi with hlt | rfl
    · rw [if_pos ⟨hlt.trans_le (validCol_le_cols hr), error_of_between hr hlo hlt⟩]
      exact ih (by omega) hlt (by omega)
    · rw [if_neg]
      rintro ⟨hc, herr⟩
      have hne : r ≠ rm.valid.length := by
        rintro rfl
        rw [validCol_end] at hc
        exact lt_irrefl _ hc
      exact herr (mem_valid.1 (validCol_mem (by omega))).2

end

section
variable (hr : r < rm.valid.length) (hlo : rm.searchFrom r ≤ c) (hhi : c ≤ rm.validCol r) (hfuel : rm.validCol r < c + fuel)
include hr hlo hhi hfuel

lemma nextValidAfter_eq : nextValidAfter rm fuel c = .ok (rm.validCol r) := by
  have hmem := mem_valid.1 (validCol_mem hr)
  induction fuel generalizing c with
  | zero => omega
  | succ fuel ih =>
    rw [nextValidAfter, if_neg (by omega)]
    rcases Nat.lt_or_eq_of_le hhi with hlt | rfl
    · rw [if_pos (error_of_between hr.le hlo hlt)]
      exact ih (by omega) hlt (by omega)
    · rw [if_neg (not_not.2 hmem.2)]

lemma skipErrors_eq : skipErrors rm fuel c = .ok (rm.validCol r) := by
  have hmem := mem_valid.1 (validCol_mem hr)
  induction fuel generalizing c with
  | zero => omega
  | succ fuel ih =>
    rw [skipErrors, if_neg (by omega)]
    rcases Nat.lt_or_eq_of_le hhi with hlt | rfl
    · rw [if_pos (error_of_between hr.le hlo hlt), ASSERT_bind (by omega)]
      exact ih (by omega) hlt (by omega)
    · rw [if_neg (not_not.2 hmem.2)]

end

end

/-! ## From one combination to the next -/

/-- The combination taken next, by the ranks of its columns; none is left when `current` is `n`. -/
def RaidzMap.Positioned (rm : RaidzMap) (n : Nat) (tgts : List Nat) (current next : Nat) : Option (List Nat) → Prop
  | none => current = n
  | some l => current ≠ n ∧ tgts.set current next = l.map rm.validCol

variable {n : Nat}

section
variable {rm : RaidzMap} {cur : Nat} {l : List Nat}

lemma following_eq {p : List Nat} (hp : p.length = cur) (hn : n = cur + (a :: l).length) :
    following rm (p ++ rm.validCol a :: l.map rm.validCol) n cur = rm.validCol (l.headD rm.valid.length) := by
  subst hp
  rw [following, length_cons] at *
  cases l with
  | nil => rw [if_neg (by rw [hn, length_nil]; omega), headD_nil, validCol_end]
  | cons b l =>
    rw [if_pos (by rw [hn, length_cons]; omega), getD_append_right _ _ _ _ (Nat.le_add_right _ 1), Nat.add_sub_cancel_left]
    rfl

lemma afterPrevious_eq (l : List Nat) : afterPrevious ((range cur).map rm.validCol ++ l) cur = rm.searchFrom cur := by
  unfold afterPrevious searchFrom
  by_cases h : cur = 0
  · rw [if_pos h, if_pos h]
  · have hlt : cur - 1 < cur := by omega
    rw [if_neg h, if_neg h, getD_append _ _ _ _ (by simpa using hlt), getD_eq_getElem _ _ (by simpa using hlt),
      getElem_map, getElem_range]

lemma range_concat_map (cur : Nat) (l : List Nat) : (range cur).map rm.validCol ++ rm.validCol cur :: l.map rm.validCol =
    (range (cur + 1)).map rm.validCol ++ l.map rm.validCol := by
  rw [range_succ, map_append, append_assoc]
  rfl

/-- The inner loop at position `cur`, with the lowest columns below it. -/
lemma nextTargets_spec (n cur fuel : Nat) (hne : l ≠ []) (hs : l.Pairwise (· < ·))
    (hlt : ∀ a ∈ l, a < rm.valid.length) (hcur : ∀ a ∈ l, cur ≤ a) (hn : n = cur + l.length) (hfuel : l.length ≤ fuel) :
    ∃ tgts' cur' next, nextTargets rm n fuel ((range cur).map rm.validCol ++ l.map rm.validCol) cur =
        .ok (tgts', cur', next) ∧
      rm.Positioned n tgts' cur' next ((colexNext rm.valid.length cur l).map (range cur ++ ·)) := by
  -- on the targets from the current position on
  induction l generalizing cur fuel with
  | nil => exact absurd rfl hne
  | cons a l ih =>
    obtain ⟨fuel, rfl⟩ : ∃ f, fuel = f + 1 := ⟨fuel - 1, by rw [length_cons] at hfuel; omega⟩
    have ha := hlt a mem_cons_self
    have hca := hcur a mem_cons_self
    have hup : a + 1 ≤ l.headD rm.valid.length ∧ l.headD rm.valid.length ≤ rm.valid.length := by
      cases l with
      | nil => exact ⟨ha, le_rfl⟩
      | cons b l => exact ⟨rel_of_pairwise_cons hs mem_cons_self, (hlt b (by simp)).le⟩
    have hlen : ((range cur).map rm.validCol).length = cur := by rw [length_map, length_range]
    have hget : ((range cur).map rm.validCol ++ rm.validCol a :: l.map rm.validCol).getD cur 0 = rm.validCol a := by
      rw [getD_append_right _ _ _ _ hlen.le, hlen, Nat.sub_self]
      rfl
    have hset : ∀ x, ((range cur).map rm.validCol ++ rm.validCol a :: l.map rm.validCol).set cur x =
        (range cur).map rm.validCol ++ x :: l.map rm.validCol := by
      intro x
      rw [set_append_right _ _ hlen.le, hlen, Nat.sub_self]
      rfl
    have hnext : nextValid rm rm.rmCols (rm.validCol a + 1) = rm.validCol (a + 1) :=
      nextValid_eq ha le_rfl (validCol_lt (Nat.lt_succ_self a) ha) ((validCol_le_cols ha).trans (Nat.le_add_left _ _))
    have hfollow : following rm ((range cur).map rm.validCol ++ rm.validCol a :: l.map rm.validCol) n cur =
        rm.validCol (l.headD rm.valid.length) := following_eq hlen hn
    rw [map_cons, nextTargets, hget, hnext, hfollow, ASSERT_bind (validCol_le hup.1 hup.2), colexNext]
    by_cases hroom : a + 1 = l.headD rm.valid.length
    · -- the next spot is taken, and the target falls back
      have hback : nextValidAfter rm (rm.rmCols + 1)
          (afterPrevious ((range cur).map rm.validCol ++ rm.validCol a :: l.map rm.validCol) cur) =
          .ok (rm.validCol cur) := by
        have hlt' : cur < rm.valid.length := hca.trans_lt ha
        rw [afterPrevious_eq]
        refine nextValidAfter_eq hlt' le_rfl (searchFrom_le hlt'.le) ?_
        have := validCol_le_cols hlt'.le
        omega
      rw [if_neg (not_not.2 (congrArg rm.validCol hroom)), hback, ok_bind, if_neg (not_not.2 hroom), hset, range_concat_map]
      by_cases hl : l = []
      · subst hl
        rw [if_pos (show cur + 1 = n from hn.symm)]
        exact ⟨_, _, _, rfl, hn.symm⟩
      · have hpos := length_pos_of_ne_nil hl
        rw [length_cons] at hn hfuel
        rw [if_neg (by omega)]
        obtain ⟨tgts', cur', next, heq, hpos'⟩ := ih (cur + 1) fuel hl hs.of_cons (fun b hb => hlt b (mem_cons_of_mem a hb))
          (fun b hb => Nat.succ_le_of_lt (hca.trans_lt (rel_of_pairwise_cons hs hb))) (by omega) (by omega)
        refine ⟨tgts', cur', next, heq, ?_⟩
        rw [Option.map_map]
        convert hpos' using 3
        rw [range_succ, append_assoc]
        rfl
    · have hne' : rm.validCol (a + 1) ≠ rm.validCol (l.headD rm.valid.length) :=
        fun h => hroom (validCol_inj ha hup.2 h)
      rw [if_pos hne', if_pos hroom]
      refine ⟨_, _, _, rfl, ?_, ?_⟩
      · rw [hn, length_cons]
        omega
      · rw [hset, map_append]
        rfl

/-- **The inner loop finds the next combination.** -/
theorem nextTargets_colex (rm : RaidzMap) (hn : l.length = n) (hpos : 0 < n) (hs : l.Pairwise (· < ·))
    (hlt : ∀ a ∈ l, a < rm.valid.length) :
    ∃ tgts' cur' next, nextTargets rm n n (l.map rm.validCol) 0 = .ok (tgts', cur', next) ∧
      rm.Positioned n tgts' cur' next (colexNext rm.valid.length 0 l) := by
  obtain ⟨tgts', cur', next, heq, hp⟩ := nextTargets_spec n 0 n (ne_nil_of_length_pos (by omega)) hs hlt
    (fun a _ => Nat.zero_le a) (by omega) (by omega)
  refine ⟨tgts', cur', next, heq, ?_⟩
  convert hp
  cases colexNext rm.valid.length 0 l <;> rfl

end

/-! ## One attempt -/

/-- The columns without an error still hold what they held in `rm0`. -/
structure RaidzMap.Kept (rm0 rm : RaidzMap) : Prop where
  shape : rm0.SameShape rm
  error : ∀ c, (rm.rmCol c).rcError = (rm0.rmCol c).rcError
  data : ∀ c < rm0.rmCols, (rm0.rmCol c).rcError = 0 → ∀ k < (rm0.rmCol c).rcSize,
    (rm.rmCol c).rcAbd.buf k = (rm0.rmCol c).rcAbd.buf k

/-- Columns to be taken as lost, in order: without an error, within the parity, and with one data column. -/
structure RaidzMap.Candidate (rm : RaidzMap) (t : List Nat) : Prop where
  sorted : t.Pairwise (· < ·)
  valid : ∀ c ∈ t, c < rm.rmCols ∧ (rm.rmCol c).rcError = 0
  length_pos : 0 < t.length
  length_le : t.length ≤ rm.rmFirstdatacol - rm.totalErrors
  /-- The largest is a data column when no data column has an error. -/
  data : rm.dataErrors = 0 → ∀ c, t.getLast? = some c → rm.rmFirstdatacol ≤ c

section
variable {rm0 rm rm' rm'' : RaidzMap} {t : List Nat}

lemma RaidzMap.Rewrites.trans {T T' : Nat → Prop} (h : rm.Rewrites rm' T) (h' : rm'.Rewrites rm'' T') :
    rm.Rewrites rm'' fun c => T c ∨ T' c where
  shape := ⟨h'.shape.cols.trans h.shape.cols, h'.shape.firstdatacol.trans h.shape.firstdatacol,
    fun c => (h'.shape.size c).trans (h.shape.size c)⟩
  error c := (h'.error c).trans (h.error c)
  keep c hc := (h'.keep c fun hT => hc (.inr hT)).trans (h.keep c fun hT => hc (.inl hT))

lemma restoreTargets_spec (rm : RaidzMap) (t : List Nat) (f : Nat → Abd) :
    rm.Rewrites (restoreTargets rm t (t.map f)) (· ∈ t) ∧ ∀ c ∈ t, ∀ k < (rm.rmCol c).rcSize,
      ((restoreTargets rm t (t.map f)).rmCol c).rcAbd.buf k = (f c).buf k := by
  induction t generalizing rm with
  | nil => exact ⟨⟨⟨rfl, rfl, fun _ => rfl⟩, fun _ => rfl, fun _ _ => rfl⟩, fun c hc => absurd hc not_mem_nil⟩
  | cons d t ih =>
    have hfirst := rm.rewrites_setAbd d (abdCopy (rm.rmCol d).rcAbd (f d) (rm.rmCol d).rcSize)
    have hstep : restoreTargets rm (d :: t) ((d :: t).map f) =
        restoreTargets (rm.setAbd d (abdCopy (rm.rmCol d).rcAbd (f d) (rm.rmCol d).rcSize)) t (t.map f) := rfl
    rw [hstep]
    obtain ⟨hframe, hdata⟩ := ih (rm.setAbd d (abdCopy (rm.rmCol d).rcAbd (f d) (rm.rmCol d).rcSize))
    refine ⟨?_, fun c hc k hk => ?_⟩
    · have hboth := hfirst.trans hframe
      exact ⟨hboth.shape, hboth.error, fun c hc => hboth.keep c fun h => hc (mem_cons.2 h)⟩
    · by_cases hct : c ∈ t
      · exact hdata c hct k (by rwa [hfirst.shape.size])
      · obtain rfl := (mem_cons.1 hc).resolve_right hct
        rw [hframe.keep c hct, setAbd_abd, abdCopy_buf _ _ hk]

section
variable (hk : rm0.Kept rm)
include hk

/-- An attempt taken back leaves the columns without an error. -/
lemma RaidzMap.Kept.restore (hr : rm.Rewrites rm' (· ∈ rm.lostData t rm.rmCols))
    (hf : rm.rmFirstdatacol ≤ rm.rmCols) : rm0.Kept (restoreTargets rm' t (saveTargets rm t)) := by
  obtain ⟨hframe, hdata⟩ := restoreTargets_spec rm' t fun c =>
    abdCopy (abdAllocLinear fun _ => 0) (rm.rmCol c).rcAbd (rm.rmCol c).rcSize
  have hboth := hr.trans hframe
  refine ⟨⟨hboth.shape.cols.trans hk.shape.cols, hboth.shape.firstdatacol.trans hk.shape.firstdatacol,
    fun c => (hboth.shape.size c).trans (hk.shape.size c)⟩, fun c => (hboth.error c).trans (hk.error c),
    fun c hc herr k hkc => ?_⟩
  have hsize : k < (rm.rmCol c).rcSize := by rwa [hk.shape.size]
  rw [← hk.data c hc herr k hkc]
  by_cases hct : c ∈ t
  · exact (hdata c hct k (by rwa [hr.shape.size])).trans (abdCopy_buf _ _ hsize)
  · -- neither a target nor lost before
    have hlost : c ∉ rm.lostData t rm.rmCols := by
      rw [mem_lostData hf]
      rintro ⟨-, he | ht⟩
      · exact he ((hk.error c).trans herr)
      · exact hct ht
    exact congrArg (·.rcAbd.buf k) (hboth.keep c (not_or.2 ⟨hlost, hct⟩))

lemma RaidzMap.Kept.valid_eq : rm.valid = rm0.valid := by
  rw [valid, valid, hk.shape.cols]
  simp only [hk.error]

lemma RaidzMap.Kept.validCol_eq : rm.validCol = rm0.validCol := by
  funext r
  rw [validCol, validCol, hk.valid_eq, hk.shape.cols]

lemma RaidzMap.Kept.totalErrors_eq : rm.totalErrors = rm0.totalErrors := by
  rw [totalErrors, totalErrors, hk.shape.cols]
  simp only [hk.error]

lemma RaidzMap.Kept.dataErrors_eq : rm.dataErrors = rm0.dataErrors := by
  rw [dataErrors, dataErrors, hk.shape.cols, hk.shape.firstdatacol]
  simp only [hk.error]

lemma RaidzMap.Kept.candidate (hc : rm0.Candidate t) : rm.Candidate t where
  sorted := hc.sorted
  valid c h := by
    rw [hk.shape.cols, hk.error]
    exact hc.valid c h
  length_pos := hc.length_pos
  length_le := by
    rw [hk.shape.firstdatacol, hk.totalErrors_eq]
    exact hc.length_le
  data := by
    rw [hk.dataErrors_eq, hk.shape.firstdatacol]
    exact hc.data

end

/-- The targets are lost beside the columns with an error. -/
lemma RaidzMap.length_lost (hf : rm.rmFirstdatacol ≤ rm.rmCols) (t : List Nat) :
    rm.lostCount t ≤ rm.totalErrors + t.length := by
  rw [← rm.card_lost t hf]
  calc ((Finset.range rm.rmCols).filter (rm.Lost t)).card
      ≤ ((Finset.range rm.rmCols).filter (fun c => (rm.rmCol c).rcError ≠ 0) ∪ t.toFinset).card := by
        apply Finset.card_le_card
        intro c hc
        obtain ⟨hcols, he | hm⟩ := Finset.mem_filter.1 hc
        · exact Finset.mem_union_left _ (Finset.mem_filter.2 ⟨hcols, he⟩)
        · exact Finset.mem_union_right _ (mem_toFinset.2 hm)
    _ ≤ _ := (Finset.card_union_le _ _).trans (Nat.add_le_add_left (toFinset_card_le t) _)

lemma RaidzMap.Candidate.lostData_ne (hc : rm.Candidate t) (hf : rm.rmFirstdatacol ≤ rm.rmCols) :
    rm.lostData t rm.rmCols ≠ [] := by
  obtain ⟨c, hlast⟩ : ∃ c, t.getLast? = some c :=
    Option.ne_none_iff_exists'.1 fun h => (length_pos_iff.1 hc.length_pos) (List.getLast?_eq_none_iff.1 h)
  have hmem : c ∈ t := mem_of_getLast? hlast
  by_cases h0 : rm.dataErrors = 0
  · exact ne_nil_of_mem ((mem_lostData hf).2 ⟨⟨hc.data h0 c hlast, (hc.valid c hmem).1⟩, .inr hmem⟩)
  · obtain ⟨d, hd⟩ := exists_mem_of_length_pos (Nat.pos_of_ne_zero h0)
    obtain ⟨hrange, herr⟩ := mem_filter.1 hd
    rw [mem_range'_1, Nat.add_sub_cancel' hf] at hrange
    exact ne_nil_of_mem ((mem_lostData hf).2 ⟨hrange, .inl (of_decide_eq_true herr)⟩)

/-- An attempt comes to an end and touches the lost data columns only. -/
lemma RaidzMap.Candidate.reconstruct (hc : rm.Candidate t) (hl : rm.Layout) (g : Bool) (uninit : ByteRows) :
    ∃ rm' code, vdevRaidzReconstruct g rm t uninit = .ok (rm', code) ∧ 0 < code ∧
      rm.Rewrites rm' (· ∈ rm.lostData t rm.rmCols) := by
  have hle := length_lost hl.lt.le t
  have hlen := hc.length_le
  have hpos := hc.length_pos
  obtain ⟨rm', code, hrun, hcode, hframe, -⟩ := vdevRaidzReconstruct_spec g hl hc.sorted (fun c h => (hc.valid c h).1)
    (by omega) (hc.lostData_ne hl.lt.le) uninit
  exact ⟨rm', code, hrun, hcode, hframe⟩

lemma RaidzMap.setError_ne (rm : RaidzMap) {d : Nat} (error : Nat) (h : d ≠ c) :
    (rm.setError c error).rmCol d = rm.rmCol d := update_of_ne h _ _

lemma markTargets_ok (rm : RaidzMap) (hs : t.Nodup) (herr : ∀ c ∈ t, (rm.rmCol c).rcError = 0) : ∃ rm', markTargets t rm = .ok rm' := by
  induction t generalizing rm with
  | nil => exact ⟨rm, rfl⟩
  | cons c t ih =>
    rw [markTargets, ASSERT_bind (herr c mem_cons_self)]
    apply ih _ hs.of_cons
    intro d hd
    have hne : d ≠ c := fun h => (nodup_cons.1 hs).1 (h ▸ hd)
    rw [rm.setError_ne ecksum hne]
    exact herr d (mem_cons_of_mem c hd)

end

/-! ## All attempts -/

/-- What comes of trying `all` after `tried`: no right checksum and the old map, or the first right one. -/
inductive Outcome (rm0 : RaidzMap) (all : List (List Nat)) (tried : List (List Nat × Bool)) (s : Combrec) : Prop
  | failed (done : s.done = false) (ret : s.ret = 0) (log : s.tried = tried ++ all.map (·, false)) (kept : rm0.Kept s.rm)
  | found (done : s.done = true) (ret : s.ret ≠ 0) (before : List (List Nat)) (t : List Nat) (after : List (List Nat))
      (split : all = before ++ t :: after) (log : s.tried = tried ++ before.map (·, false) ++ [(t, true)])

variable {all : List (List Nat)} {tried : List (List Nat × Bool)} {s : Combrec}

lemma Outcome.prepend {rm0 : RaidzMap} {pre : List (List Nat)}
    (h : Outcome rm0 all (tried ++ pre.map (·, false)) s) : Outcome rm0 (pre ++ all) tried s := by
  cases h with
  | failed done ret log kept =>
    exact .failed done ret (by rw [log, map_append, append_assoc]) kept
  | found done ret before t after split log =>
    refine .found done ret (pre ++ before) t after (by rw [split, append_assoc]) ?_
    rw [log, map_append, append_assoc tried]

/-- What was found in the first part is found in the whole. -/
lemma Outcome.extend {rm0 : RaidzMap} {rest : List (List Nat)}
    (h : Outcome rm0 all tried s) (hdone : s.done = true) : Outcome rm0 (all ++ rest) tried s := by
  cases h with
  | failed done => exact absurd (done.symm.trans hdone) Bool.false_ne_true
  | found done ret before t after split log =>
    exact .found done ret before t (after ++ rest) (by rw [split, append_assoc, cons_append]) log

section
variable {rm0 : RaidzMap} (g : Bool) (verify : RaidzMap → Bool) (uninit : List Nat → ByteRows)

variable {current next : Nat} {tgts : List Nat} {o : Option (List Nat)}

lemma RaidzMap.Kept.positioned {rm : RaidzMap} (hk : rm0.Kept rm) (h : rm.Positioned n tgts current next o) : rm0.Positioned n tgts current next o := by
  cases o with
  | none => exact h
  | some l => exact ⟨h.1, by rw [← hk.validCol_eq]; exact h.2⟩

/-- An attempt: a reconstruction from the original columns, and the verdict. -/
def RaidzMap.Attempted (rm0 : RaidzMap) (a : List Nat × Bool) : Prop :=
  ∃ rm rm' code, rm0.Kept rm ∧ vdevRaidzReconstruct g rm a.1 (uninit a.1) = .ok (rm', code) ∧ verify rm' = a.2

lemma attempted_concat {a : List Nat × Bool}
    (htried : ∀ a ∈ tried, rm0.Attempted g verify uninit a) (ha : rm0.Attempted g verify uninit a) :
    ∀ b ∈ tried ++ [a], rm0.Attempted g verify uninit b := by
  intro b hb
  rcases mem_append.1 hb with h | h
  · exact htried b h
  · rw [mem_singleton.1 h]
    exact ha

/-- **The loop of a round** tries the combinations of its walk in order. -/
theorem combrecLoop_spec (hl : rm0.Layout) (hn : 0 < n) {L : List (List Nat)}
    (hL : ∀ l ∈ L, l.length = n ∧ l.Pairwise (· < ·) ∧ ∀ a ∈ l, a < rm0.valid.length)
    (hcand : ∀ l ∈ L, rm0.Candidate (l.map rm0.validCol))
    (hwalk : Walk (colexNext rm0.valid.length 0) o L none) {rm : RaidzMap} (tried : List (List Nat × Bool)) (hk : rm0.Kept rm) (hp : rm0.Positioned n tgts current next o)
    (hfuel : L.length < fuel) (htried : ∀ a ∈ tried, rm0.Attempted g verify uninit a) :
    ∃ s, combrecLoop g verify uninit n fuel rm tgts current next tried = .ok s ∧
      Outcome rm0 (L.map (·.map rm0.validCol)) tried s ∧ ∀ a ∈ s.tried, rm0.Attempted g verify uninit a := by
  -- on the combinations still to come
  induction L generalizing o fuel rm tgts current next tried with
  | nil =>
    obtain ⟨fuel, rfl⟩ : ∃ f, fuel = f + 1 := ⟨fuel - 1, by rw [length_nil] at hfuel; omega⟩
    rw [show o = none from hwalk] at hp
    exact ⟨_, if_pos hp, .failed rfl rfl (append_nil _).symm hk, htried⟩
  | cons l L ih =>
    obtain ⟨fuel, rfl⟩ : ∃ f, fuel = f + 1 := ⟨fuel - 1, by omega⟩
    obtain ⟨rfl, hrest⟩ := hwalk
    obtain ⟨hcur, htgts⟩ := hp
    obtain ⟨hlen, hsorted, hlt⟩ := hL l mem_cons_self
    have hc := hk.candidate (hcand l mem_cons_self)
    have hl' := hl.of_sameShape hk.shape
    obtain ⟨rm', code, hrun, hcode, hframe⟩ := hc.reconstruct hl' g (uninit (l.map rm0.validCol))
    rw [combrecLoop, if_neg hcur, htgts]
    dsimp only
    rw [ASSERT_bind (fun c h => (hc.valid c h).1), hrun, ok_bind]
    dsimp only
    by_cases hv : verify rm' = true
    · obtain ⟨rm'', hmark⟩ := markTargets_ok rm' (hc.sorted.imp Nat.ne_of_lt) fun c h =>
        (hframe.error c).trans (hc.valid c h).2
      rw [if_pos hv, hmark, ok_bind]
      exact ⟨_, rfl, .found rfl hcode.ne' [] _ (L.map (·.map rm0.validCol)) rfl (by rw [map_nil, append_nil]),
        attempted_concat g verify uninit htried ⟨rm, rm', code, hk, hrun, hv⟩⟩
    · have hk' := hk.restore hframe hl'.lt.le
      rw [if_neg hv]
      generalize restoreTargets rm' _ _ = rm'' at hk' ⊢
      obtain ⟨tgts', cur', next', hstep, hp'⟩ := nextTargets_colex rm'' hlen hn hsorted (by rwa [hk'.valid_eq])
      rw [hk'.validCol_eq, hk'.valid_eq] at *
      rw [hstep, ok_bind]
      dsimp only
      obtain ⟨s, hs, hout, hall⟩ := ih (fun l h => hL l (mem_cons_of_mem _ h))
        (fun l h => hcand l (mem_cons_of_mem _ h)) hrest (tried ++ [l.map rm0.validCol].map (·, false)) hk'
        (hk'.positioned hp') (Nat.lt_of_succ_lt_succ hfuel)
        (attempted_concat g verify uninit htried ⟨rm, rm', code, hk, hrun, Bool.not_eq_true _ ▸ hv⟩)
      exact ⟨s, hs, hout.prepend, hall⟩

end

end Unleashed.Zfs
