import Unleashed.Zfs.Raidz.General

/-!
# Recovery from lost columns

`vdev_raidz_reconstruct` sorts out which columns are lost and which routine applies; the data survives the loss of as
many columns as there are of parity.
-/

namespace Unleashed.Zfs

open Unleashed.Lib Function List RaidzMap

/-- The state of the loop of `vdev_raidz_reconstruct` that looks for lost columns. -/
structure TargetScan where
  i : Nat
  tgts : List Nat
  (nbadparity nbaddata : Int)
  parityValid : Nat → Bool

/-- `tgts[ntgts++] = c`, in an array with an entry a parity column. -/
def TargetScan.push (s : TargetScan) (c : Nat) : Except Fault TargetScan :=
  if s.tgts.length < vdevRaidzMaxparity then .ok { s with tgts := s.tgts ++ [c] } else .error .bounds

def scanColumn (rm : RaidzMap) (t : List Nat) (c : Nat) (s : TargetScan) : Except Fault TargetScan :=
  let s := if c < rm.rmFirstdatacol then { s with parityValid := Function.update s.parityValid c false } else s
  if s.i < t.length ∧ c = t.getD s.i 0 then TargetScan.push { s with i := s.i + 1 } c
  else if (rm.rmCol c).rcError ≠ 0 then s.push c
  else if c ≥ rm.rmFirstdatacol then .ok { s with nbaddata := s.nbaddata - 1 }
  else .ok { s with parityValid := Function.update s.parityValid c true, nbadparity := s.nbadparity - 1 }

/-- `vdev_raidz_reconstruct_general` and the checks of what it returns. -/
def reconstructGeneralChecked (rm : RaidzMap) (tgts : List Nat) (uninit : ByteRows) :
    Except Fault (RaidzMap × Nat) := do
  let (rm, code) ← vdevRaidzReconstructGeneral rm tgts tgts.length uninit
  ASSERT (code < 1 <<< vdevRaidzMaxparity)
  ASSERT (code > 0)
  .ok (rm, code)

/-- `vdev_raidz_reconstruct`, for the targets `t` and the errors. -/
def vdevRaidzReconstruct (vdevRaidzDefaultToGeneral : Bool) (rm : RaidzMap) (t : List Nat) (uninit : ByteRows) :
    Except Fault (RaidzMap × Nat) := do
  -- The tgts list must already be sorted.
  forRangeM 1 t.length (fun i (_ : Unit) => ASSERT (t.getD i 0 > t.getD (i - 1) 0)) ()
  let s ← forRangeM 0 rm.rmCols (scanColumn rm t) ⟨0, [], rm.rmFirstdatacol, rm.rmCols - rm.rmFirstdatacol, fun _ => false⟩
  ASSERT (s.tgts.length ≥ t.length)
  ASSERT (s.nbaddata ≥ 0)
  ASSERT (s.nbaddata + s.nbadparity = s.tgts.length)
  let dt := s.tgts.drop s.nbadparity.toNat
  -- See if we can use any of our optimized reconstruction routines.
  if vdevRaidzDefaultToGeneral then reconstructGeneralChecked rm s.tgts uninit
  else if s.nbaddata = 1 then
    if s.parityValid vdevRaidzP then vdevRaidzReconstructP rm dt 1
    else do
      ASSERT (rm.rmFirstdatacol > 1)
      if s.parityValid vdevRaidzQ then vdevRaidzReconstructQ rm dt 1
      else do
        ASSERT (rm.rmFirstdatacol > 2)
        reconstructGeneralChecked rm s.tgts uninit
  else if s.nbaddata = 2 then do
    ASSERT (rm.rmFirstdatacol > 1)
    if s.parityValid vdevRaidzP ∧ s.parityValid vdevRaidzQ then vdevRaidzReconstructPq rm dt 2 uninit
    else do
      ASSERT (rm.rmFirstdatacol > 2)
      reconstructGeneralChecked rm s.tgts uninit
  else reconstructGeneralChecked rm s.tgts uninit

/-! ## The lost columns -/

/-- A column with an error, or one that is a target. -/
def RaidzMap.Lost (rm : RaidzMap) (t : List Nat) (c : Nat) : Prop := (rm.rmCol c).rcError ≠ 0 ∨ c ∈ t

instance (rm : RaidzMap) (t : List Nat) : DecidablePred (rm.Lost t) := fun _ => instDecidableOr

/-- The lost ones of the parity columns before `c`. -/
def RaidzMap.lostParity (rm : RaidzMap) (t : List Nat) (c : Nat) : List Nat :=
  (range (min c rm.rmFirstdatacol)).filter (rm.Lost t)

/-- The lost ones of the data columns before `c`. -/
def RaidzMap.lostData (rm : RaidzMap) (t : List Nat) (c : Nat) : List Nat :=
  (range' rm.rmFirstdatacol (c - rm.rmFirstdatacol)).filter (rm.Lost t)

/-- How many columns are lost. -/
def RaidzMap.lostCount (rm : RaidzMap) (t : List Nat) : Nat :=
  (rm.lostParity t rm.rmFirstdatacol).length + (rm.lostData t rm.rmCols).length

section
variable {rm : RaidzMap} {t : List Nat} {c : Nat}

lemma RaidzMap.lostParity_succ (hc : c < rm.rmFirstdatacol) :
    rm.lostParity t (c + 1) = if rm.Lost t c then rm.lostParity t c ++ [c] else rm.lostParity t c := by
  rw [lostParity, min_eq_left hc, range_succ, lostParity, min_eq_left hc.le]
  exact filter_concat (rm.Lost t) _ c

lemma RaidzMap.lostParity_of_le (hc : rm.rmFirstdatacol ≤ c) : rm.lostParity t c = rm.lostParity t rm.rmFirstdatacol := by
  rw [lostParity, lostParity, min_eq_right hc, Nat.min_self]

lemma RaidzMap.lostData_succ (hc : rm.rmFirstdatacol ≤ c) :
    rm.lostData t (c + 1) = if rm.Lost t c then rm.lostData t c ++ [c] else rm.lostData t c := by
  rw [lostData, Nat.succ_sub hc, range'_1_concat, Nat.add_sub_cancel' hc]
  exact filter_concat (rm.Lost t) _ c

lemma RaidzMap.lostData_of_le (hc : c ≤ rm.rmFirstdatacol) : rm.lostData t c = [] := by
  rw [lostData, Nat.sub_eq_zero_of_le hc]
  rfl

lemma RaidzMap.mem_lostParity : c ∈ rm.lostParity t rm.rmFirstdatacol ↔ c < rm.rmFirstdatacol ∧ rm.Lost t c := by
  rw [lostParity, Nat.min_self, mem_filter, mem_range, decide_eq_true_iff]

lemma RaidzMap.mem_lostData {m : Nat} (hm : rm.rmFirstdatacol ≤ m) :
    c ∈ rm.lostData t m ↔ (rm.rmFirstdatacol ≤ c ∧ c < m) ∧ rm.Lost t c := by
  rw [lostData, mem_filter, mem_range'_1, decide_eq_true_iff, Nat.add_sub_cancel' hm]

/-- The columns are those for parity and those for data. -/
lemma RaidzMap.range_split {rm : RaidzMap} (hf : rm.rmFirstdatacol ≤ rm.rmCols) : range rm.rmCols =
    range rm.rmFirstdatacol ++ range' rm.rmFirstdatacol (rm.rmCols - rm.rmFirstdatacol) := by
  have h := range'_append_1 (s := 0) (m := rm.rmFirstdatacol) (n := rm.rmCols - rm.rmFirstdatacol)
  rw [zero_add, Nat.add_sub_cancel' hf] at h
  rw [range_eq_range', range_eq_range', h]

/-- The lost columns are the lost parity columns and the lost data columns. -/
lemma RaidzMap.card_lost (rm : RaidzMap) (t : List Nat) (hle : rm.rmFirstdatacol ≤ rm.rmCols) :
    ((Finset.range rm.rmCols).filter (rm.Lost t)).card = rm.lostCount t := by
  calc ((Finset.range rm.rmCols).filter (rm.Lost t)).card = ((range rm.rmCols).filter (rm.Lost t)).length := rfl
    _ = _ := by rw [range_split hle, filter_append, length_append, lostCount, lostParity, Nat.min_self, lostData]

/-- What the loop has found before column `c`. -/
structure ScanInv (rm : RaidzMap) (t : List Nat) (c : Nat) (s : TargetScan) : Prop where
  passed : Passed t c s.i
  tgts : s.tgts = rm.lostParity t c ++ rm.lostData t c
  nbadparity : s.nbadparity = (rm.rmFirstdatacol - min c rm.rmFirstdatacol : Nat) + (rm.lostParity t c).length
  nbaddata : s.nbaddata = (rm.rmCols - max c rm.rmFirstdatacol : Nat) + (rm.lostData t c).length
  parityValid : ∀ d < c, d < rm.rmFirstdatacol → (s.parityValid d = true ↔ ¬ rm.Lost t d)

variable {s : TargetScan}

lemma TargetScan.push_eq (h : (s.tgts ++ [c]).length ≤ vdevRaidzMaxparity) :
    s.push c = .ok { s with tgts := s.tgts ++ [c] } := by
  rw [length_append] at h
  exact if_pos h

/-- The lost columns before `c` are among all the lost columns. -/
lemma RaidzMap.length_lost_le (rm : RaidzMap) (t : List Nat) (hc : c ≤ rm.rmCols) :
    (rm.lostParity t c ++ rm.lostData t c).length ≤ rm.lostCount t := by
  rw [length_append]
  apply Nat.add_le_add
  · apply Sublist.length_le
    apply Sublist.filter
    rw [range_sublist]
    omega
  · apply Sublist.length_le
    apply Sublist.filter
    rw [range'_sublist_right]
    omega

variable {valid : Nat → Bool}

lemma ScanInv.push (h : ScanInv rm t c s) (hc : c < rm.rmCols)
    (hlost : rm.Lost t c) (hle : rm.lostCount t ≤ vdevRaidzMaxparity) {i : Nat} (hi : Passed t (c + 1) i)
    (hvalid : ∀ d < c + 1, d < rm.rmFirstdatacol → (valid d = true ↔ ¬ rm.Lost t d)) :
    ∃ s', TargetScan.push { s with i := i, parityValid := valid } c = .ok s' ∧ ScanInv rm t (c + 1) s' := by
  have htgts : s.tgts ++ [c] = rm.lostParity t (c + 1) ++ rm.lostData t (c + 1) := by
    rw [h.tgts]
    by_cases hcf : c < rm.rmFirstdatacol
    · rw [lostParity_succ hcf, if_pos hlost, lostData_of_le hcf, lostData_of_le hcf.le, append_nil, append_nil]
    · rw [lostData_succ (not_lt.1 hcf), if_pos hlost, lostParity_of_le (by omega),
        lostParity_of_le (c := c + 1) (by omega), append_assoc]
  have hlen := rm.length_lost_le t (c := c + 1) hc
  rw [← htgts] at hlen
  refine ⟨_, TargetScan.push_eq (hlen.trans hle), hi, htgts, ?_, ?_, hvalid⟩
  · have := h.nbadparity
    by_cases hcf : c < rm.rmFirstdatacol
    · rw [lostParity_succ hcf, if_pos hlost, length_append, length_singleton]
      dsimp only
      omega
    · rw [lostParity_of_le (c := c + 1) (by omega), ← lostParity_of_le (c := c) (by omega)]
      dsimp only
      omega
  · have := h.nbaddata
    by_cases hcf : c < rm.rmFirstdatacol
    · rw [lostData_of_le hcf, ← lostData_of_le (t := t) hcf.le]
      dsimp only
      omega
    · rw [lostData_succ (not_lt.1 hcf), if_pos hlost, length_append, length_singleton]
      dsimp only
      omega

lemma ScanInv.survive (h : ScanInv rm t c s) (hc : c < rm.rmCols) (hlost : ¬ rm.Lost t c)
    (hi : Passed t (c + 1) s.i) {p d : Int} (hvalid : ∀ d < c + 1, d < rm.rmFirstdatacol → (valid d = true ↔ ¬ rm.Lost t d))
    (hp : p = if c < rm.rmFirstdatacol then s.nbadparity - 1 else s.nbadparity)
    (hd : d = if c < rm.rmFirstdatacol then s.nbaddata else s.nbaddata - 1) :
    ScanInv rm t (c + 1) { s with parityValid := valid, nbadparity := p, nbaddata := d } := by
  have h1 := h.nbadparity
  have h2 := h.nbaddata
  by_cases hcf : c < rm.rmFirstdatacol
  · rw [if_pos hcf] at hp hd
    have hpar : rm.lostParity t (c + 1) = rm.lostParity t c := by rw [lostParity_succ hcf, if_neg hlost]
    have hdat : rm.lostData t (c + 1) = rm.lostData t c := by
      rw [lostData_of_le hcf, lostData_of_le hcf.le]
    refine ⟨hi, ?_, ?_, ?_, hvalid⟩
    · rw [hpar, hdat]
      exact h.tgts
    · rw [hpar]
      dsimp only
      omega
    · rw [hdat]
      dsimp only
      omega
  · rw [if_neg hcf] at hp hd
    have hpar : rm.lostParity t (c + 1) = rm.lostParity t c := by
      rw [lostParity_of_le (c := c + 1) (by omega), lostParity_of_le (c := c) (by omega)]
    have hdat : rm.lostData t (c + 1) = rm.lostData t c := by
      rw [lostData_succ (not_lt.1 hcf), if_neg hlost]
    refine ⟨hi, ?_, ?_, ?_, hvalid⟩
    · rw [hpar, hdat]
      exact h.tgts
    · rw [hpar]
      dsimp only
      omega
    · rw [hdat]
      dsimp only
      omega

lemma scanColumn_inv (h : ScanInv rm t c s) (hs : t.Pairwise (· < ·)) (hc : c < rm.rmCols)
    (hle : rm.lostCount t ≤ vdevRaidzMaxparity) : ∃ s', scanColumn rm t c s = .ok s' ∧ ScanInv rm t (c + 1) s' := by
  -- the entry of a parity column starts out as invalid
  obtain ⟨valid, hstart, hlow, hself⟩ : ∃ valid : Nat → Bool,
      (if c < rm.rmFirstdatacol then { s with parityValid := update s.parityValid c false } else s) =
        { s with parityValid := valid } ∧
      (∀ d < c, d < rm.rmFirstdatacol → (valid d = true ↔ ¬ rm.Lost t d)) ∧
      (c < rm.rmFirstdatacol → valid c = false) := by
    by_cases hcf : c < rm.rmFirstdatacol
    · refine ⟨_, if_pos hcf, fun d hd hdf => ?_, fun _ => update_self _ _ _⟩
      rw [update_of_ne hd.ne]
      exact h.parityValid d hd hdf
    · exact ⟨s.parityValid, if_neg hcf, h.parityValid, fun h => absurd h hcf⟩
  have hbad : rm.Lost t c → ∀ d < c + 1, d < rm.rmFirstdatacol → (valid d = true ↔ ¬ rm.Lost t d) := by
    intro hl d hd hdf
    rcases Nat.lt_succ_iff_lt_or_eq.1 hd with hlt | rfl
    · exact hlow d hlt hdf
    · rw [hself hdf]
      exact ⟨fun h => absurd h Bool.false_ne_true, fun h => absurd hl h⟩
  unfold scanColumn
  rw [hstart]
  by_cases hhit : s.i < t.length ∧ c = t.getD s.i 0
  · rw [if_pos hhit]
    have hl : rm.Lost t c := .inr ((h.passed.mem_iff hs).2 hhit)
    exact h.push hc hl hle (h.passed.hit hs hhit.2) (hbad hl)
  have hmiss : Passed t (c + 1) s.i := h.passed.miss hs fun hlt heq => hhit ⟨hlt, heq⟩
  rw [if_neg hhit]
  by_cases herr : (rm.rmCol c).rcError ≠ 0
  · rw [if_pos herr]
    exact h.push hc (.inl herr) hle hmiss (hbad (.inl herr))
  have hl : ¬ rm.Lost t c := by
    rintro (he | hm)
    · exact herr he
    · exact hhit ((h.passed.mem_iff hs).1 hm)
  rw [if_neg herr]
  by_cases hcf : c ≥ rm.rmFirstdatacol
  · rw [if_pos hcf]
    refine ⟨_, rfl, h.survive hc hl hmiss (fun d hd hdf => hlow d (by omega) hdf) ?_ ?_⟩
    · rw [if_neg (by omega)]
    · rw [if_neg (by omega)]
  · rw [if_neg hcf]
    refine ⟨_, rfl, h.survive hc hl hmiss (fun d hd hdf => ?_) ?_ ?_⟩
    · rcases Nat.lt_succ_iff_lt_or_eq.1 hd with hlt | rfl
      · rw [update_of_ne hlt.ne]
        exact hlow d hlt hdf
      · rw [update_self]
        exact ⟨fun _ => hl, fun _ => rfl⟩
    · rw [if_pos (by omega)]
    · rw [if_pos (by omega)]

lemma scan_spec (hs : t.Pairwise (· < ·)) (hf : rm.rmFirstdatacol ≤ rm.rmCols) (hle : rm.lostCount t ≤ vdevRaidzMaxparity) :
    ∃ s, forRangeM 0 rm.rmCols (scanColumn rm t)
        ⟨0, [], rm.rmFirstdatacol, rm.rmCols - rm.rmFirstdatacol, fun _ => false⟩ = .ok s ∧
      s.tgts = rm.lostParity t rm.rmFirstdatacol ++ rm.lostData t rm.rmCols ∧
      s.nbadparity = (rm.lostParity t rm.rmFirstdatacol).length ∧ s.nbaddata = (rm.lostData t rm.rmCols).length ∧
      ∀ d < rm.rmFirstdatacol, s.parityValid d = true ↔ ¬ rm.Lost t d := by
  have hstart : ScanInv rm t 0 ⟨0, [], rm.rmFirstdatacol, rm.rmCols - rm.rmFirstdatacol, fun _ => false⟩ := by
    refine ⟨Passed.zero t, ?_, ?_, ?_, fun d hd => absurd hd (Nat.not_lt_zero d)⟩
    · rw [lostData_of_le (Nat.zero_le _), lostParity, Nat.zero_min]
      rfl
    · rw [lostParity, Nat.zero_min]
      simp
    · rw [lostData_of_le (Nat.zero_le _)]
      dsimp only
      rw [length_nil]
      omega
  obtain ⟨s, hrun, hinv⟩ := forRangeM_rule (ScanInv rm t) (Nat.zero_le rm.rmCols) hstart
    fun c s _ hc h => scanColumn_inv h hs hc hle
  refine ⟨s, hrun, ?_, ?_, ?_, fun d hd => hinv.parityValid d (hd.trans_le hf) hd⟩
  · rw [hinv.tgts, lostParity_of_le hf]
  · have := hinv.nbadparity
    rw [lostParity_of_le hf] at this
    omega
  · have := hinv.nbaddata
    omega

lemma RaidzMap.targets_lost (hs : rm.rmFirstdatacol ≤ rm.rmCols) (hle : rm.lostCount t ≤ rm.rmFirstdatacol) :
    rm.Targets (rm.lostParity t rm.rmFirstdatacol) (rm.lostData t rm.rmCols) where
  sorted := by
    rw [pairwise_append]
    refine ⟨pairwise_lt_range.filter _, (pairwise_lt_range' 1 (by decide)).filter _, fun a ha b hb => ?_⟩
    exact (mem_lostParity.1 ha).1.trans_le ((mem_lostData hs).1 hb).1.1
  parity c hc := (mem_lostParity.1 hc).1
  data c hc := ((mem_lostData hs).1 hc).1
  enough := hle

end

/-! ## The choice of a routine -/

section
variable {rm0 rm : RaidzMap} {t : List Nat}

lemma reconstructGeneralChecked_spec (hl : rm.Layout) (hle : rm.lostCount t ≤ rm.rmFirstdatacol)
    (hds : rm.lostData t rm.rmCols ≠ []) (uninit : ByteRows) :
    ∃ rm' code, reconstructGeneralChecked rm (rm.lostParity t rm.rmFirstdatacol ++ rm.lostData t rm.rmCols) uninit =
        .ok (rm', code) ∧ 0 < code ∧ rm.Rewrites rm' (· ∈ rm.lostData t rm.rmCols) ∧
      ∀ rm0 : RaidzMap, rm0.Damaged rm (rm.Lost t) → rm0.Restored rm rm' (· ∈ rm.lostData t rm.rmCols) := by
  have hf := hl.lt.le
  obtain ⟨rm', code, hrun, hpos, hlt, hframe, hres⟩ :=
    vdevRaidzReconstructGeneral_spec hl (targets_lost hf hle) hds uninit
  unfold reconstructGeneralChecked
  rw [hrun, ok_bind]
  dsimp only
  rw [ASSERT_bind hlt, ASSERT_bind hpos]
  refine ⟨rm', code, rfl, hpos, hframe, fun rm0 h => hres rm0 _ h fun c hc hlc => ?_⟩
  rw [mem_append, mem_lostParity, mem_lostData hf]
  by_cases hcf : c < rm.rmFirstdatacol
  · exact .inl ⟨hcf, hlc⟩
  · exact .inr ⟨⟨by omega, hc⟩, hlc⟩

lemma targets_sorted (hs : t.Pairwise (· < ·)) :
    forRangeM 1 t.length (fun i (_ : Unit) => ASSERT (t.getD i 0 > t.getD (i - 1) 0)) () = .ok () := by
  rcases Nat.le_total t.length 1 with hle | hle
  · exact forRangeM_of_le hle _ _
  · exact forRangeM_check hle fun i h1 h2 => ASSERT_eq_ok.2 (getD_lt_getD hs (by omega) h2)

lemma two_le_length_of_mem {l : List Nat} {a b : Nat} (ha : a ∈ l) (hb : b ∈ l) (hne : a ≠ b) : 2 ≤ l.length := by
  have hsub : [a, b].Subperm l := by
    apply Nodup.subperm (by simpa using hne)
    intro c hc
    rcases mem_pair.1 hc with rfl | rfl
    · exact ha
    · exact hb
  exact hsub.length_le

/-- **`vdev_raidz_reconstruct`** restores the lost data columns. -/
theorem vdevRaidzReconstruct_spec (g : Bool) (hl : rm.Layout) (hs : t.Pairwise (· < ·)) (ht : ∀ c ∈ t, c < rm.rmCols)
    (hle : rm.lostCount t ≤ rm.rmFirstdatacol) (hds : rm.lostData t rm.rmCols ≠ []) (uninit : ByteRows) :
    ∃ rm' code, vdevRaidzReconstruct g rm t uninit = .ok (rm', code) ∧ 0 < code ∧
      rm.Rewrites rm' (· ∈ rm.lostData t rm.rmCols) ∧
      ∀ rm0 : RaidzMap, rm0.Damaged rm (rm.Lost t) → rm0.Restored rm rm' (· ∈ rm.lostData t rm.rmCols) := by
  have hf := hl.lt.le
  have hmax : rm.rmFirstdatacol ≤ 3 := hl.parity_le
  have hpos := length_pos_of_ne_nil hds
  obtain ⟨s, hrun, htgts, hparity, hdata, hvalid⟩ := scan_spec hs hf (hle.trans hl.parity_le)
  have hgeneral := reconstructGeneralChecked_spec hl hle hds uninit
  rw [← htgts] at hgeneral
  have hsubset : t.length ≤ s.tgts.length := by
    apply Subperm.length_le
    apply Nodup.subperm (hs.imp Nat.ne_of_lt)
    intro c hc
    rw [htgts, mem_append, mem_lostParity, mem_lostData hf]
    by_cases hcf : c < rm.rmFirstdatacol
    · exact .inl ⟨hcf, .inr hc⟩
    · exact .inr ⟨⟨by omega, ht c hc⟩, .inr hc⟩
  have hdt : s.tgts.drop s.nbadparity.toNat = rm.lostData t rm.rmCols := by
    rw [htgts, hparity, Int.toNat_natCast, drop_left]
  have hmem : ∀ c, c ∈ rm.lostData t rm.rmCols ↔ (rm.rmFirstdatacol ≤ c ∧ c < rm.rmCols) ∧ rm.Lost t c :=
    fun c => mem_lostData hf
  have hother : ∀ c, rm.rmFirstdatacol ≤ c → c < rm.rmCols → c ∉ rm.lostData t rm.rmCols → ¬ rm.Lost t c :=
    fun c h1 h2 hn hlc => hn ((hmem c).2 ⟨⟨h1, h2⟩, hlc⟩)
  -- a parity column that is not valid is lost
  have hinvalid : ∀ d < rm.rmFirstdatacol, ¬ s.parityValid d = true → d ∈ rm.lostParity t rm.rmFirstdatacol := by
    intro d hd hv
    rw [hvalid d hd, not_not] at hv
    exact mem_lostParity.2 ⟨hd, hv⟩
  have hsorted : (rm.lostData t rm.rmCols).Pairwise (· < ·) := (targets_lost hf hle).sorted_data
  unfold lostCount at hle
  unfold vdevRaidzReconstruct
  rw [targets_sorted hs, ok_bind, hrun, ok_bind, ASSERT_bind hsubset, ASSERT_bind (by omega), ASSERT_bind (by
      rw [hdata, hparity, htgts, length_append]
      push_cast
      omega)]
  rw [hdt]
  by_cases hg : g = true
  · rw [if_pos hg]
    exact hgeneral
  rw [if_neg hg]
  by_cases h1 : s.nbaddata = 1
  · rw [if_pos h1]
    obtain ⟨x, hx⟩ : ∃ x, rm.lostData t rm.rmCols = [x] := length_eq_one_iff.1 (by omega)
    rw [hx] at hmem hother
    have hxdata := ((hmem x).1 (mem_singleton_self x)).1
    have hother' : ∀ c, rm.rmFirstdatacol ≤ c → c < rm.rmCols → c ≠ x → ¬ rm.Lost t c :=
      fun c h1 h2 hne => hother c h1 h2 (mt mem_singleton.1 hne)
    have hset : (· ∈ rm.lostData t rm.rmCols) = (· = x) := by
      funext c
      rw [hx, mem_singleton]
    rw [hset]
    by_cases hP : s.parityValid vdevRaidzP = true
    · rw [if_pos hP]
      obtain ⟨dst, heq, hdst⟩ := vdevRaidzReconstructP_spec hl
        (show (rm.lostData t rm.rmCols).getD 0 0 = x by rw [hx]; rfl) hxdata.1 hxdata.2
      exact ⟨_, _, heq, by decide, rm.rewrites_setAbd x dst, fun rm0 h => RaidzMap.restored_setAbd
        (hdst rm0 _ h ((hvalid vdevRaidzP hl.parity_pos).1 hP) hother')⟩
    have hPlost := hinvalid vdevRaidzP hl.parity_pos hP
    have hpar1 := length_pos_of_mem hPlost
    rw [if_neg hP, ASSERT_bind (by omega)]
    by_cases hQ : s.parityValid vdevRaidzQ = true
    · rw [if_pos hQ]
      obtain ⟨dst, heq, hdst⟩ := vdevRaidzReconstructQ_spec hl
        (show (rm.lostData t rm.rmCols).getD 0 0 = x by rw [hx]; rfl) hxdata.1 hxdata.2 (by omega)
      exact ⟨_, _, heq, by decide, rm.rewrites_setAbd x dst, fun rm0 h => RaidzMap.restored_setAbd
        (hdst rm0 _ h ((hvalid vdevRaidzQ (by unfold vdevRaidzQ; omega)).1 hQ) hother')⟩
    have hQlost := hinvalid vdevRaidzQ (by unfold vdevRaidzQ; omega) hQ
    have hpar2 := two_le_length_of_mem hPlost hQlost (by decide)
    rw [if_neg hQ, ASSERT_bind (by omega), ← hset]
    exact hgeneral
  rw [if_neg h1]
  by_cases h2 : s.nbaddata = 2
  · rw [if_pos h2, ASSERT_bind (by omega)]
    by_cases hPQ : s.parityValid vdevRaidzP = true ∧ s.parityValid vdevRaidzQ = true
    · rw [if_pos hPQ]
      obtain ⟨x, y, hxy⟩ : ∃ x y, rm.lostData t rm.rmCols = [x, y] := length_eq_two.1 (by omega)
      rw [hxy] at hmem hother hsorted
      have hlt : x < y := rel_of_pairwise_cons hsorted (mem_singleton_self y)
      have hset : (· ∈ rm.lostData t rm.rmCols) = fun c => c = x ∨ c = y := by
        funext c
        rw [hxy, mem_pair]
      rw [hset]
      obtain ⟨rm', heq, hframe, hres⟩ := vdevRaidzReconstructPq_spec hl
        (show (rm.lostData t rm.rmCols).getD 0 0 = x by rw [hxy]; rfl)
        (show (rm.lostData t rm.rmCols).getD 1 0 = y by rw [hxy]; rfl) ((hmem x).1 (mem_pair.2 (.inl rfl))).1.1 hlt
        ((hmem y).1 (mem_pair.2 (.inr rfl))).1.2 (by omega) uninit
      exact ⟨_, _, heq, by decide, hframe, fun rm0 h => hres rm0 _ h ((hvalid vdevRaidzP hl.parity_pos).1 hPQ.1)
        ((hvalid vdevRaidzQ (by unfold vdevRaidzQ; omega)).1 hPQ.2)
        fun c h1 h2 hcx hcy => hother c h1 h2 fun hm => (mem_pair.1 hm).elim hcx hcy⟩
    · -- a lost parity column and two lost data columns leave no room in double parity
      have hlost : ∃ d, d ∈ rm.lostParity t rm.rmFirstdatacol := by
        by_cases hP : s.parityValid vdevRaidzP = true
        · exact ⟨_, hinvalid vdevRaidzQ (by unfold vdevRaidzQ; omega) fun hQ => hPQ ⟨hP, hQ⟩⟩
        · exact ⟨_, hinvalid vdevRaidzP hl.parity_pos hP⟩
      obtain ⟨d, hd⟩ := hlost
      have := length_pos_of_mem hd
      rw [if_neg hPQ, ASSERT_bind (by omega)]
      exact hgeneral
  · rw [if_neg h2]
    exact hgeneral

/-- Without a lost data column an assertion fails. -/
lemma vdevRaidzReconstruct_parity_only (g : Bool) (hl : rm.Layout) (hs : t.Pairwise (· < ·))
    (ht : ∀ c ∈ t, c < rm.rmFirstdatacol) (hnone : rm.lostData t rm.rmCols = []) (uninit : ByteRows) :
    vdevRaidzReconstruct g rm t uninit = .error .assert := by
  have hf := hl.lt.le
  have hle : rm.lostCount t ≤ rm.rmFirstdatacol := by
    have := length_filter_le (rm.Lost t) (range rm.rmFirstdatacol)
    rw [length_range] at this
    rw [lostCount, hnone, lostParity, Nat.min_self]
    exact this
  obtain ⟨s, hrun, htgts, hparity, hdata, -⟩ := scan_spec hs hf (hle.trans hl.parity_le)
  rw [hnone, append_nil] at htgts
  rw [hnone, length_nil] at hdata
  -- the general routine chooses no parity, and its code stays zero
  have hlinear : ∀ rm' : RaidzMap, rm'.rmFirstdatacol = rm.rmFirstdatacol →
      reconstructLinear rm' s.tgts s.tgts.length uninit = .error .assert := by
    intro rm' hfirst
    have hmissing : ((s.tgts.take s.tgts.length).filter (rm'.rmFirstdatacol ≤ ·)).map (· - rm'.rmFirstdatacol) = [] := by
      rw [take_length, htgts, hfirst, filter_eq_nil_iff.2, map_nil]
      intro c hc
      have := (mem_lostParity.1 hc).1
      rw [decide_eq_true_iff]
      omega
    unfold reconstructLinear
    dsimp only
    rw [hmissing, length_nil, raidzParityMap, if_neg (Nat.not_lt_zero _)]
    rfl
  have hgeneral : reconstructGeneralChecked rm s.tgts uninit = .error .assert := by
    unfold reconstructGeneralChecked vdevRaidzReconstructGeneral
    by_cases hlin : (rm.rmCol rm.rmFirstdatacol).rcAbd.linear
    · rw [if_pos hlin, hlinear rm rfl]
      rfl
    · obtain ⟨hshape, -, -⟩ := rm.forRange_setAbd hf (fun c => c) (fun _ _ _ _ _ _ heq => heq) fun c _ =>
        abdCopy (abdAllocLinear (uninit c)) (rm.rmCol c).rcAbd (rm.rmCol c).rcSize
      rw [if_neg hlin]
      dsimp only
      rw [hlinear _ hshape.firstdatacol]
      rfl
  have hsubset : t.length ≤ s.tgts.length := by
    apply Subperm.length_le
    apply Nodup.subperm (hs.imp Nat.ne_of_lt)
    intro c hc
    rw [htgts, mem_lostParity]
    exact ⟨ht c hc, .inr hc⟩
  rw [vdevRaidzReconstruct, targets_sorted hs, ok_bind, hrun, ok_bind, ASSERT_bind hsubset, ASSERT_bind (by omega),
    ASSERT_bind (by rw [hdata, hparity, htgts]; push_cast; omega)]
  dsimp only
  rw [if_neg (show ¬ s.nbaddata = 1 by omega), if_neg (show ¬ s.nbaddata = 2 by omega), hgeneral, ite_self]

end

/-! ## Loss and recovery -/

/-- The columns get errors, and the lost ones other contents. -/
def RaidzMap.damage (rm : RaidzMap) (t : List Nat) (error : Nat → Nat) (junk : Nat → Nat → Byte) : RaidzMap :=
  { rm with rmCol := fun c =>
      { rm.rmCol c with
        rcError := error c
        rcAbd := if error c ≠ 0 ∨ c ∈ t then { (rm.rmCol c).rcAbd with buf := junk c } else (rm.rmCol c).rcAbd } }

lemma RaidzMap.damaged_damage {rm : RaidzMap} (hl : rm.Layout) (he : rm.Encoded) (t : List Nat) (error : Nat → Nat)
    (junk : Nat → Nat → Byte) : rm.Damaged (rm.damage t error junk) ((rm.damage t error junk).Lost t) where
  layout := hl
  encoded := he
  shape := ⟨rfl, rfl, fun _ => rfl⟩
  survives c _ hlost k _ := by
    have hcol : ((rm.damage t error junk).rmCol c).rcAbd = (rm.rmCol c).rcAbd := if_neg hlost
    rw [hcol]

/-- **RAID-Z recovers from the loss of as many columns as it has parity**, with data among them. -/
theorem raidz_reconstruct_restores {size unitShift dcols nparity : Nat} (hio : RaidzIo size unitShift dcols nparity)
    (abd : Abd) (offset : Nat) (uninit : Nat → Nat → Byte) :
    ∃ rm0 rm₁, vdevRaidzMapAlloc abd size offset unitShift dcols nparity uninit = .ok rm0 ∧
      vdevRaidzGenerateParity rm0 = .ok rm₁ ∧
      ∀ (t : List Nat) (error : Nat → Nat) (junk : Nat → Nat → Byte), t.Pairwise (· < ·) → (∀ c ∈ t, c < rm₁.rmCols) →
        ((Finset.range rm₁.rmCols).filter ((rm₁.damage t error junk).Lost t)).card ≤ nparity →
        (∃ c, nparity ≤ c ∧ c < rm₁.rmCols ∧ (rm₁.damage t error junk).Lost t c) →
        ∀ (g : Bool) (uninit' : ByteRows), ∃ rm' code,
          vdevRaidzReconstruct g (rm₁.damage t error junk) t uninit' = .ok (rm', code) ∧
          (∀ c, nparity ≤ c → c < rm₁.rmCols → ∀ k < (rm₁.rmCol c).rcSize,
            (rm'.rmCol c).rcAbd.buf k = (rm₁.rmCol c).rcAbd.buf k) ∧
          ∀ c < rm₁.rmCols, ¬ (rm₁.damage t error junk).Lost t c → rm'.rmCol c = (rm₁.damage t error junk).rmCol c := by
  obtain ⟨rm0, halloc, hl0, hfirst, -⟩ := vdevRaidzMapAlloc_spec hio abd offset uninit
  obtain ⟨rm₁, hgen, hshape, henc, -⟩ := vdevRaidzGenerateParity_spec hl0
  refine ⟨rm0, rm₁, halloc, hgen, fun t error junk hs ht hcard hdata g uninit' => ?_⟩
  have hl1 := hl0.of_sameShape hshape
  have hfirst1 : rm₁.rmFirstdatacol = nparity := hshape.firstdatacol.trans hfirst
  have hdam := damaged_damage hl1 henc t error junk
  generalize rm₁.damage t error junk = rm at hcard hdata hdam ⊢
  have hl := hdam.layout'
  have hf := hl.lt.le
  have hfirst' : rm.rmFirstdatacol = nparity := hdam.shape.firstdatacol.trans hfirst1
  rw [← hdam.shape.cols] at ht hcard hdata ⊢
  have hle := rm.card_lost t hf ▸ hcard
  obtain ⟨c, hc1, hc2, hc3⟩ := hdata
  have hne : rm.lostData t rm.rmCols ≠ [] :=
    ne_nil_of_mem ((mem_lostData hf).2 ⟨⟨by omega, hc2⟩, hc3⟩)
  obtain ⟨rm', code, hrun, -, -, hrestored⟩ := vdevRaidzReconstruct_spec g hl hs ht (by omega) hne uninit'
  have hres := hrestored rm₁ hdam
  refine ⟨rm', code, hrun, fun c h1 h2 k hk => ?_, fun c hc hnl => hres.keep c fun hm => hnl ((mem_lostData hf).1 hm).2⟩
  rw [← hdam.shape.size] at hk
  by_cases hlost : rm.Lost t c
  · exact hres.data c ((mem_lostData hf).2 ⟨⟨by omega, h2⟩, hlost⟩) k hk
  · rw [hres.keep c fun hm => hlost ((mem_lostData hf).1 hm).2]
    exact hdam.survives c h2 hlost k hk

/-- The parity is written into a map of the same shape. -/
lemma generated_shape {size unitShift dcols nparity offset : Nat} {abd : Abd} {uninit : Nat → Nat → Byte} {rm0 rm1 : RaidzMap}
    (hio : RaidzIo size unitShift dcols nparity) (halloc : vdevRaidzMapAlloc abd size offset unitShift dcols nparity uninit = .ok rm0)
    (hgen : vdevRaidzGenerateParity rm0 = .ok rm1) : rm0.SameShape rm1 := by
  obtain ⟨rm0', halloc', hl, -⟩ := vdevRaidzMapAlloc_spec hio abd offset uninit
  obtain rfl := Except.ok.inj (halloc'.symm.trans halloc)
  obtain ⟨rm1', hgen', hshape, -⟩ := vdevRaidzGenerateParity_spec hl
  obtain rfl := Except.ok.inj (hgen'.symm.trans hgen)
  exact hshape

/-- Four sectors over six children, with double parity: two data columns are lost and come back. -/
theorem raidz_reconstruct_restores_double : ∃ rm0 rm₁ rm' code,
    vdevRaidzMapAlloc ⟨true, fun k => .ofNat 8 k⟩ 2048 0 9 6 2 (fun _ _ => 0) = .ok rm0 ∧ vdevRaidzGenerateParity rm0 = .ok rm₁ ∧
    vdevRaidzReconstruct false (rm₁.damage [2, 4] (fun _ => 0) fun _ _ => 0xff) [2, 4] (fun _ _ => 0) = .ok (rm', code) ∧
    ∀ k < 512, (rm'.rmCol 2).rcAbd.buf k = (rm₁.rmCol 2).rcAbd.buf k ∧ (rm'.rmCol 4).rcAbd.buf k = (rm₁.rmCol 4).rcAbd.buf k := by
  have hio : RaidzIo 2048 9 6 2 := ⟨by decide, by decide, by decide, by decide, by decide, by decide⟩
  obtain ⟨rm0, rm₁, halloc, hgen, hall⟩ := raidz_reconstruct_restores hio ⟨true, fun k => .ofNat 8 k⟩ 0 fun _ _ => 0
  have hshape := generated_shape hio halloc hgen
  have hval : (vdevRaidzMapAlloc ⟨true, fun k => .ofNat 8 k⟩ 2048 0 9 6 2 fun _ _ => 0).map
      (fun rm => (rm.rmCols, (rm.rmCol 2).rcSize, (rm.rmCol 4).rcSize)) = .ok (6, 512, 512) := rfl
  rw [halloc] at hval
  obtain ⟨hcols, hsize2, hsize4⟩ : rm0.rmCols = 6 ∧ (rm0.rmCol 2).rcSize = 512 ∧ (rm0.rmCol 4).rcSize = 512 := by
    simpa only [Prod.mk.injEq] using Except.ok.inj hval
  rw [← hshape.cols] at hcols
  rw [← hshape.size] at hsize2 hsize4
  have hlost : ∀ c, (rm₁.damage [2, 4] (fun _ => 0) fun _ _ => 0xff).Lost [2, 4] c ↔ c = 2 ∨ c = 4 := by
    intro c
    simp [Lost, damage]
  obtain ⟨rm', code, hrun, hdata, -⟩ := hall [2, 4] (fun _ => 0) (fun _ _ => 0xff) (by simp)
    (by simp [hcols]) (by rw [Finset.filter_congr fun c _ => hlost c, hcols]; decide) ⟨2, le_rfl, by omega, (hlost 2).2 (.inl rfl)⟩
    false fun _ _ => 0
  refine ⟨rm0, rm₁, rm', code, halloc, hgen, hrun, fun k hk => ⟨?_, ?_⟩⟩
  · exact hdata 2 le_rfl (by omega) k (by omega)
  · exact hdata 4 (by decide) (by omega) k (by omega)

/-- One sector over two children, of which one is for parity. -/
lemma raidzIo_sector : RaidzIo 512 9 2 1 := ⟨by decide, by decide, by decide, by decide, by decide, by decide⟩

/-- The loss of the parity alone fails the assertion. -/
theorem raidz_reconstruct_parity_lost : ∃ rm0 rm₁,
    vdevRaidzMapAlloc ⟨true, fun _ => 0⟩ 512 0 9 2 1 (fun _ _ => 0) = .ok rm0 ∧ vdevRaidzGenerateParity rm0 = .ok rm₁ ∧
    ((Finset.range rm₁.rmCols).filter ((rm₁.damage [0] (fun _ => 0) fun _ _ => 0xff).Lost [0])).card ≤ 1 ∧
    ∀ g, vdevRaidzReconstruct g (rm₁.damage [0] (fun _ => 0) fun _ _ => 0xff) [0] (fun _ _ => 0) = .error .assert := by
  obtain ⟨rm0, halloc, hl0, -⟩ := vdevRaidzMapAlloc_spec raidzIo_sector ⟨true, fun _ => 0⟩ 0 fun _ _ => 0
  obtain ⟨rm₁, hgen, hshape, henc, -⟩ := vdevRaidzGenerateParity_spec hl0
  have hl := hl0.of_sameShape hshape
  have hval : (vdevRaidzMapAlloc ⟨true, fun _ => 0⟩ 512 0 9 2 1 fun _ _ => 0).map (fun rm => (rm.rmCols, rm.rmFirstdatacol)) =
      .ok (2, 1) := rfl
  rw [halloc] at hval
  obtain ⟨hcols, hfirst⟩ : rm0.rmCols = 2 ∧ rm0.rmFirstdatacol = 1 := by
    simpa only [Prod.mk.injEq] using Except.ok.inj hval
  rw [← hshape.cols] at hcols
  rw [← hshape.firstdatacol] at hfirst
  have hlost : ∀ c, (rm₁.damage [0] (fun _ => 0) fun _ _ => 0xff).Lost [0] c ↔ c = 0 := by
    intro c
    simp [Lost, damage]
  refine ⟨rm0, rm₁, halloc, hgen, by rw [Finset.filter_congr fun c _ => hlost c, hcols]; decide, fun g => ?_⟩
  have hdam := damaged_damage hl henc [0] (fun _ => 0) fun _ _ => 0xff
  have hfirst' := hdam.shape.firstdatacol.trans hfirst
  apply vdevRaidzReconstruct_parity_only g hdam.layout' (pairwise_singleton _ _)
  · intro c hc
    rw [List.mem_singleton.1 hc, hfirst']
    decide
  · rw [eq_nil_iff_forall_not_mem]
    intro c hc
    obtain ⟨⟨h1, -⟩, h2⟩ := (mem_lostData hdam.layout'.lt.le).1 hc
    have := (hlost c).1 h2
    omega

end Unleashed.Zfs
