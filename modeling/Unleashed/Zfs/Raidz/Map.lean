import Unleashed.Lib.Loop
import Unleashed.Zfs.Raidz.Field

/-!
# The columns of a RAID-Z I/O

`vdev_raidz_map_alloc` divides an I/O over the children: first parity, then the data column by column; when it does
not fill the last row the first columns are one sector longer.
-/

namespace Unleashed.Zfs

open Unleashed.Lib Nat

/-- The bytes of an `abd_t`, and whether they lie in one piece. -/
@[ext] structure Abd where
  linear : Bool
  buf : Nat → Byte

/-- Word `i` of a buffer that is accessed through a `uint64_t *`. -/
def Abd.word (a : Abd) (i : Nat) : Word := ofLanes fun j => a.buf (8 * i + j)

def Abd.setWord (a : Abd) (i : Nat) (w : Word) : Abd :=
  { a with buf := fun k => if k / 8 = i then lane w (k % 8) else a.buf k }

def Abd.setByte (a : Abd) (i : Nat) (b : Byte) : Abd := { a with buf := Function.update a.buf i b }

/-- `abd_copy`, `abd_copy_to_buf` and `memcpy`. -/
def abdCopy (dst src : Abd) (size : Nat) : Abd :=
  { dst with buf := fun k => if k < size then src.buf k else dst.buf k }

def abdZeroOff (abd : Abd) (off size : Nat) : Abd :=
  { abd with buf := fun k => if off ≤ k ∧ k < off + size then 0 else abd.buf k }

def abdGetOffset (abd : Abd) (off : Nat) : Abd := { abd with buf := fun k => abd.buf (off + k) }

/-- `abd_alloc_linear`, of memory that has some contents. -/
def abdAllocLinear (uninit : Nat → Byte) : Abd := ⟨true, uninit⟩

/-- `raidz_col_t`. -/
structure RaidzCol where
  (rcDevidx rcOffset rcSize : Nat)
  rcAbd : Abd
  rcError : Nat

/-- `raidz_map_t`. -/
structure RaidzMap where
  (rmCols rmScols rmBigcols rmAsize rmFirstdatacol rmNskip rmSkipstart : Nat)
  rmCol : Nat → RaidzCol

def vdevRaidzP : Nat := 0
def vdevRaidzQ : Nat := 1
def vdevRaidzR : Nat := 2
def vdevRaidzMaxparity : Nat := 3

/-- `roundup(x, y)`. -/
def roundup (x y : Nat) : Nat := (x + (y - 1)) / y * y

/-- The size of column `c`: the first `bc` of `acols` are big. -/
def raidzColSize (q bc acols unitShift c : Nat) : Nat :=
  if c ≥ acols then 0 else if c < bc then (q + 1) <<< unitShift else q <<< unitShift

/-- The parity of single-parity RAID-Z is switched every 1MB. -/
def raidzSwitchParity (rm : RaidzMap) : RaidzMap :=
  let devidx := (rm.rmCol 0).rcDevidx
  let o := (rm.rmCol 0).rcOffset
  { rm with
    rmCol := fun c =>
      if c = 0 then { rm.rmCol 0 with rcDevidx := (rm.rmCol 1).rcDevidx, rcOffset := (rm.rmCol 1).rcOffset }
      else if c = 1 then { rm.rmCol 1 with rcDevidx := devidx, rcOffset := o }
      else rm.rmCol c
    rmSkipstart := if rm.rmSkipstart = 0 then 1 else rm.rmSkipstart }

def vdevRaidzMapAlloc (abd : Abd) (size offset unitShift dcols nparity : Nat) (uninit : Nat → Nat → Byte) :
    Except Fault RaidzMap := do
  -- The starting RAIDZ (parent) vdev sector of the block.
  let b := offset >>> unitShift
  -- The zio's size in units of the vdev's minimum sector size.
  let s := size >>> unitShift
  -- The first column for this stripe.
  let f := b % dcols
  -- The starting byte offset on each child vdev.
  let o := (b / dcols) <<< unitShift
  let q := s / (dcols - nparity)
  let r := s - q * (dcols - nparity)
  let bc := if r = 0 then 0 else r + nparity
  let tot := s + nparity * (q + if r = 0 then 0 else 1)
  -- acols: the columns that will be accessed; scols: accessed or skipped
  let acols := if q = 0 then bc else dcols
  let scols := if q = 0 then min dcols (roundup bc (nparity + 1)) else dcols
  ASSERT (acols ≤ scols)
  let rcSize := raidzColSize q bc acols unitShift
  let asize := forRange 0 scols (fun c asize => asize + rcSize c) 0
  ASSERT (asize = tot <<< unitShift)
  let rmAsize := roundup asize ((nparity + 1) <<< unitShift)
  let nskip := roundup tot (nparity + 1) - tot
  ASSERT (rmAsize - asize = nskip <<< unitShift)
  ASSERT (nskip ≤ nparity)
  let rmCol (c : Nat) : RaidzCol :=
    let col := f + c
    { rcDevidx := if col ≥ dcols then col - dcols else col
      rcOffset := if col ≥ dcols then o + 1 <<< unitShift else o
      rcSize := rcSize c
      -- the data columns follow each other in the buffer of the zio
      rcAbd := if c < nparity then abdAllocLinear (uninit c)
        else abdGetOffset abd (forRange nparity c (fun c off => off + rcSize c) 0)
      rcError := 0 }
  ASSERT (acols ≥ 2)
  ASSERT (rcSize 0 = rcSize 1)
  let rm : RaidzMap := ⟨acols, scols, bc, rmAsize, nparity, nskip, bc, rmCol⟩
  .ok (if rm.rmFirstdatacol = 1 ∧ offset &&& (1 <<< 20) ≠ 0 then raidzSwitchParity rm else rm)

/-! ## Well-formed maps -/

/-- What parity and reconstruction rely on in a map. -/
structure RaidzMap.Layout (rm : RaidzMap) : Prop where
  parity_pos : 0 < rm.rmFirstdatacol
  parity_le : rm.rmFirstdatacol ≤ vdevRaidzMaxparity
  lt : rm.rmFirstdatacol < rm.rmCols
  cols_le : rm.rmCols ≤ 255
  size_pos : ∀ c < rm.rmCols, 0 < (rm.rmCol c).rcSize
  size_anti : ∀ c d, c ≤ d → d < rm.rmCols → (rm.rmCol d).rcSize ≤ (rm.rmCol c).rcSize
  /-- The first data column is as long as the parity. -/
  size_parity : ∀ c ≤ rm.rmFirstdatacol, (rm.rmCol c).rcSize = (rm.rmCol 0).rcSize
  size_dvd : ∀ c, 8 ∣ (rm.rmCol c).rcSize

variable {y : Nat}

lemma le_roundup (x : Nat) (hy : 0 < y) : x ≤ roundup x y := by
  have h := div_add_mod (x + (y - 1)) y
  have hlt := mod_lt (x + (y - 1)) hy
  unfold roundup
  rw [mul_comm]
  omega

lemma roundup_lt (x : Nat) (hy : 0 < y) : roundup x y < x + y := by
  have h := div_mul_le_self (x + (y - 1)) y
  unfold roundup
  omega

lemma roundup_mul (x : Nat) {k : Nat} (hy : 0 < y) (hk : 0 < k) : roundup (x * k) (y * k) = roundup x y * k := by
  have hsplit : x * k + (y * k - 1) = (x + (y - 1)) * k + (k - 1) := by
    obtain ⟨y, rfl⟩ := Nat.exists_eq_add_of_le' hy
    rw [Nat.add_sub_cancel, Nat.add_mul, Nat.add_mul, Nat.one_mul]
    omega
  have hdiv : ((x + (y - 1)) * k + (k - 1)) / k = x + (y - 1) := by
    rw [Nat.mul_comm, Nat.mul_add_div hk, Nat.div_eq_of_lt (Nat.sub_lt hk Nat.one_pos), Nat.add_zero]
  unfold roundup
  rw [hsplit, Nat.mul_comm y k, ← Nat.div_div_eq_div_mul, hdiv, Nat.mul_comm k y, Nat.mul_assoc]

/-- The parameters of a RAID-Z vdev and of an I/O to it. -/
structure RaidzIo (size unitShift dcols nparity : Nat) : Prop where
  parity_pos : 0 < nparity
  parity_le : nparity ≤ vdevRaidzMaxparity
  lt : nparity < dcols
  dcols_le : dcols ≤ 255
  /-- `SPA_MINBLOCKSHIFT`. -/
  shift : 9 ≤ unitShift
  sector : 0 < size >>> unitShift

/-- Two maps with columns of the same sizes. -/
structure RaidzMap.SameShape (rm rm' : RaidzMap) : Prop where
  cols : rm'.rmCols = rm.rmCols
  firstdatacol : rm'.rmFirstdatacol = rm.rmFirstdatacol
  size : ∀ c, (rm'.rmCol c).rcSize = (rm.rmCol c).rcSize

variable {rm' : RaidzMap}

lemma RaidzMap.Layout.of_sameShape {rm : RaidzMap} (h : rm.Layout) (hs : rm.SameShape rm') : rm'.Layout := by
  obtain ⟨hcols, hfirst, hsize⟩ := hs
  obtain ⟨h1, h2, h3, h4, h5, h6, h7, h8⟩ := h
  constructor <;> simp only [hcols, hfirst, hsize] <;> assumption

/-- The same columns, but for where they lie on the children. -/
structure RaidzMap.SameColumns (rm rm' : RaidzMap) : Prop extends rm.SameShape rm' where
  abd : ∀ c, (rm'.rmCol c).rcAbd = (rm.rmCol c).rcAbd
  error : ∀ c, (rm'.rmCol c).rcError = (rm.rmCol c).rcError

lemma raidzSwitchParity_same (rm : RaidzMap) : rm.SameColumns (raidzSwitchParity rm) := by
  have hcol : ∀ c, ((raidzSwitchParity rm).rmCol c).rcSize = (rm.rmCol c).rcSize ∧
      ((raidzSwitchParity rm).rmCol c).rcAbd = (rm.rmCol c).rcAbd ∧
      ((raidzSwitchParity rm).rmCol c).rcError = (rm.rmCol c).rcError := by
    intro c
    dsimp only [raidzSwitchParity]
    split_ifs with h0 h1
    · rw [h0]; exact ⟨rfl, rfl, rfl⟩
    · rw [h1]; exact ⟨rfl, rfl, rfl⟩
    · exact ⟨rfl, rfl, rfl⟩
  exact ⟨⟨rfl, rfl, fun c => (hcol c).1⟩, fun c => (hcol c).2.1, fun c => (hcol c).2.2⟩

section
variable {q r bc acols u : Nat}

lemma sum_rcSize (hbc : bc ≤ acols) (m : Nat) : forRange 0 m (fun c asize => asize + raidzColSize q bc acols u c) 0 =
      (min m acols * q + min m bc) <<< u := by
  apply forRange_rule (fun i asize => asize = (min i acols * q + min i bc) <<< u) (zero_le m)
  · simp
  · rintro i asize - - rfl
    simp only [raidzColSize, shiftLeft_eq]
    split_ifs with h1 h2
    · rw [min_eq_right h1, min_eq_right (by omega), min_eq_right (by omega), min_eq_right (by omega), add_zero]
    · rw [min_eq_left (by omega), min_eq_left (by omega), min_eq_left (by omega), min_eq_left (by omega), ← add_mul]
      ring
    · rw [min_eq_left (by omega), min_eq_right (by omega), min_eq_left (by omega), min_eq_right (by omega), ← add_mul]
      ring

variable {dcols nparity : Nat}

/-- The counts that `vdev_raidz_map_alloc` derives from the size. -/
lemma raidz_geometry {s scols tot : Nat} (hs : 0 < s) (hlt : nparity < dcols)
    (hq : q = s / (dcols - nparity)) (hr : r = s - q * (dcols - nparity))
    (hbc : bc = if r = 0 then 0 else r + nparity) (htot : tot = s + nparity * (q + if r = 0 then 0 else 1))
    (hacols : acols = if q = 0 then bc else dcols)
    (hscols : scols = if q = 0 then min dcols (roundup bc (nparity + 1)) else dcols) :
    nparity < acols ∧ acols ≤ scols ∧ acols ≤ dcols ∧ bc ≤ acols ∧ (bc = 0 ∨ nparity < bc) ∧
      (bc < acols → 0 < q) ∧ acols * q + bc = tot := by
  have hdp : 0 < dcols - nparity := Nat.sub_pos_of_lt hlt
  have hsplit : s = q * (dcols - nparity) + r := by
    have := Nat.div_mul_le_self s (dcols - nparity)
    rw [← hq] at this
    omega
  have hrlt : r < dcols - nparity := by
    have h1 := Nat.div_add_mod' s (dcols - nparity)
    have h2 := Nat.mod_lt s hdp
    rw [← hq] at h1
    omega
  have hround := le_roundup bc (Nat.succ_pos nparity)
  by_cases hq0 : q = 0
  · rw [if_pos hq0] at hacols hscols
    have hr0 : r ≠ 0 := by
      rw [hq0, Nat.zero_mul] at hsplit
      omega
    rw [if_neg hr0] at hbc htot
    rw [hq0, Nat.zero_mul] at hsplit
    rw [hq0] at htot
    subst hacols
    refine ⟨by omega, ?_, by omega, le_rfl, by omega, by omega, by rw [hq0]; omega⟩
    rw [hscols]
    exact le_min (by omega) hround
  · rw [if_neg hq0] at hacols hscols
    have hdq : dcols * q = q * (dcols - nparity) + nparity * q := by
      rw [Nat.mul_comm q, ← Nat.add_mul, Nat.sub_add_cancel hlt.le]
    subst hacols hscols
    by_cases hr0 : r = 0
    · rw [if_pos hr0] at hbc htot
      rw [Nat.add_zero] at htot
      exact ⟨hlt, le_rfl, le_rfl, by omega, .inl hbc, by omega, by omega⟩
    · rw [if_neg hr0] at hbc htot
      refine ⟨hlt, le_rfl, le_rfl, by omega, by omega, by omega, ?_⟩
      rw [htot, hdq, hbc, Nat.mul_add]
      omega

lemma raidzColSize_parity {c : Nat} (hpa : nparity < acols) (hbp : bc = 0 ∨ nparity < bc)
    (hc : c ≤ nparity) : raidzColSize q bc acols u c = raidzColSize q bc acols u 0 := by
  have h1 : ¬ c ≥ acols := by omega
  have h2 : ¬ 0 ≥ acols := by omega
  simp only [raidzColSize, if_neg h1, if_neg h2]
  rcases hbp with rfl | h0
  · rfl
  · rw [if_pos (by omega : c < bc), if_pos (by omega : 0 < bc)]

lemma layout_of_rcSize (hp0 : 0 < nparity) (hp3 : nparity ≤ vdevRaidzMaxparity)
    (hpa : nparity < acols) (had : acols ≤ 255) (hbp : bc = 0 ∨ nparity < bc) (hq0 : bc < acols → 0 < q)
    (hu : 3 ≤ u) (hcols : rm'.rmCols = acols) (hfirst : rm'.rmFirstdatacol = nparity)
    (hsize' : ∀ c, (rm'.rmCol c).rcSize = raidzColSize q bc acols u c) : rm'.Layout := by
  refine ⟨?_, ?_, ?_, ?_, ?_, ?_, ?_, ?_⟩
  · rwa [hfirst]
  · rwa [hfirst]
  · rwa [hfirst, hcols]
  · rw [hcols]
    exact had
  · intro c hc
    rw [hcols] at hc
    rw [hsize', raidzColSize, if_neg (by omega)]
    split_ifs with hb
    · exact pos_of_ne_zero (by rw [shiftLeft_eq]; positivity)
    · have := hq0 (by omega)
      exact pos_of_ne_zero (by rw [shiftLeft_eq]; positivity)
  · intro c d hcd hdc
    rw [hcols] at hdc
    have h1 : ¬ c ≥ acols := by omega
    have h2 : ¬ d ≥ acols := by omega
    simp only [hsize', raidzColSize, if_neg h1, if_neg h2, shiftLeft_eq]
    split_ifs
    · exact le_rfl
    · omega
    · exact mul_le_mul_right _ (le_succ q)
    · exact le_rfl
  · intro c hc
    rw [hfirst] at hc
    rw [hsize', hsize', raidzColSize_parity hpa hbp hc]
  · intro c
    have h8 : 8 ∣ 2 ^ u := pow_dvd_pow 2 hu
    rw [hsize', raidzColSize, shiftLeft_eq, shiftLeft_eq]
    split_ifs
    · exact dvd_zero 8
    · exact dvd_trans h8 (dvd_mul_left _ _)
    · exact dvd_trans h8 (dvd_mul_left _ _)

/-- The numbers behind the columns of an I/O of `s` sectors. -/
structure RaidzGeometry (s dcols nparity q bc acols tot : Nat) : Prop where
  parity_lt : nparity < acols
  acols_le : acols ≤ dcols
  bc_le : bc ≤ acols
  bc_parity : bc = 0 ∨ nparity < bc
  q_pos : bc < acols → 0 < q
  sum : acols * q + bc = tot
  /-- An I/O of less than a row uses its big columns only. -/
  acols_eq : acols = if q = 0 then bc else dcols
  data : tot = s + (nparity * q + min nparity bc)
  tot_eq : tot = s + nparity * ((s + dcols - nparity - 1) / (dcols - nparity))

variable {size unitShift : Nat}

/-- **`vdev_raidz_map_alloc`** passes its assertions. -/
theorem vdevRaidzMapAlloc_eq (hp0 : 0 < nparity) (hlt : nparity < dcols) (hs : 0 < size >>> unitShift)
    (abd : Abd) (offset : Nat) (uninit : Nat → Nat → Byte) :
    ∃ q bc acols tot rm, RaidzGeometry (size >>> unitShift) dcols nparity q bc acols tot ∧
      vdevRaidzMapAlloc abd size offset unitShift dcols nparity uninit =
        .ok (if nparity = 1 ∧ offset &&& (1 <<< 20) ≠ 0 then raidzSwitchParity rm else rm) ∧
      rm.rmCols = acols ∧ rm.rmFirstdatacol = nparity ∧ rm.rmScols ≤ dcols ∧ acols ≤ rm.rmScols ∧
      rm.rmAsize = roundup tot (nparity + 1) <<< unitShift ∧
      (∀ c, (rm.rmCol c).rcSize = raidzColSize q bc acols unitShift c) ∧
      (∀ c, (rm.rmCol c).rcDevidx = if offset >>> unitShift % dcols + c ≥ dcols then offset >>> unitShift % dcols + c - dcols
        else offset >>> unitShift % dcols + c) ∧
      (∀ c, (rm.rmCol c).rcOffset = if offset >>> unitShift % dcols + c ≥ dcols then
        (offset >>> unitShift / dcols) <<< unitShift + 1 <<< unitShift else (offset >>> unitShift / dcols) <<< unitShift) ∧
      (∀ c, (rm.rmCol c).rcError = 0) ∧
      ∀ c, nparity ≤ c → (rm.rmCol c).rcAbd =
        abdGetOffset abd (forRange nparity c (fun c off => off + raidzColSize q bc acols unitShift c) 0) := by
  unfold vdevRaidzMapAlloc
  dsimp only
  generalize size >>> unitShift = s at hs
  generalize hq : s / (dcols - nparity) = q
  generalize hr : s - q * (dcols - nparity) = r
  generalize hbc : (if r = 0 then 0 else r + nparity) = bc
  generalize htot : s + nparity * (q + if r = 0 then 0 else 1) = tot
  generalize hacols : (if q = 0 then bc else dcols) = acols
  generalize hscols : (if q = 0 then min dcols (roundup bc (nparity + 1)) else dcols) = scols
  obtain ⟨hpa, has, had, hba, hbp, hq0, hsum⟩ :=
    raidz_geometry hs hlt hq.symm hr.symm hbc.symm htot.symm hacols.symm hscols.symm
  have hceil : q + (if r = 0 then 0 else 1) = (s + dcols - nparity - 1) / (dcols - nparity) := by
    have hdp : 0 < dcols - nparity := Nat.sub_pos_of_lt hlt
    have h1 := Nat.div_add_mod' s (dcols - nparity)
    have h2 := Nat.mod_lt s hdp
    rw [hq] at h1
    rw [eq_comm, Nat.div_eq_iff hdp]
    split_ifs with h0
    · rw [Nat.add_zero]
      omega
    · rw [Nat.add_mul, Nat.one_mul]
      omega
  have hdata : tot = s + (nparity * q + min nparity bc) := by
    rw [← htot, ← hbc, Nat.mul_add]
    split_ifs
    · rw [Nat.mul_zero, Nat.min_zero]
    · rw [Nat.mul_one, Nat.min_eq_left (Nat.le_add_left ..)]
  have hasize : forRange 0 scols (fun c asize => asize + raidzColSize q bc acols unitShift c) 0 = tot <<< unitShift := by
    rw [sum_rcSize hba, Nat.min_eq_right has, Nat.min_eq_right (hba.trans has), hsum]
  have hround : roundup (tot <<< unitShift) ((nparity + 1) <<< unitShift) = roundup tot (nparity + 1) <<< unitShift := by
    rw [Nat.shiftLeft_eq, Nat.shiftLeft_eq, Nat.shiftLeft_eq, roundup_mul _ (Nat.succ_pos _) (Nat.two_pow_pos _)]
  have hskip : roundup (tot <<< unitShift) ((nparity + 1) <<< unitShift) - tot <<< unitShift =
      (roundup tot (nparity + 1) - tot) <<< unitShift := by
    rw [hround, Nat.shiftLeft_eq, Nat.shiftLeft_eq, Nat.shiftLeft_eq, Nat.sub_mul]
  have hskip_le : roundup tot (nparity + 1) - tot ≤ nparity := by
    have := roundup_lt tot (y := nparity + 1) (Nat.succ_pos _)
    omega
  have hsd : scols ≤ dcols := by
    rw [← hscols]
    split_ifs
    · exact Nat.min_le_left ..
    · exact Nat.le_refl _
  rw [ASSERT_bind has, hasize, ASSERT_bind rfl, ASSERT_bind hskip, ASSERT_bind hskip_le,
    ASSERT_bind (by omega), ASSERT_bind (raidzColSize_parity hpa hbp hp0).symm]
  refine ⟨q, bc, acols, tot, _, ⟨hpa, had, hba, hbp, hq0, hsum, hacols.symm, hdata, ?_⟩, rfl, rfl, rfl, hsd, has, hround, fun _ => rfl,
    fun _ => rfl, fun _ => rfl, fun _ => rfl, fun c hc => if_neg (by omega)⟩
  rw [← htot, hceil]

/-- The map has the data in the data columns one after the other. -/
lemma vdevRaidzMapAlloc_spec (hio : RaidzIo size unitShift dcols nparity)
    (abd : Abd) (offset : Nat) (uninit : Nat → Nat → Byte) :
    ∃ rm, vdevRaidzMapAlloc abd size offset unitShift dcols nparity uninit = .ok rm ∧ rm.Layout ∧
      rm.rmFirstdatacol = nparity ∧ (∀ c, (rm.rmCol c).rcError = 0) ∧
      ∀ c, nparity ≤ c → (rm.rmCol c).rcAbd =
        abdGetOffset abd (forRange nparity c (fun c off => off + (rm.rmCol c).rcSize) 0) := by
  obtain ⟨hp0, hp3, hlt, hd, hu, hs⟩ := hio
  obtain ⟨q, bc, acols, tot, rm, hg, heq, hcols, hfirst, -, -, -, hsize, -, -, herror, habd⟩ :=
    vdevRaidzMapAlloc_eq hp0 hlt hs abd offset uninit
  have hlayout : rm.Layout :=
    layout_of_rcSize hp0 hp3 hg.parity_lt (hg.acols_le.trans hd) hg.bc_parity hg.q_pos (by omega) hcols hfirst hsize
  refine ⟨_, heq, ?_⟩
  -- the switch of the parity changes neither sizes nor buffers
  split_ifs
  · have h := raidzSwitchParity_same rm
    refine ⟨hlayout.of_sameShape h.toSameShape, h.firstdatacol.trans hfirst, fun c => (h.error c).trans (herror c), fun c hc => ?_⟩
    simp only [h.size, h.abd, hsize]
    exact habd c hc
  · refine ⟨hlayout, hfirst, herror, fun c hc => ?_⟩
    simp only [hsize]
    exact habd c hc

end

end Unleashed.Zfs
