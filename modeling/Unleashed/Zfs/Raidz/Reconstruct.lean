import Unleashed.Zfs.Raidz.Parity

/-!
# Reconstruction from P, from Q, and from both

One lost data column is the sum of P and the others, or what Q has more than them divided by its coefficient. Two
solve the equations of P and Q: the lost ones are made to look empty.
-/

namespace Unleashed.Zfs

open Unleashed.Lib Function Finset CharTwo

/-- The map with another size for column `c`. -/
def RaidzMap.setSize (rm : RaidzMap) (c size : Nat) : RaidzMap :=
  { rm with rmCol := Function.update rm.rmCol c { rm.rmCol c with rcSize := size } }

/-- `abd_iterate_func` with a function that works on words. -/
def abdIterateWords (off size : Nat) (func : Nat → Abd → Abd) (abd : Abd) : Abd :=
  forRange (off / 8) (off / 8 + size / 8) func abd

def vdevRaidzReconstPFunc (src : Abd) (size : Nat) (dst : Abd) : Abd :=
  abdIterateWords 0 size (fun i dst => dst.setWord i (dst.word i ^^^ src.word i)) dst

def vdevRaidzReconstQPreFunc (src : Abd) (size : Nat) (dst : Abd) : Abd :=
  abdIterateWords 0 size (fun i dst => dst.setWord i (vdevRaidz64Mul2 (dst.word i) ^^^ src.word i)) dst

def vdevRaidzReconstQPreTailFunc (off size : Nat) (dst : Abd) : Abd :=
  abdIterateWords off size (fun i dst => dst.setWord i (vdevRaidz64Mul2 (dst.word i))) dst

def vdevRaidzReconstQPostFunc (q : Abd) (exp size : Nat) (dst : Abd) : Abd :=
  abdIterateWords 0 size (fun i dst =>
    let w := dst.word i ^^^ q.word i
    dst.setWord i (ofLanes fun j => vdevRaidzExp2 (lane w j) exp)) dst

def vdevRaidzReconstructP (rm : RaidzMap) (tgts : List Nat) (ntgts : Nat) : Except Fault (RaidzMap × Nat) := do
  let x := tgts.getD 0 0
  ASSERT (ntgts = 1)
  ASSERT (x ≥ rm.rmFirstdatacol)
  ASSERT (x < rm.rmCols)
  ASSERT ((rm.rmCol x).rcSize ≤ (rm.rmCol vdevRaidzP).rcSize)
  ASSERT ((rm.rmCol x).rcSize > 0)
  let dst := abdCopy (rm.rmCol x).rcAbd (rm.rmCol vdevRaidzP).rcAbd (rm.rmCol x).rcSize
  let dst := forRange rm.rmFirstdatacol rm.rmCols (fun c dst =>
    let size := min (rm.rmCol x).rcSize (rm.rmCol c).rcSize
    if c = x then dst else vdevRaidzReconstPFunc (rm.rmCol c).rcAbd size dst) dst
  .ok (rm.setAbd x dst, 1 <<< vdevRaidzP)

/-- The loop body of `vdev_raidz_reconstruct_q`. -/
def reconstructColumnQ (rm : RaidzMap) (x c : Nat) (dst : Abd) : Except Fault Abd := do
  let size := if c = x then 0 else min (rm.rmCol x).rcSize (rm.rmCol c).rcSize
  let src := (rm.rmCol c).rcAbd
  if c = rm.rmFirstdatacol then
    let dst := abdCopy dst src size
    if (rm.rmCol x).rcSize > size then .ok (abdZeroOff dst size ((rm.rmCol x).rcSize - size)) else .ok dst
  else
    ASSERT (size ≤ (rm.rmCol x).rcSize)
    let dst := vdevRaidzReconstQPreFunc src size dst
    .ok (vdevRaidzReconstQPreTailFunc size ((rm.rmCol x).rcSize - size) dst)

def vdevRaidzReconstructQ (rm : RaidzMap) (tgts : List Nat) (ntgts : Nat) : Except Fault (RaidzMap × Nat) := do
  let x := tgts.getD 0 0
  ASSERT (ntgts = 1)
  ASSERT ((rm.rmCol x).rcSize ≤ (rm.rmCol vdevRaidzQ).rcSize)
  let dst ← forRangeM rm.rmFirstdatacol rm.rmCols (reconstructColumnQ rm x) (rm.rmCol x).rcAbd
  let exp := 255 - (rm.rmCols - 1 - x)
  let dst := vdevRaidzReconstQPostFunc (rm.rmCol vdevRaidzQ).rcAbd exp (rm.rmCol x).rcSize dst
  .ok (rm.setAbd x dst, 1 <<< vdevRaidzQ)

/-- What `vdev_raidz_reconst_pq_func` and `vdev_raidz_reconst_pq_tail_func` write to column `x`. -/
def reconstPqByte (p q pxy qxy : Abd) (aexp bexp i : Nat) : Byte :=
  vdevRaidzExp2 (p.buf i ^^^ pxy.buf i) aexp ^^^ vdevRaidzExp2 (q.buf i ^^^ qxy.buf i) bexp

/-- The loops of `vdev_raidz_reconst_pq_func` and, past column `y`, `vdev_raidz_reconst_pq_tail_func`. -/
def reconstPqLoop (p q pxy qxy : Abd) (aexp bexp xsize ysize : Nat) (xyd : Abd × Abd) : Abd × Abd :=
  let xyd := forRange 0 ysize (fun i (xyd : Abd × Abd) =>
    let xb := reconstPqByte p q pxy qxy aexp bexp i
    (xyd.1.setByte i xb, xyd.2.setByte i (p.buf i ^^^ pxy.buf i ^^^ xb))) xyd
  (forRange ysize xsize (fun i xd => xd.setByte i (reconstPqByte p q pxy qxy aexp bexp i)) xyd.1, xyd.2)

def vdevRaidzReconstructPq (rm : RaidzMap) (tgts : List Nat) (ntgts : Nat) (uninit : Nat → Nat → Byte) :
    Except Fault (RaidzMap × Nat) := do
  let x := tgts.getD 0 0
  let y := tgts.getD 1 0
  ASSERT (ntgts = 2)
  ASSERT (x < y)
  ASSERT (x ≥ rm.rmFirstdatacol)
  ASSERT (y < rm.rmCols)
  ASSERT ((rm.rmCol x).rcSize ≥ (rm.rmCol y).rcSize)
  -- Move the parity data aside, and make the columns appear to be full of zeros.
  let p := (rm.rmCol vdevRaidzP).rcAbd
  let q := (rm.rmCol vdevRaidzQ).rcAbd
  let xsize := (rm.rmCol x).rcSize
  let ysize := (rm.rmCol y).rcSize
  let rm := rm.setAbd vdevRaidzP (abdAllocLinear (uninit 0))
  let rm := rm.setAbd vdevRaidzQ (abdAllocLinear (uninit 1))
  let rm := (rm.setSize x 0).setSize y 0
  let rm ← vdevRaidzGenerateParityPq rm
  let rm := (rm.setSize x xsize).setSize y ysize
  let pxy := (rm.rmCol vdevRaidzP).rcAbd
  let qxy := (rm.rmCol vdevRaidzQ).rcAbd
  let a := vdevRaidzPow2 (255 + x - y)
  let b := vdevRaidzPow2 (255 - (rm.rmCols - 1 - x))
  let tmp := 255 - vdevRaidzLog2 (a ^^^ 1)
  let aexp := vdevRaidzLog2 (vdevRaidzExp2 a tmp)
  let bexp := vdevRaidzLog2 (vdevRaidzExp2 b tmp)
  ASSERT (xsize ≥ ysize)
  let xyd := reconstPqLoop p q pxy qxy aexp bexp xsize ysize ((rm.rmCol x).rcAbd, (rm.rmCol y).rcAbd)
  let rm := (rm.setAbd x xyd.1).setAbd y xyd.2
  -- Restore the saved parity data.
  let rm := (rm.setAbd vdevRaidzP p).setAbd vdevRaidzQ q
  .ok (rm, 1 <<< vdevRaidzP ||| 1 <<< vdevRaidzQ)

/-! ## What a damaged map has left -/

/-- An encoded map of which some columns are lost. -/
structure RaidzMap.Damaged (rm0 rm : RaidzMap) (lost : Nat → Prop) : Prop where
  layout : rm0.Layout
  encoded : rm0.Encoded
  shape : rm0.SameShape rm
  survives : ∀ c < rm.rmCols, ¬ lost c → ∀ k < (rm.rmCol c).rcSize, (rm.rmCol c).rcAbd.buf k = (rm0.rmCol c).rcAbd.buf k

/-- The map with other sizes. -/
def RaidzMap.withSizes (rm : RaidzMap) (f : Nat → Nat) : RaidzMap :=
  { rm with rmCol := fun c => { rm.rmCol c with rcSize := f c } }

section
variable {rm0 rm : RaidzMap} {lost : Nat → Prop}

lemma RaidzMap.Damaged.layout' (h : rm0.Damaged rm lost) : rm.Layout := h.layout.of_sameShape h.shape

variable {c : Nat}

lemma RaidzMap.Damaged.datum_eq (h : rm0.Damaged rm lost) (hc : c < rm.rmCols) (hl : ¬ lost c)
    (k : Nat) : rm.datum c k = rm0.datum c k := by
  unfold datum
  rw [← h.shape.size]
  split_ifs with hk
  · rw [h.survives c hc hl k hk]
  · rfl

variable {k : Nat}

/-- A surviving parity column is the parity of the data before the loss. -/
lemma RaidzMap.Damaged.parity_eq (h : rm0.Damaged rm lost) {e : Nat} (he : e < rm.rmFirstdatacol) (hl : ¬ lost e) (hk : k < (rm.rmCol 0).rcSize) :
    gf ((rm.rmCol e).rcAbd.buf k) = rm0.parity (gfTwo ^ e) rm0.rmCols k := by
  have hl' := h.layout'
  rw [h.survives e (he.trans hl'.lt) hl k (by rwa [hl'.size_parity e he.le])]
  apply h.encoded e
  · rwa [← h.shape.firstdatacol]
  · rwa [← h.shape.size]

variable {x : Nat}

/-- The parity is the share of column `x` and the parity of a map without it. -/
lemma RaidzMap.parity_split {rm1 rm2 : RaidzMap} {i : Nat} (hf : rm2.rmFirstdatacol = rm1.rmFirstdatacol)
    (hx : rm1.rmFirstdatacol ≤ x) (hxi : x < i) (hempty : rm2.datum x k = 0)
    (hother : ∀ c, rm1.rmFirstdatacol ≤ c → c < i → c ≠ x → rm2.datum c k = rm1.datum c k) (z : Gf) :
    rm1.parity z i k = z ^ (i - 1 - x) * rm1.datum x k + rm2.parity z i k := by
  have hmem : x ∈ Finset.Ico rm1.rmFirstdatacol i := mem_Ico.2 ⟨hx, hxi⟩
  unfold parity
  rw [hf, ← add_sum_erase _ _ hmem, ← add_sum_erase _ _ hmem, hempty, mul_zero, zero_add]
  congr 1
  apply sum_congr rfl
  intro c hc
  obtain ⟨hne, hc⟩ := mem_erase.1 hc
  obtain ⟨h1, h2⟩ := mem_Ico.1 hc
  rw [hother c h1 h2 hne]

/-- The other columns as far as column `x` goes. -/
def RaidzMap.short (rm : RaidzMap) (x : Nat) : RaidzMap :=
  rm.withSizes fun c => if c = x then 0 else min (rm.rmCol x).rcSize (rm.rmCol c).rcSize

lemma RaidzMap.datum_short_self (rm : RaidzMap) (x k : Nat) : (rm.short x).datum x k = 0 := by
  simp [datum, short, withSizes]

lemma RaidzMap.datum_short (hk : k < (rm.rmCol x).rcSize) (hc : c ≠ x) : (rm.short x).datum c k = rm.datum c k := by
  simp [datum, short, withSizes, hc, hk]

lemma RaidzMap.size_short_dvd (hdvd : ∀ c, 8 ∣ (rm.rmCol c).rcSize) (x c : Nat) : 8 ∣ ((rm.short x).rmCol c).rcSize := by
  have h1 := hdvd x
  have h2 := hdvd c
  dsimp only [short, withSizes]
  split_ifs
  · exact Nat.dvd_zero 8
  · rcases Nat.le_total (rm.rmCol x).rcSize (rm.rmCol c).rcSize with h | h
    · rwa [min_eq_left h]
    · rwa [min_eq_right h]

/-- The parity before the loss is the share of `x` and that of the others. -/
lemma RaidzMap.Damaged.parity_short (h : rm0.Damaged rm lost) (hx : rm.rmFirstdatacol ≤ x)
    (hxc : x < rm.rmCols) (hk : k < (rm.rmCol x).rcSize)
    (hother : ∀ c, rm.rmFirstdatacol ≤ c → c < rm.rmCols → c ≠ x → ¬ lost c) (z : Gf) : rm0.parity z rm0.rmCols k =
      z ^ (rm.rmCols - 1 - x) * gf ((rm0.rmCol x).rcAbd.buf k) + (rm.short x).parity z rm.rmCols k := by
  have hfirst : (rm.short x).rmFirstdatacol = rm0.rmFirstdatacol := h.shape.firstdatacol
  have hx' : rm0.rmFirstdatacol ≤ x := h.shape.firstdatacol ▸ hx
  have hdatum : rm0.datum x k = gf ((rm0.rmCol x).rcAbd.buf k) := if_pos (by rwa [← h.shape.size])
  rw [← hdatum, ← h.shape.cols]
  refine parity_split hfirst hx' hxc (rm.datum_short_self x k) ?_ z
  intro c h1 h2 hne
  rw [datum_short hk hne, h.datum_eq h2 (hother c (h.shape.firstdatacol ▸ h1) h2 hne)]

lemma vdevRaidzReconstPFunc_eq (src : Abd) (size : Nat) (dst : Abd) :
    vdevRaidzReconstPFunc src size dst = vdevRaidzPFunc src size dst := by
  rw [vdevRaidzReconstPFunc, abdIterateWords, Nat.zero_div, zero_add, vdevRaidzPFunc]

variable {tgts : List Nat}

/-- **`vdev_raidz_reconstruct_p`** restores the one lost data column. -/
theorem vdevRaidzReconstructP_spec (hl : rm.Layout)
    (htgts : tgts.getD 0 0 = x) (hx : rm.rmFirstdatacol ≤ x) (hxc : x < rm.rmCols) :
    ∃ dst, vdevRaidzReconstructP rm tgts 1 = .ok (rm.setAbd x dst, 1 <<< vdevRaidzP) ∧
      ∀ (rm0 : RaidzMap) (lost : Nat → Prop), rm0.Damaged rm lost → ¬ lost vdevRaidzP →
        (∀ c, rm.rmFirstdatacol ≤ c → c < rm.rmCols → c ≠ x → ¬ lost c) →
        ∀ k < (rm.rmCol x).rcSize, dst.buf k = (rm0.rmCol x).rcAbd.buf k := by
  have hsize : (rm.rmCol x).rcSize ≤ (rm.rmCol vdevRaidzP).rcSize := hl.size_anti 0 x (Nat.zero_le x) hxc
  unfold vdevRaidzReconstructP
  rw [htgts]
  dsimp only
  rw [ASSERT_bind rfl, ASSERT_bind hx, ASSERT_bind hxc, ASSERT_bind hsize, ASSERT_bind (hl.size_pos x hxc)]
  refine ⟨_, rfl, ?_⟩
  generalize hdst : forRange _ _ _ _ = dst
  have hrun : ∀ k < (rm.rmCol x).rcSize, gf (dst.buf k) =
      gf ((rm.rmCol vdevRaidzP).rcAbd.buf k) + (rm.short x).parity 1 rm.rmCols k := by
    rw [← hdst]
    -- the sum of P and the columns before `i`
    apply forRange_rule (fun i (dst : Abd) => ∀ k < (rm.rmCol x).rcSize,
      gf (dst.buf k) = gf ((rm.rmCol vdevRaidzP).rcAbd.buf k) + (rm.short x).parity 1 i k) hl.lt.le
    · intro k hk
      have hzero : (rm.short x).parity 1 rm.rmFirstdatacol k = 0 := RaidzMap.parity_zero
      rw [hzero, add_zero]
      exact congrArg gf (if_pos hk)
    · intro c dst hc hcc ih k hk
      have hsucc : (rm.short x).parity 1 (c + 1) k = 1 * (rm.short x).parity 1 c k + (rm.short x).datum c k :=
        RaidzMap.parity_succ hc
      rw [hsucc, one_mul, ← add_assoc, ← ih k hk]
      split_ifs with hcx
      · rw [hcx, RaidzMap.datum_short_self, add_zero]
      · have hdc := hl.size_dvd c
        have hdx := hl.size_dvd x
        rw [RaidzMap.datum_short hk hcx, vdevRaidzReconstPFunc_eq, vdevRaidzPFunc_buf, RaidzMap.datum]
        split_ifs with h1 h2 h2
        · exact gf_xor _ _
        · omega
        · omega
        · exact (add_zero _).symm
  intro rm0 lost h hP hother k hk
  rw [← gf_inj, hrun k hk, h.parity_eq (e := vdevRaidzP) hl.parity_pos hP (hk.trans_le hsize), vdevRaidzP, pow_zero,
    h.parity_short hx hxc hk hother, one_pow, one_mul, add_assoc, CharTwo.add_self_eq_zero, add_zero]

variable {dst : Abd}

lemma reconstructColumnQ_holds (hdvd : ∀ c, 8 ∣ (rm.rmCol c).rcSize)
    (hc : rm.rmFirstdatacol ≤ c) (h : (rm.short x).Holds gfTwo (rm.rmCol x).rcSize c dst) :
    ∃ dst', reconstructColumnQ rm x c dst = .ok dst' ∧ (rm.short x).Holds gfTwo (rm.rmCol x).rcSize (c + 1) dst' := by
  have hshort := RaidzMap.size_short_dvd hdvd x
  have hdx := hdvd x
  have hsize : (if c = x then 0 else min (rm.rmCol x).rcSize (rm.rmCol c).rcSize) = ((rm.short x).rmCol c).rcSize := rfl
  have hle : ((rm.short x).rmCol c).rcSize ≤ (rm.rmCol x).rcSize := by
    rw [← hsize]
    split_ifs
    · exact Nat.zero_le _
    · exact Nat.min_le_left _ _
  have hdc := hshort c
  unfold reconstructColumnQ
  dsimp only
  rw [hsize]
  by_cases hfirst : c = rm.rmFirstdatacol
  · rw [if_pos hfirst]
    have hholds : ∀ dst', (∀ k < (rm.rmCol x).rcSize, dst'.buf k =
        if ((rm.short x).rmCol c).rcSize / 8 ≤ k / 8 then 0 else (rm.rmCol c).rcAbd.buf k) →
        (rm.short x).Holds gfTwo (rm.rmCol x).rcSize (c + 1) dst' := by
      intro dst' hbuf
      subst hfirst
      exact RaidzMap.holds_first (hshort _) hbuf
    split_ifs with hgt
    · refine ⟨_, rfl, hholds _ fun k hk => ?_⟩
      dsimp only [abdZeroOff, abdCopy]
      split_ifs <;> first | rfl | omega
    · refine ⟨_, rfl, hholds _ fun k hk => ?_⟩
      dsimp only [abdCopy]
      split_ifs <;> first | rfl | omega
  · rw [if_neg hfirst, ASSERT_bind hle]
    refine ⟨_, rfl, ?_⟩
    have hend : ((rm.short x).rmCol c).rcSize / 8 + ((rm.rmCol x).rcSize - ((rm.short x).rmCol c).rcSize) / 8 =
        (rm.rmCol x).rcSize / 8 := by omega
    rw [vdevRaidzReconstQPreTailFunc, vdevRaidzReconstQPreFunc, abdIterateWords, abdIterateWords, Nat.zero_div,
      Nat.zero_add, hend]
    exact holds_horner hshort hdx (lt_of_le_of_ne hc (Ne.symm hfirst)) h _ _ (fun w _ => lane_64Mul2 w) gf_mul2

lemma vdevRaidzReconstQPostFunc_buf (q dst : Abd) {exp size : Nat} (hsize : 8 ∣ size) (hk : k < size) :
    (vdevRaidzReconstQPostFunc q exp size dst).buf k = vdevRaidzExp2 (dst.buf k ^^^ q.buf k) exp := by
  have hlt := Nat.mod_lt k (by decide : 8 > 0)
  unfold vdevRaidzReconstQPostFunc abdIterateWords
  dsimp only
  rw [forRange_setWord fun i w => ofLanes fun j => vdevRaidzExp2 (lane (w ^^^ q.word i) j) exp,
    if_pos (by omega), lane_ofLanes _ hlt, lane_xor, Abd.lane_word _ _ hlt, Abd.lane_word _ _ hlt, Nat.div_add_mod]

/-- **`vdev_raidz_reconstruct_q`** restores the one lost data column. -/
theorem vdevRaidzReconstructQ_spec (hl : rm.Layout)
    (htgts : tgts.getD 0 0 = x) (hx : rm.rmFirstdatacol ≤ x) (hxc : x < rm.rmCols) (hQ1 : 1 < rm.rmFirstdatacol) :
    ∃ dst, vdevRaidzReconstructQ rm tgts 1 = .ok (rm.setAbd x dst, 1 <<< vdevRaidzQ) ∧
      ∀ (rm0 : RaidzMap) (lost : Nat → Prop), rm0.Damaged rm lost → ¬ lost vdevRaidzQ →
        (∀ c, rm.rmFirstdatacol ≤ c → c < rm.rmCols → c ≠ x → ¬ lost c) →
        ∀ k < (rm.rmCol x).rcSize, dst.buf k = (rm0.rmCol x).rcAbd.buf k := by
  have hle0 : (rm.rmCol x).rcSize ≤ (rm.rmCol 0).rcSize := hl.size_anti 0 x (Nat.zero_le x) hxc
  have hsize : (rm.rmCol x).rcSize ≤ (rm.rmCol vdevRaidzQ).rcSize := by
    rwa [hl.size_parity vdevRaidzQ hQ1.le]
  unfold vdevRaidzReconstructQ
  rw [htgts]
  dsimp only
  rw [ASSERT_bind rfl, ASSERT_bind hsize]
  obtain ⟨dst, hloop, hholds⟩ := forRangeM_rule ((rm.short x).Holds gfTwo (rm.rmCol x).rcSize)
    (s := (rm.rmCol x).rcAbd) hl.lt.le (fun hlt => absurd hlt (lt_irrefl rm.rmFirstdatacol))
    fun c dst hc _ ih => reconstructColumnQ_holds hl.size_dvd hc ih
  rw [hloop, ok_bind]
  refine ⟨_, rfl, fun rm0 lost h hQ hother k hk => ?_⟩
  have hexp : rm.rmCols - 1 - x ≤ 255 := by have := hl.cols_le; omega
  rw [vdevRaidzReconstQPostFunc_buf _ _ (hl.size_dvd x) hk, ← gf_inj, gf_exp2_compl _ hexp,
    div_eq_iff (pow_ne_zero _ gfTwo_ne_zero), gf_xor, hholds hl.lt k hk,
    h.parity_eq (e := vdevRaidzQ) hQ1 hQ (hk.trans_le hle0), vdevRaidzQ, pow_one,
    h.parity_short hx hxc hk hother, add_left_comm, CharTwo.add_self_eq_zero, add_zero, mul_comm]

/-! ## Two columns from P and Q -/

lemma forRange_setByte {lo hi : Nat} (g : Nat → Byte) (a : Abd) (k : Nat) :
    (forRange lo hi (fun i a => a.setByte i (g i)) a).buf k = if lo ≤ k ∧ k < hi then g k else a.buf k := by
  rcases Nat.le_total hi lo with h | h
  · rw [forRange_of_le h, if_neg (by omega)]
  · refine forRange_rule (fun i (a' : Abd) => ∀ k, a'.buf k = if lo ≤ k ∧ k < i then g k else a.buf k) h ?_ ?_ k
    · intro k
      rw [if_neg (by omega)]
    · intro i a' hlo hhi ih k
      by_cases hk : k = i
      · rw [hk, if_pos (by omega)]
        exact update_self i (g i) a'.buf
      · have hne : (a'.setByte i (g i)).buf k = a'.buf k := update_of_ne hk _ _
        rw [hne, ih]
        exact if_congr (by omega) rfl rfl

@[simp] lemma RaidzMap.setSize_cols (rm : RaidzMap) (c n : Nat) : (rm.setSize c n).rmCols = rm.rmCols := rfl

@[simp] lemma RaidzMap.setSize_firstdatacol (rm : RaidzMap) (c n : Nat) :
    (rm.setSize c n).rmFirstdatacol = rm.rmFirstdatacol := rfl

lemma RaidzMap.setSize_self (rm : RaidzMap) (c n : Nat) :
    (rm.setSize c n).rmCol c = { rm.rmCol c with rcSize := n } := update_self _ _ _

variable {d : Nat}

@[simp] lemma RaidzMap.setSize_ne (rm : RaidzMap) (n : Nat) (h : d ≠ c) :
    (rm.setSize c n).rmCol d = rm.rmCol d := update_of_ne h _ _

@[simp] lemma RaidzMap.setSize_abd (rm : RaidzMap) (c d n : Nat) :
    ((rm.setSize c n).rmCol d).rcAbd = (rm.rmCol d).rcAbd := by
  by_cases h : d = c
  · rw [h, setSize_self]
  · rw [setSize_ne _ _ h]

@[simp] lemma RaidzMap.setSize_error (rm : RaidzMap) (c d n : Nat) :
    ((rm.setSize c n).rmCol d).rcError = (rm.rmCol d).rcError := by
  by_cases h : d = c
  · rw [h, setSize_self]
  · rw [setSize_ne _ _ h]

@[simp] lemma RaidzMap.setSize_size (rm : RaidzMap) (c n : Nat) : ((rm.setSize c n).rmCol c).rcSize = n := by
  rw [setSize_self]

attribute [irreducible] RaidzMap.setSize

lemma RaidzMap.datum_setSize_self (rm : RaidzMap) (c k : Nat) : (rm.setSize c 0).datum c k = 0 := by
  rw [datum, setSize_size, if_neg (Nat.not_lt_zero k)]

lemma RaidzMap.datum_setSize_ne (rm : RaidzMap) (n k : Nat) (h : d ≠ c) : (rm.setSize c n).datum d k = rm.datum d k := by
  rw [datum, datum, setSize_ne _ _ h]

lemma RaidzMap.datum_setAbd_ne (rm : RaidzMap) (a : Abd) (k : Nat) (h : d ≠ c) :
    (rm.setAbd c a).datum d k = rm.datum d k := by
  rw [datum, datum, setAbd_ne _ _ h]

/-- The map whose parity is computed: the lost columns look empty. -/
def RaidzMap.blank (rm : RaidzMap) (x y : Nat) (p q : Abd) : RaidzMap :=
  (((rm.setAbd vdevRaidzP p).setAbd vdevRaidzQ q).setSize x 0).setSize y 0

variable {y : Nat}

lemma RaidzMap.Damaged.parity_blank (h : rm0.Damaged rm lost) (hx : rm.rmFirstdatacol ≤ x) (hxy : x < y)
    (hy : y < rm.rmCols) (hQ1 : 1 < rm.rmFirstdatacol)
    (hother : ∀ c, rm.rmFirstdatacol ≤ c → c < rm.rmCols → c ≠ x → c ≠ y → ¬ lost c) (p q : Abd) (z : Gf) (k : Nat) :
    rm0.parity z rm0.rmCols k = z ^ (rm.rmCols - 1 - x) * rm0.datum x k +
      (z ^ (rm.rmCols - 1 - y) * rm0.datum y k + (rm.blank x y p q).parity z rm.rmCols k) := by
  have hf := h.shape.firstdatacol
  have hf' : (rm.blank x y p q).rmFirstdatacol = (rm0.setSize x 0).rmFirstdatacol := by simpa [blank] using hf
  have hfx : (rm0.setSize x 0).rmFirstdatacol = rm0.rmFirstdatacol := setSize_firstdatacol _ _ _
  rw [← h.shape.cols, parity_split hfx (by omega) (hxy.trans hy) (rm0.datum_setSize_self x k)
    (fun c _ _ hne => rm0.datum_setSize_ne 0 k hne)]
  congr 1
  rw [parity_split (x := y) hf' (by omega) hy, rm0.datum_setSize_ne 0 k hxy.ne']
  · exact datum_setSize_self _ y k
  · intro c h1 h2 hne
    have hc : rm.rmFirstdatacol ≤ c := by rwa [hf, ← hfx]
    rw [blank, datum_setSize_ne _ _ _ hne]
    by_cases hcx : c = x
    · rw [hcx, datum_setSize_self, datum_setSize_self]
    · rw [datum_setSize_ne _ _ _ hcx, datum_setSize_ne _ _ _ hcx, datum_setAbd_ne _ _ _ (by unfold vdevRaidzQ; omega),
        datum_setAbd_ne _ _ _ (by unfold vdevRaidzP; omega), h.datum_eq h2 (hother c hc h2 hcx hne)]

/-- The two equations of P and Q, solved for the first unknown. -/
lemma solve_pq {a b α β dx dy : Gf} (h1 : a * α = β) (h2 : b * α = 1) (ha : a + 1 ≠ 0) :
    (dx + dy) * (a / (a + 1)) + (α * dx + β * dy) * (b / (a + 1)) = dx := by
  have hnum : (dx + dy) * a + (α * dx + β * dy) * b = dx * (a + 1) := by
    have htwo : (2 : Gf) = 0 := two_eq_zero
    linear_combination (dx + a * dy) * h2 - b * dy * h1 + a * dy * htwo
  rw [← mul_div_assoc, ← mul_div_assoc, ← add_div, hnum, mul_div_assoc, div_self ha, mul_one]

lemma gfTwo_pow_div {a c : Byte} (ha : gf a ≠ 0) (hc : gf c + 1 ≠ 0) :
    gfTwo ^ vdevRaidzLog2 (vdevRaidzExp2 a (255 - vdevRaidzLog2 (c ^^^ 1))) = gf a / (gf c + 1) := by
  have hc' : gf (c ^^^ 1) ≠ 0 := hc
  have hlog : gf (vdevRaidzExp2 a (255 - vdevRaidzLog2 (c ^^^ 1))) = gf a / (gf c + 1) := by
    rw [gf_exp2_compl a (vdevRaidzLog2_lt _).le, gfTwo_pow_log2 (mt gf_eq_zero.2 hc')]
    rfl
  rw [gfTwo_pow_log2, hlog]
  exact mt gf_eq_zero.2 (hlog ▸ div_ne_zero ha hc)

/-- Only the buffers of the columns `T` have changed. -/
structure RaidzMap.Rewrites (rm rm' : RaidzMap) (T : Nat → Prop) : Prop where
  shape : rm.SameShape rm'
  error : ∀ c, (rm'.rmCol c).rcError = (rm.rmCol c).rcError
  keep : ∀ c, ¬ T c → rm'.rmCol c = rm.rmCol c

lemma RaidzMap.rewrites_setAbd (rm : RaidzMap) (x : Nat) (dst : Abd) : rm.Rewrites (rm.setAbd x dst) (· = x) :=
  ⟨⟨rm.setAbd_cols x dst, rm.setAbd_firstdatacol x dst, fun c => rm.setAbd_size x c dst⟩,
    fun c => rm.setAbd_error x c dst, fun _ hc => rm.setAbd_ne dst hc⟩

/-- What a reconstruction does: the targets `T` get their data back, and nothing else changes. -/
structure RaidzMap.Restored (rm0 rm rm' : RaidzMap) (T : Nat → Prop) : Prop where
  shape : rm.SameShape rm'
  keep : ∀ c, ¬ T c → rm'.rmCol c = rm.rmCol c
  data : ∀ c, T c → ∀ k < (rm.rmCol c).rcSize, (rm'.rmCol c).rcAbd.buf k = (rm0.rmCol c).rcAbd.buf k

lemma RaidzMap.restored_setAbd (h : ∀ k < (rm.rmCol x).rcSize, dst.buf k = (rm0.rmCol x).rcAbd.buf k) :
    rm0.Restored rm (rm.setAbd x dst) (· = x) :=
  ⟨(rm.rewrites_setAbd x dst).shape, (rm.rewrites_setAbd x dst).keep, fun c hc k hk => by
    subst hc
    rw [setAbd_abd, h k hk]⟩

variable {pxy qxy : Abd}

/-- The byte of the first column, from what P and Q have more. -/
lemma gf_reconstPqByte {p q : Abd} {cols : Nat} (dx dy : Gf) (hxy : x < y) (hy : y < cols)
    (hcols : cols ≤ 255) (hp : gf (p.buf k) + gf (pxy.buf k) = dx + dy)
    (hq : gf (q.buf k) + gf (qxy.buf k) = gfTwo ^ (cols - 1 - x) * dx + gfTwo ^ (cols - 1 - y) * dy) :
    let a := vdevRaidzPow2 (255 + x - y)
    let b := vdevRaidzPow2 (255 - (cols - 1 - x))
    let tmp := 255 - vdevRaidzLog2 (a ^^^ 1)
    gf (reconstPqByte p q pxy qxy (vdevRaidzLog2 (vdevRaidzExp2 a tmp)) (vdevRaidzLog2 (vdevRaidzExp2 b tmp)) k) =
      dx := by
  intro a b tmp
  have ha : gf a = gfTwo ^ (255 + x - y) := gf_pow2 (by omega)
  have hb : gf b = gfTwo ^ (255 - (cols - 1 - x)) := gf_pow2 (Nat.sub_le _ _)
  have hne : gf a + 1 ≠ 0 := by
    intro h0
    have := gfTwo_pow_inj (i := 255 + x - y) (j := 0) (by omega) (by omega) (by
      rw [← ha, pow_zero]
      exact CharTwo.add_eq_zero.1 h0)
    omega
  have h1 : gf a * gfTwo ^ (cols - 1 - x) = gfTwo ^ (cols - 1 - y) := by
    rw [ha, ← pow_add, show 255 + x - y + (cols - 1 - x) = 255 + (cols - 1 - y) by omega, pow_add, gfTwo_pow_order, one_mul]
  have h2 : gf b * gfTwo ^ (cols - 1 - x) = 1 := by
    rw [hb, ← pow_add, Nat.sub_add_cancel (by omega), gfTwo_pow_order]
  unfold reconstPqByte
  rw [gf_xor, gf_exp2 _ (vdevRaidzLog2_lt _).le, gf_exp2 _ (vdevRaidzLog2_lt _).le, gf_xor, gf_xor, hp, hq,
    gfTwo_pow_div (ha ▸ pow_ne_zero _ gfTwo_ne_zero) hne, gfTwo_pow_div (hb ▸ pow_ne_zero _ gfTwo_ne_zero) hne,
    solve_pq h1 h2 hne]

variable {aexp bexp xsize ysize : Nat}

lemma reconstPqLoop_fst (p q pxy qxy : Abd) (xyd : Abd × Abd) (hk : k < xsize) :
    (reconstPqLoop p q pxy qxy aexp bexp xsize ysize xyd).1.buf k = reconstPqByte p q pxy qxy aexp bexp k := by
  unfold reconstPqLoop
  dsimp only
  rw [forRange_prod (fun i (xd : Abd) => xd.setByte i (reconstPqByte p q pxy qxy aexp bexp i))
    fun i (yd : Abd) => yd.setByte i (p.buf i ^^^ pxy.buf i ^^^ reconstPqByte p q pxy qxy aexp bexp i),
    forRange_setByte, forRange_setByte]
  split_ifs with h1 h2
  · rfl
  · rfl
  · omega

lemma reconstPqLoop_snd (p q pxy qxy : Abd) (xyd : Abd × Abd) (hk : k < ysize) :
    (reconstPqLoop p q pxy qxy aexp bexp xsize ysize xyd).2.buf k =
      p.buf k ^^^ pxy.buf k ^^^ reconstPqByte p q pxy qxy aexp bexp k := by
  unfold reconstPqLoop
  dsimp only
  rw [forRange_prod (fun i (xd : Abd) => xd.setByte i (reconstPqByte p q pxy qxy aexp bexp i))
    fun i (yd : Abd) => yd.setByte i (p.buf i ^^^ pxy.buf i ^^^ reconstPqByte p q pxy qxy aexp bexp i),
    forRange_setByte, if_pos ⟨Nat.zero_le k, hk⟩]

/-- The map at the end of `vdev_raidz_reconstruct_pq`, with sizes and parity put back. -/
def RaidzMap.unblank (rm : RaidzMap) (x y : Nat) (p₁ q₁ pxy qxy xd yd : Abd) : RaidzMap :=
  (((((((rm.blank x y p₁ q₁).setAbd vdevRaidzP pxy).setAbd vdevRaidzQ qxy).setSize x
    (rm.rmCol x).rcSize).setSize y (rm.rmCol y).rcSize).setAbd x xd).setAbd y yd).setAbd vdevRaidzP
    (rm.rmCol vdevRaidzP).rcAbd |>.setAbd vdevRaidzQ (rm.rmCol vdevRaidzQ).rcAbd

lemma RaidzMap.rewrites_unblank (rm : RaidzMap) (x y : Nat) (p1 q1 pxy qxy xd yd : Abd) :
    rm.Rewrites (rm.unblank x y p1 q1 pxy qxy xd yd) fun c => c = x ∨ c = y := by
  unfold unblank
  refine ⟨⟨?_, ?_, fun c => ?_⟩, fun c => ?_, fun c hc => ?_⟩
  · simp only [setAbd_cols, setSize_cols, blank]
  · simp only [setAbd_firstdatacol, setSize_firstdatacol, blank]
  · rw [setAbd_size, setAbd_size, setAbd_size, setAbd_size]
    by_cases hcy : c = y
    · rw [hcy, setSize_size]
    · rw [setSize_ne _ _ hcy]
      by_cases hcx : c = x
      · rw [hcx, setSize_size]
      · rw [setSize_ne _ _ hcx, setAbd_size, setAbd_size, blank, setSize_ne _ _ hcy, setSize_ne _ _ hcx, setAbd_size,
          setAbd_size]
  · simp only [setAbd_error, setSize_error, blank]
  · push Not at hc
    obtain ⟨hcx, hcy⟩ := hc
    -- only the buffers of P and Q were replaced, and they are back
    by_cases hcQ : c = vdevRaidzQ
    · subst hcQ
      have hQP : vdevRaidzQ ≠ vdevRaidzP := by decide
      simp only [setAbd_self, setAbd_ne _ _ hQP, setAbd_ne _ _ hcx, setAbd_ne _ _ hcy, setSize_ne _ _ hcx,
        setSize_ne _ _ hcy, blank]
    · by_cases hcP : c = vdevRaidzP
      · subst hcP
        simp only [setAbd_self, setAbd_ne _ _ hcQ, setAbd_ne _ _ hcx, setAbd_ne _ _ hcy, setSize_ne _ _ hcx,
          setSize_ne _ _ hcy, blank]
      · simp only [setAbd_ne _ _ hcQ, setAbd_ne _ _ hcP, setAbd_ne _ _ hcx, setAbd_ne _ _ hcy, setSize_ne _ _ hcx,
          setSize_ne _ _ hcy, blank]

lemma RaidzMap.restored_unblank {p1 q1 xd yd : Abd} (hxy : x ≠ y) (hxP : x ≠ vdevRaidzP)
    (hxQ : x ≠ vdevRaidzQ) (hyP : y ≠ vdevRaidzP) (hyQ : y ≠ vdevRaidzQ)
    (hxd : ∀ k < (rm.rmCol x).rcSize, xd.buf k = (rm0.rmCol x).rcAbd.buf k)
    (hyd : ∀ k < (rm.rmCol y).rcSize, yd.buf k = (rm0.rmCol y).rcAbd.buf k) :
    rm0.Restored rm (rm.unblank x y p1 q1 pxy qxy xd yd) fun c => c = x ∨ c = y := by
  have hframe := rm.rewrites_unblank x y p1 q1 pxy qxy xd yd
  refine ⟨hframe.shape, hframe.keep, fun c hc k hk => ?_⟩
  unfold unblank
  rcases hc with rfl | rfl
  · rw [setAbd_ne _ _ hxQ, setAbd_ne _ _ hxP, setAbd_ne _ _ hxy, setAbd_abd, hxd k hk]
  · rw [setAbd_ne _ _ hyQ, setAbd_ne _ _ hyP, setAbd_abd, hyd k hk]

/-- **`vdev_raidz_reconstruct_pq`** restores the two lost data columns. -/
theorem vdevRaidzReconstructPq_spec (hl : rm.Layout)
    (hx0 : tgts.getD 0 0 = x) (hy0 : tgts.getD 1 0 = y) (hx : rm.rmFirstdatacol ≤ x) (hxy : x < y)
    (hy : y < rm.rmCols) (hQ1 : 1 < rm.rmFirstdatacol) (uninit : Nat → Nat → Byte) :
    ∃ rm', vdevRaidzReconstructPq rm tgts 2 uninit = .ok (rm', 1 <<< vdevRaidzP ||| 1 <<< vdevRaidzQ) ∧
      rm.Rewrites rm' (fun c => c = x ∨ c = y) ∧
      ∀ (rm0 : RaidzMap) (lost : Nat → Prop), rm0.Damaged rm lost → ¬ lost vdevRaidzP → ¬ lost vdevRaidzQ →
        (∀ c, rm.rmFirstdatacol ≤ c → c < rm.rmCols → c ≠ x → c ≠ y → ¬ lost c) →
        rm0.Restored rm rm' fun c => c = x ∨ c = y := by
  have hsize : (rm.rmCol y).rcSize ≤ (rm.rmCol x).rcSize := hl.size_anti x y hxy.le hy
  have hx0P : x ≠ vdevRaidzP := by unfold vdevRaidzP; omega
  have hx0Q : x ≠ vdevRaidzQ := by unfold vdevRaidzQ; omega
  have hy0P : y ≠ vdevRaidzP := by unfold vdevRaidzP; omega
  have hy0Q : y ≠ vdevRaidzQ := by unfold vdevRaidzQ; omega
  unfold vdevRaidzReconstructPq
  rw [hx0, hy0]
  dsimp only
  rw [ASSERT_bind rfl, ASSERT_bind hxy, ASSERT_bind hx, ASSERT_bind hy, ASSERT_bind hsize]
  have hbl : ∀ p q, (((rm.setAbd vdevRaidzP p).setAbd vdevRaidzQ q).setSize x 0).setSize y 0 = rm.blank x y p q :=
    fun _ _ => rfl
  rw [hbl]
  generalize abdAllocLinear (uninit 0) = p1
  generalize abdAllocLinear (uninit 1) = q1
  have hblank : ∀ c, c ≠ x → c ≠ y → ((rm.blank x y p1 q1).rmCol c).rcSize = (rm.rmCol c).rcSize := by
    intro c hcx hcy
    rw [RaidzMap.blank, RaidzMap.setSize_ne _ _ hcy, RaidzMap.setSize_ne _ _ hcx, RaidzMap.setAbd_size, RaidzMap.setAbd_size]
  have hdvd : ∀ c, 8 ∣ ((rm.blank x y p1 q1).rmCol c).rcSize := by
    intro c
    by_cases hcy : c = y
    · rw [hcy, RaidzMap.blank, RaidzMap.setSize_size]
      exact Nat.dvd_zero 8
    · by_cases hcx : c = x
      · rw [hcx, RaidzMap.blank, RaidzMap.setSize_ne _ _ hxy.ne, RaidzMap.setSize_size]
        exact Nat.dvd_zero 8
      · rw [hblank c hcx hcy]
        exact hl.size_dvd c
  have hP0 : ((rm.blank x y p1 q1).rmCol vdevRaidzP).rcSize = (rm.rmCol 0).rcSize :=
    hblank vdevRaidzP hx0P.symm hy0P.symm
  have hPQ : ((rm.blank x y p1 q1).rmCol vdevRaidzP).rcSize = ((rm.blank x y p1 q1).rmCol vdevRaidzQ).rcSize := by
    rw [hP0, hblank vdevRaidzQ hx0Q.symm hy0Q.symm, hl.size_parity vdevRaidzQ hQ1.le]
  have hbcols : (rm.blank x y p1 q1).rmCols = rm.rmCols := by simp [RaidzMap.blank]
  have hlt : (rm.blank x y p1 q1).rmFirstdatacol < (rm.blank x y p1 q1).rmCols := by
    simpa [RaidzMap.blank] using hl.lt
  obtain ⟨pxy, qxy, hgen, hp, hq⟩ := vdevRaidzGenerateParityPq_spec hlt hdvd hPQ
  rw [hP0, hbcols] at hp hq
  rw [hgen, ok_bind, ASSERT_bind hsize]
  have hpxy : ((((((rm.blank x y p1 q1).setAbd vdevRaidzP pxy).setAbd vdevRaidzQ qxy).setSize x
      (rm.rmCol x).rcSize).setSize y (rm.rmCol y).rcSize).rmCol vdevRaidzP).rcAbd = pxy := by
    rw [RaidzMap.setSize_abd, RaidzMap.setSize_abd, RaidzMap.setAbd_ne _ _ (by decide), RaidzMap.setAbd_abd]
  have hqxy : ((((((rm.blank x y p1 q1).setAbd vdevRaidzP pxy).setAbd vdevRaidzQ qxy).setSize x
      (rm.rmCol x).rcSize).setSize y (rm.rmCol y).rcSize).rmCol vdevRaidzQ).rcAbd = qxy := by
    rw [RaidzMap.setSize_abd, RaidzMap.setSize_abd, RaidzMap.setAbd_abd]
  rw [hpxy, hqxy, RaidzMap.setSize_cols, RaidzMap.setSize_cols, RaidzMap.setAbd_cols, RaidzMap.setAbd_cols, hbcols]
  refine ⟨_, rfl, rm.rewrites_unblank x y p1 q1 pxy qxy _ _, fun rm0 lost h hP hQ hother => ?_⟩
  -- P and Q exceed the other columns by the shares of the two lost ones
  have hp' : ∀ k < (rm.rmCol 0).rcSize, gf ((rm.rmCol vdevRaidzP).rcAbd.buf k) + gf (pxy.buf k) =
      rm0.datum x k + rm0.datum y k := by
    intro k hk
    rw [h.parity_eq (e := vdevRaidzP) hl.parity_pos hP hk, hp k hk, vdevRaidzP, pow_zero,
      h.parity_blank hx hxy hy hQ1 hother p1 q1, one_pow, one_pow, one_mul, one_mul, add_assoc, add_assoc,
      CharTwo.add_self_eq_zero, add_zero]
  have hq' : ∀ k < (rm.rmCol 0).rcSize, gf ((rm.rmCol vdevRaidzQ).rcAbd.buf k) + gf (qxy.buf k) =
      gfTwo ^ (rm.rmCols - 1 - x) * rm0.datum x k + gfTwo ^ (rm.rmCols - 1 - y) * rm0.datum y k := by
    intro k hk
    rw [h.parity_eq (e := vdevRaidzQ) hQ1 hQ hk, hq k hk, vdevRaidzQ, pow_one,
      h.parity_blank hx hxy hy hQ1 hother p1 q1, add_assoc, add_assoc, CharTwo.add_self_eq_zero, add_zero]
  have hle : ∀ c < rm.rmCols, (rm.rmCol c).rcSize ≤ (rm.rmCol 0).rcSize :=
    fun c hc => hl.size_anti 0 c (Nat.zero_le c) hc
  generalize haexp : vdevRaidzLog2 (vdevRaidzExp2 (vdevRaidzPow2 (255 + x - y)) _) = aexp
  generalize hbexp : vdevRaidzLog2 (vdevRaidzExp2 (vdevRaidzPow2 (255 - (rm.rmCols - 1 - x))) _) = bexp
  have hbyte : ∀ k < (rm.rmCol 0).rcSize, gf (reconstPqByte (rm.rmCol vdevRaidzP).rcAbd
      (rm.rmCol vdevRaidzQ).rcAbd pxy qxy aexp bexp k) = rm0.datum x k := by
    intro k hk
    rw [← haexp, ← hbexp]
    exact gf_reconstPqByte _ _ hxy hy hl.cols_le (hp' k hk) (hq' k hk)
  have hdatum : ∀ c k, k < (rm.rmCol c).rcSize → rm0.datum c k = gf ((rm0.rmCol c).rcAbd.buf k) :=
    fun c k hk => if_pos (by rwa [← h.shape.size])
  refine RaidzMap.restored_unblank hxy.ne hx0P hx0Q hy0P hy0Q ?_ ?_
  · intro k hk
    rw [reconstPqLoop_fst _ _ _ _ _ hk, ← gf_inj, ← hdatum x k hk]
    exact hbyte k (hk.trans_le (hle x (hxy.trans hy)))
  · intro k hk
    have hk0 := hk.trans_le (hle y hy)
    rw [reconstPqLoop_snd _ _ _ _ _ hk, ← gf_inj, gf_xor, gf_xor, ← hdatum y k hk, hp' k hk0, hbyte k hk0, add_right_comm,
      CharTwo.add_self_eq_zero, zero_add]

end

end Unleashed.Zfs
