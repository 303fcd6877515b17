import Unleashed.Zfs.Raidz.Matrix

/-!
# Reconstruction in the general case

Which parity columns stand in for the lost data columns, the products of the inverted matrix, and the detour over
linear buffers.
-/

namespace Unleashed.Zfs

open Unleashed.Lib Function Finset Nat

/-- The loops of `vdev_raidz_matrix_reconstruct` over used column `i` and the lost columns. -/
def matrixReconstructBytes (i ccount nmissing : Nat) (dcount : Nat → Nat) (src : Abd) (invlog : Nat → Nat → Nat)
    (dst : Nat → Abd) : Nat → Abd :=
  forRange 0 ccount (fun x dst => forRange 0 nmissing (fun cc (dst : Nat → Abd) =>
    if x ≥ dcount cc then dst
    else
      let val :=
        if src.buf x = 0 then 0
        else
          let ll := vdevRaidzLog2 (src.buf x) + invlog cc i
          vdevRaidzPow2 (if ll ≥ 255 then ll - 255 else ll)
      Function.update dst cc ((dst cc).setByte x (if i = 0 then val else (dst cc).buf x ^^^ val))) dst) dst

/-- The loop body of `vdev_raidz_matrix_reconstruct`: used column `i`. -/
def matrixReconstructColumn (rm : RaidzMap) (nmissing : Nat) (missing used : List Nat) (invlog : Nat → Nat → Nat)
    (i : Nat) (dst : Nat → Abd) : Except Fault (Nat → Abd) := do
  let col := fun j => missing.getD j 0 + rm.rmFirstdatacol
  let c := used.getD i 0
  ASSERT (c < rm.rmCols)
  forRangeM 0 nmissing (fun j (_ : Unit) => do
    ASSERT (col j ≥ rm.rmFirstdatacol)
    ASSERT (col j < rm.rmCols)
    ASSERT (col j ≠ c)) ()
  ASSERT ((rm.rmCol c).rcSize ≥ (rm.rmCol (missing.getD 0 0)).rcSize ∨ i > 0)
  .ok (matrixReconstructBytes i (rm.rmCol c).rcSize nmissing (fun cc => (rm.rmCol (col cc)).rcSize)
    (rm.rmCol c).rcAbd invlog dst)

def vdevRaidzMatrixReconstruct (rm : RaidzMap) (n nmissing : Nat) (missing : List Nat) (invrows : ByteRows)
    (used : List Nat) : Except Fault RaidzMap := do
  forRangeM 0 nmissing (fun i (_ : Unit) =>
    forRangeM 0 n (fun j (_ : Unit) => ASSERT (invrows i j ≠ 0)) ()) ()
  let invlog := fun i j => vdevRaidzLog2 (invrows i j)
  let col := fun j => missing.getD j 0 + rm.rmFirstdatacol
  let dst ← forRangeM 0 n (matrixReconstructColumn rm nmissing missing used invlog) (fun cc => (rm.rmCol (col cc)).rcAbd)
  .ok (forRange 0 nmissing (fun cc rm => rm.setAbd (col cc) (dst cc)) rm)

/-- The parity columns that help: the first ones that are not targets. -/
def raidzParityMap (first ntgts nmissing : Nat) (tgts : List Nat) :
    (fuel c tt : Nat) → (parityMap : List Nat) → (code : Nat) → Except Fault (List Nat × Nat)
  | 0, _, _, _, _ => .error .fuel
  | fuel + 1, c, tt, parityMap, code =>
    if parityMap.length < nmissing then do
      ASSERT (tt < ntgts)
      ASSERT (c < first)
      -- Skip any targeted parity columns.
      if c = tgts.getD tt 0 then raidzParityMap first ntgts nmissing tgts fuel (c + 1) (tt + 1) parityMap code
      else raidzParityMap first ntgts nmissing tgts fuel (c + 1) tt (parityMap ++ [c]) (code ||| 1 <<< c)
    else .ok (parityMap, code)

/-- The loop body that goes through the data columns. -/
def raidzUsedColumn (rm : RaidzMap) (n : Nat) (missing : List Nat) (c : Nat) (s : Nat × List Nat) :
    Except Fault (Nat × List Nat) :=
  if s.1 < missing.length ∧ c = missing.getD s.1 0 + rm.rmFirstdatacol then .ok (s.1 + 1, s.2)
  else do
    ASSERT (s.2.length < n)
    .ok (s.1, s.2 ++ [c])

/-- The columns used: the parity columns, then the data columns left. -/
def raidzUsed (rm : RaidzMap) (n : Nat) (missing parityMap : List Nat) : Except Fault (List Nat) := do
  let s ← forRangeM rm.rmFirstdatacol rm.rmCols (raidzUsedColumn rm n missing) (0, parityMap)
  .ok s.2

/-- `vdev_raidz_reconstruct_general` after the buffers have been made linear. -/
def reconstructLinear (rm : RaidzMap) (tgts : List Nat) (ntgts : Nat) (uninit : ByteRows) :
    Except Fault (RaidzMap × Nat) := do
  let n := rm.rmCols - rm.rmFirstdatacol
  -- Figure out which data columns are missing.
  let missing := ((tgts.take ntgts).filter (rm.rmFirstdatacol ≤ ·)).map (· - rm.rmFirstdatacol)
  let nmissing := missing.length
  let (parityMap, code) ← raidzParityMap rm.rmFirstdatacol ntgts nmissing tgts (rm.rmFirstdatacol + 1) 0 0 [] 0
  ASSERT (code ≠ 0)
  ASSERT (code < 1 <<< vdevRaidzMaxparity)
  let used ← raidzUsed rm n missing parityMap
  let rows ← vdevRaidzMatrixInit rm n nmissing parityMap uninit
  let s ← vdevRaidzMatrixInvert rm n nmissing missing rows uninit used
  let rm ← vdevRaidzMatrixReconstruct rm n nmissing missing s.2 used
  .ok (rm, code)

def vdevRaidzReconstructGeneral (rm : RaidzMap) (tgts : List Nat) (ntgts : Nat) (uninit : ByteRows) :
    Except Fault (RaidzMap × Nat) :=
  if (rm.rmCol rm.rmFirstdatacol).rcAbd.linear then reconstructLinear rm tgts ntgts uninit
  else do
    -- Matrix reconstruction can't use scatter ABDs yet, so we allocate temporary linear ABDs.
    let bufs := fun c => (rm.rmCol c).rcAbd
    let tmp := forRange rm.rmFirstdatacol rm.rmCols (fun c tmp =>
      tmp.setAbd c (abdCopy (abdAllocLinear (uninit c)) (bufs c) (rm.rmCol c).rcSize)) rm
    let (rm, code) ← reconstructLinear tmp tgts ntgts uninit
    -- copy back from temporary linear abds and free them
    .ok (forRange rm.rmFirstdatacol rm.rmCols (fun c rm =>
      rm.setAbd c (abdCopy (bufs c) (rm.rmCol c).rcAbd (rm.rmCol c).rcSize)) rm, code)

/-! ## Buffers of several columns -/

variable {lo hi : Nat}

lemma RaidzMap.forRange_setAbd (rm : RaidzMap) (hle : lo ≤ hi) (col : Nat → Nat)
    (hinj : ∀ i j, lo ≤ i → i < hi → lo ≤ j → j < hi → col i = col j → i = j) (f : Nat → RaidzCol → Abd) :
    rm.SameShape (forRange lo hi (fun i rm => rm.setAbd (col i) (f i (rm.rmCol (col i)))) rm) ∧
    (∀ c, (∀ i, lo ≤ i → i < hi → c ≠ col i) →
      (forRange lo hi (fun i rm => rm.setAbd (col i) (f i (rm.rmCol (col i)))) rm).rmCol c = rm.rmCol c) ∧
    ∀ i, lo ≤ i → i < hi → (forRange lo hi (fun i rm => rm.setAbd (col i) (f i (rm.rmCol (col i)))) rm).rmCol (col i) =
        { rm.rmCol (col i) with rcAbd := f i (rm.rmCol (col i)) } := by
  refine forRange_rule (fun m (rm' : RaidzMap) => rm.SameShape rm' ∧
    (∀ c, (∀ i, lo ≤ i → i < m → c ≠ col i) → rm'.rmCol c = rm.rmCol c) ∧
    ∀ i, lo ≤ i → i < m → rm'.rmCol (col i) = { rm.rmCol (col i) with rcAbd := f i (rm.rmCol (col i)) }) hle ?_ ?_
  · exact ⟨⟨rfl, rfl, fun _ => rfl⟩, fun _ _ => rfl, fun i h1 h2 => absurd h1 (by omega)⟩
  · rintro m rm' hm hmh ⟨hshape, hkeep, hcol⟩
    have hself : rm'.rmCol (col m) = rm.rmCol (col m) := by
      apply hkeep
      intro i h1 h2 heq
      have := hinj m i hm hmh h1 (by omega) heq
      omega
    refine ⟨⟨?_, ?_, fun c => ?_⟩, fun c hc => ?_, fun i h1 h2 => ?_⟩
    · rw [setAbd_cols, hshape.cols]
    · rw [setAbd_firstdatacol, hshape.firstdatacol]
    · rw [setAbd_size, hshape.size]
    · rw [setAbd_ne _ _ (hc m hm (Nat.lt_succ_self m))]
      exact hkeep c fun i h1 h2 => hc i h1 (by omega)
    · by_cases him : i = m
      · rw [him, setAbd_self, hself]
      · rw [setAbd_ne]
        · exact hcol i h1 (by omega)
        · intro heq
          exact him (hinj i m h1 (by omega) hm hmh heq)

lemma RaidzMap.forRange_setAbd_error (rm : RaidzMap) (hle : lo ≤ hi) (col : Nat → Nat) (f : Nat → RaidzCol → Abd) (c : Nat) :
    ((forRange lo hi (fun i rm => rm.setAbd (col i) (f i (rm.rmCol (col i)))) rm).rmCol c).rcError = (rm.rmCol c).rcError :=
  forRange_rule (fun _ (rm' : RaidzMap) => (rm'.rmCol c).rcError = (rm.rmCol c).rcError) hle rfl
    fun i rm' _ _ h => by rw [setAbd_error, h]

/-! ## The products -/

lemma Abd.setByte_buf (a : Abd) (i : Nat) (b : Byte) (k : Nat) : (a.setByte i b).buf k = if k = i then b else a.buf k := by
  unfold setByte
  dsimp only
  rw [update_apply]

variable {invrows : ByteRows} {cc k : Nat}

section
variable {t ccount : Nat} {dcount : Nat → Nat}

lemma forRange_updateByte (g : Nat → Nat → Byte → Byte) (x : Nat) (dst : Nat → Abd) (cc k : Nat) :
    (forRange 0 t (fun cc (dst : Nat → Abd) => if x ≥ dcount cc then dst
      else update dst cc ((dst cc).setByte x (g x cc ((dst cc).buf x)))) dst cc).buf k =
      if k = x ∧ cc < t ∧ x < dcount cc then g x cc ((dst cc).buf x) else (dst cc).buf k := by
  refine forRange_rule (fun m (dst' : Nat → Abd) => ∀ cc k, (dst' cc).buf k =
    if k = x ∧ cc < m ∧ x < dcount cc then g x cc ((dst cc).buf x) else (dst cc).buf k) (Nat.zero_le t) ?_ ?_ cc k
  · intro cc k
    rw [if_neg fun h => Nat.not_lt_zero cc h.2.1]
  · intro m dst' _ _ ih cc k
    by_cases hx : x ≥ dcount m
    · rw [if_pos hx, ih cc k]
      exact if_congr (by grind) rfl rfl
    · have hnew : (dst' m).buf x = (dst m).buf x := by
        rw [ih m x, if_neg fun h => lt_irrefl m h.2.1]
      rw [if_neg hx, hnew]
      by_cases hcc : cc = m
      · subst hcc
        rw [update_self, Abd.setByte_buf]
        by_cases hk : k = x
        · rw [if_pos hk, if_pos ⟨hk, by omega, by omega⟩]
        · rw [if_neg hk, if_neg fun h => hk h.1, ih, if_neg fun h => hk h.1]
      · rw [update_of_ne hcc, ih cc k]
        exact if_congr (by omega) rfl rfl

lemma forRange_updateBytes (g : Nat → Nat → Byte → Byte) (dst : Nat → Abd) (cc k : Nat) :
    (forRange 0 ccount (fun x dst => forRange 0 t (fun cc (dst : Nat → Abd) => if x ≥ dcount cc then dst
      else update dst cc ((dst cc).setByte x (g x cc ((dst cc).buf x)))) dst) dst cc).buf k =
      if k < ccount ∧ cc < t ∧ k < dcount cc then g k cc ((dst cc).buf k) else (dst cc).buf k := by
  refine forRange_rule (fun m (dst' : Nat → Abd) => ∀ cc k, (dst' cc).buf k =
    if k < m ∧ cc < t ∧ k < dcount cc then g k cc ((dst cc).buf k) else (dst cc).buf k) (Nat.zero_le ccount) ?_ ?_ cc k
  · intro cc k
    rw [if_neg fun h => Nat.not_lt_zero k h.1]
  · intro x dst' _ _ ih cc k
    rw [forRange_updateByte]
    by_cases hk : k = x
    · subst hk
      rw [ih cc k, if_neg (fun h => lt_irrefl k h.1 : ¬ (k < k ∧ cc < t ∧ k < dcount cc))]
      exact if_congr (by omega) rfl rfl
    · rw [if_neg fun h => hk h.1, ih cc k]
      exact if_congr (by omega) rfl rfl

/-- The product of two bytes by way of their logarithms. -/
lemma gf_mul_log {a b : Byte} (ha : a ≠ 0) : gf (if b = 0 then 0 else
      vdevRaidzPow2 (if vdevRaidzLog2 b + vdevRaidzLog2 a ≥ 255 then vdevRaidzLog2 b + vdevRaidzLog2 a - 255
        else vdevRaidzLog2 b + vdevRaidzLog2 a)) = gf a * gf b := by
  by_cases hb : b = 0
  · rw [if_pos hb, hb, gf_zero, mul_zero]
  · have hla := vdevRaidzLog2_lt a
    have hlb := vdevRaidzLog2_lt b
    rw [if_neg hb, ← gfTwo_pow_log2 ha, ← gfTwo_pow_log2 hb, ← pow_add, Nat.add_comm (vdevRaidzLog2 a)]
    by_cases hl : vdevRaidzLog2 b + vdevRaidzLog2 a ≥ 255
    · rw [if_pos hl, gf_pow2 (by omega)]
      nth_rewrite 2 [← Nat.sub_add_cancel hl]
      rw [pow_add, gfTwo_pow_order, mul_one]
    · rw [if_neg hl, gf_pow2 (by omega)]

lemma gf_matrixReconstructBytes (i : Nat) (src : Abd) (dst : Nat → Abd)
    (hne : invrows cc i ≠ 0) (hcc : cc < t) (hk : k < dcount cc) :
    gf ((matrixReconstructBytes i ccount t dcount src (fun i j => vdevRaidzLog2 (invrows i j)) dst cc).buf k) =
      if k < ccount then (if i = 0 then 0 else gf ((dst cc).buf k)) + gf (invrows cc i) * gf (src.buf k)
      else gf ((dst cc).buf k) := by
  unfold matrixReconstructBytes
  rw [forRange_updateBytes (fun x cc b => if i = 0 then _ else b ^^^ _)]
  by_cases hkc : k < ccount
  · rw [if_pos ⟨hkc, hcc, hk⟩, if_pos hkc, ← gf_mul_log hne]
    by_cases hi : i = 0
    · rw [if_pos hi, if_pos hi, zero_add]
    · rw [if_neg hi, if_neg hi, gf_xor]
  · rw [if_neg fun h => hkc h.1, if_neg hkc]

end

variable {j i : Nat}

section
variable {rm0 rm : RaidzMap} {lost : Nat → Prop} {n t : Nat} {missing parityMap used : List Nat}

lemma Selection.used_lt_cols (hsel : Selection rm.rmFirstdatacol n t missing parityMap used)
    (hn : n + rm.rmFirstdatacol = rm.rmCols) (hj : j < n) : used.getD j 0 < rm.rmCols := by
  rcases lt_or_ge j t with hjt | hjt
  · have := hsel.parity_lt j hjt
    rw [hsel.used_parity j hjt]
    omega
  · have := hsel.used_lt j hjt hj
    omega

lemma Selection.used_ne_missing (hsel : Selection rm.rmFirstdatacol n t missing parityMap used)
    (hj : j < n) (hk : k < t) : missing.getD k 0 + rm.rmFirstdatacol ≠ used.getD j 0 := by
  rcases lt_or_ge j t with hjt | hjt
  · have := hsel.parity_lt j hjt
    rw [hsel.used_parity j hjt]
    omega
  · exact (hsel.used_ne j k hjt hj hk).symm

/-- The bytes of a lost column from those of the columns that are left. -/
lemma RaidzMap.Damaged.solve (h : rm0.Damaged rm lost)
    (hsel : Selection rm.rmFirstdatacol n t missing parityMap used) (hn : n + rm.rmFirstdatacol = rm.rmCols) (hinv : Inverse rm.rmFirstdatacol n t missing parityMap used invrows)
    (hused : ∀ j < n, ¬ lost (used.getD j 0)) (hcc : cc < t)
    (hk : k < (rm.rmCol (missing.getD cc 0 + rm.rmFirstdatacol)).rcSize) :
    gf ((rm0.rmCol (missing.getD cc 0 + rm.rmFirstdatacol)).rcAbd.buf k) =
      ∑ j ∈ Finset.range n, gf (invrows cc j) * rm.datum (used.getD j 0) k := by
  have hl := h.layout'
  have hk0 : k < (rm.rmCol 0).rcSize := by
    have := hsel.missing_lt cc hcc
    exact hk.trans_le (hl.size_anti 0 _ (Nat.zero_le _) (by omega))
  have hself : rm0.datum (missing.getD cc 0 + rm.rmFirstdatacol) k =
      gf ((rm0.rmCol (missing.getD cc 0 + rm.rmFirstdatacol)).rcAbd.buf k) := if_pos (by rwa [← h.shape.size])
  rw [← hself, hinv.solves (fun c => rm0.datum c k) (fun r hr => ?_) cc hcc]
  · apply sum_congr rfl
    intro j hj
    rw [h.datum_eq (hsel.used_lt_cols hn (mem_range.1 hj)) (hused j (mem_range.1 hj))]
  · have hp := hsel.parity_lt r hr
    have hsize : k < (rm0.rmCol (parityMap.getD r 0)).rcSize := by
      rwa [← h.shape.size, hl.size_parity _ hp.le]
    have hcols : rm0.rmCols - rm0.rmFirstdatacol = n := by
      rw [← h.shape.cols, ← h.shape.firstdatacol]
      omega
    have hdatum : rm0.datum (parityMap.getD r 0) k = gf ((rm0.rmCol (parityMap.getD r 0)).rcAbd.buf k) :=
      if_pos hsize
    rw [hdatum, h.encoded _ (h.shape.firstdatacol ▸ hp) k (by rwa [← h.shape.size]), parity, sum_Ico_eq_sum_range, hcols]
    apply sum_congr rfl
    intro c hc
    rw [h.shape.firstdatacol, Nat.add_comm c, ← hcols]
    congr 2
    omega

/-- The buffers after `i` used columns: the first `i` products, or anything before. -/
def HoldsProducts (rm : RaidzMap) (t : Nat) (missing used : List Nat) (invrows : ByteRows) (i : Nat)
    (dst : Nat → Abd) : Prop :=
  0 < i → ∀ cc < t, ∀ k < (rm.rmCol (missing.getD cc 0 + rm.rmFirstdatacol)).rcSize,
    gf ((dst cc).buf k) = ∑ j ∈ Finset.range i, gf (invrows cc j) * rm.datum (used.getD j 0) k

section
variable (hl : rm.Layout) (hsel : Selection rm.rmFirstdatacol n t missing parityMap used)
  (hn : n + rm.rmFirstdatacol = rm.rmCols) (ht : 0 < t)
include hl hsel hn ht

lemma matrixReconstructColumn_holds (hne : ∀ i < t, ∀ j < n, invrows i j ≠ 0) {dst : Nat → Abd}
    (hi : i < n) (h : HoldsProducts rm t missing used invrows i dst) :
    ∃ dst', matrixReconstructColumn rm t missing used (fun i j => vdevRaidzLog2 (invrows i j)) i dst = .ok dst' ∧
      HoldsProducts rm t missing used invrows (i + 1) dst' := by
  have hlong : ∀ c < rm.rmCols, (rm.rmCol c).rcSize ≤ (rm.rmCol (used.getD 0 0)).rcSize := by
    intro c hc
    rw [hsel.used_parity 0 ht, hl.size_parity _ (hsel.parity_lt 0 ht).le]
    exact hl.size_anti 0 c (Nat.zero_le c) hc
  have hmissing : ∀ k < t, missing.getD k 0 + rm.rmFirstdatacol < rm.rmCols := by
    intro k hk
    have := hsel.missing_lt k hk
    omega
  unfold matrixReconstructColumn
  rw [ASSERT_bind (hsel.used_lt_cols hn hi), forRangeM_check (Nat.zero_le t) fun j _ hj => ?_, ok_bind, ASSERT_bind ?_]
  · refine ⟨_, rfl, fun _ cc hcc k hk => ?_⟩
    rw [gf_matrixReconstructBytes i _ dst (hne cc hcc i hi) hcc hk, sum_range_succ]
    by_cases h0 : i = 0
    · subst h0
      have hlt : k < (rm.rmCol (used.getD 0 0)).rcSize := hk.trans_le (hlong _ (hmissing cc hcc))
      rw [if_pos hlt, if_pos rfl, range_zero, sum_empty, RaidzMap.datum, if_pos hlt]
    · rw [if_neg h0, h (Nat.pos_of_ne_zero h0) cc hcc k hk, RaidzMap.datum]
      split_ifs
      · rfl
      · rw [mul_zero, add_zero]
  · by_cases h0 : i = 0
    · rw [h0]
      have := hmissing 0 ht
      exact .inl (hlong _ (by omega))
    · exact .inr (Nat.pos_of_ne_zero h0)
  · rw [ASSERT_bind (Nat.le_add_left _ _), ASSERT_bind (hmissing j hj)]
    exact ASSERT_eq_ok.2 (hsel.used_ne_missing hi hj)

/-- **`vdev_raidz_matrix_reconstruct`** restores the missing data columns. -/
theorem vdevRaidzMatrixReconstruct_spec (hinv : Inverse rm.rmFirstdatacol n t missing parityMap used invrows) :
    ∃ rm', vdevRaidzMatrixReconstruct rm n t missing invrows used = .ok rm' ∧
      rm.Rewrites rm' (fun c => ∃ k < t, c = missing.getD k 0 + rm.rmFirstdatacol) ∧
      ∀ (rm0 : RaidzMap) (lost : Nat → Prop), rm0.Damaged rm lost → (∀ j < n, ¬ lost (used.getD j 0)) →
        rm0.Restored rm rm' fun c => ∃ k < t, c = missing.getD k 0 + rm.rmFirstdatacol := by
  unfold vdevRaidzMatrixReconstruct
  rw [forRangeM_check (Nat.zero_le t) fun i _ hi => forRangeM_check (Nat.zero_le n) fun j _ hj =>
    ASSERT_eq_ok.2 (hinv.ne_zero i hi j hj), ok_bind]
  dsimp only
  obtain ⟨dst, hrun, hdst⟩ := forRangeM_rule (HoldsProducts rm t missing used invrows)
    (s := fun cc => (rm.rmCol (missing.getD cc 0 + rm.rmFirstdatacol)).rcAbd) (Nat.zero_le n)
    (fun h => absurd h (lt_irrefl 0)) fun i dst _ hi ih =>
      matrixReconstructColumn_holds hl hsel hn ht hinv.ne_zero hi ih
  rw [hrun, ok_bind]
  obtain ⟨hshape, hkeep, hcol⟩ := rm.forRange_setAbd (Nat.zero_le t) (fun k => missing.getD k 0 + rm.rmFirstdatacol)
    (fun i j _ hi _ hj heq => hsel.missing_inj hi hj (Nat.add_right_cancel heq)) fun cc _ => dst cc
  have hframe := fun c (hc : ¬ ∃ k < t, c = missing.getD k 0 + rm.rmFirstdatacol) =>
    hkeep c fun k _ hk heq => hc ⟨k, hk, heq⟩
  refine ⟨_, rfl, ⟨hshape, rm.forRange_setAbd_error (Nat.zero_le t) _ fun cc _ => dst cc, hframe⟩,
    fun rm0 lost h hused => ⟨hshape, hframe, ?_⟩⟩
  rintro c ⟨cc, hcc, rfl⟩ k hk
  rw [hcol cc (Nat.zero_le cc) hcc, ← gf_inj, h.solve hsel hn hinv hused hcc hk]
  exact hdst (ht.trans_le hsel.le) cc hcc k hk

end

end

/-! ## The choice of columns -/

variable {l : List Nat}

lemma getD_lt_getD (h : l.Pairwise (· < ·)) (hij : i < j) (hj : j < l.length) : l.getD i 0 < l.getD j 0 := by
  rw [List.getD_eq_getElem _ _ (hij.trans hj), List.getD_eq_getElem _ _ hj]
  exact List.pairwise_iff_getElem.1 h i j _ _ hij

lemma getD_mem (hi : i < l.length) : l.getD i 0 ∈ l := by
  rw [List.getD_eq_getElem _ _ hi]
  exact List.getElem_mem hi

lemma exists_getD_of_mem {c : Nat} (h : c ∈ l) : ∃ i < l.length, l.getD i 0 = c := by
  obtain ⟨i, hi, heq⟩ := List.getElem_of_mem h
  exact ⟨i, hi, by rw [List.getD_eq_getElem _ _ hi, heq]⟩

/-- The lost columns in order: `ps` of the parity, `ds` of the data, within the parity. -/
structure RaidzMap.Targets (rm : RaidzMap) (ps ds : List Nat) : Prop where
  sorted : (ps ++ ds).Pairwise (· < ·)
  parity : ∀ c ∈ ps, c < rm.rmFirstdatacol
  data : ∀ c ∈ ds, rm.rmFirstdatacol ≤ c ∧ c < rm.rmCols
  enough : ps.length + ds.length ≤ rm.rmFirstdatacol

/-- A scan up to `c` has passed the first `tt` of the sorted targets. -/
structure Passed (tgts : List Nat) (c tt : Nat) : Prop where
  before : ∀ j < tt, tgts.getD j 0 < c
  after : ∀ j, tt ≤ j → j < tgts.length → c ≤ tgts.getD j 0

section
variable {tgts : List Nat} {c tt : Nat}

lemma Passed.zero (tgts : List Nat) : Passed tgts 0 0 :=
  ⟨fun j hj => absurd hj (Nat.not_lt_zero j), fun _ _ _ => Nat.zero_le _⟩

section
variable (h : Passed tgts c tt) (hs : tgts.Pairwise (· < ·))
include h hs

lemma Passed.hit (heq : c = tgts.getD tt 0) : Passed tgts (c + 1) (tt + 1) := by
  constructor
  · intro j hj
    rcases Nat.lt_succ_iff_lt_or_eq.1 hj with hlt | rfl
    · have := h.before j hlt
      omega
    · omega
  · intro j hj hlen
    have := getD_lt_getD hs (i := tt) (j := j) (by omega) hlen
    omega

lemma Passed.miss (hne : tt < tgts.length → c ≠ tgts.getD tt 0) : Passed tgts (c + 1) tt := by
  constructor
  · intro j hj
    have := h.before j hj
    omega
  · intro j hj hlen
    have h1 := h.after tt le_rfl (by omega)
    have h2 := hne (by omega)
    rcases lt_or_eq_of_le hj with hlt | rfl
    · have := getD_lt_getD hs hlt hlen
      omega
    · omega

lemma Passed.mem_iff : c ∈ tgts ↔ tt < tgts.length ∧ c = tgts.getD tt 0 := by
  constructor
  · intro hc
    obtain ⟨j, hj, heq⟩ := exists_getD_of_mem hc
    have hge : tt ≤ j := by
      by_contra hlt
      have := h.before j (by omega)
      omega
    rcases lt_or_eq_of_le hge with hlt | rfl
    · have := getD_lt_getD hs hlt hj
      have := h.after tt le_rfl (by omega)
      omega
    · exact ⟨hj, heq.symm⟩
  · rintro ⟨hlt, heq⟩
    rw [heq]
    exact getD_mem hlt

/-- What is left of the targets fits into what is left of the columns. -/
lemma Passed.remaining {m : Nat} (hm : ∀ d ∈ tgts, d < m) : tgts.length - tt ≤ m - c := by
  have hgrow : ∀ k, tt + k < tgts.length → c + k ≤ tgts.getD (tt + k) 0 := by
    intro k
    induction k with
    | zero => exact h.after tt le_rfl
    | succ k ih =>
      intro hk
      have h1 := ih (by omega)
      have h2 := getD_lt_getD hs (i := tt + k) (j := tt + (k + 1)) (by omega) hk
      omega
  rcases lt_or_ge tt tgts.length with hlt | hge
  · have h1 := hgrow (tgts.length - 1 - tt) (by omega)
    have h2 := hm _ (getD_mem (l := tgts) (i := tt + (tgts.length - 1 - tt)) (by omega))
    omega
  · omega

end

end

/-- The parity columns chosen when the scan has come to `c`. -/
structure ChosenParity (tgts : List Nat) (c tt : Nat) (parityMap : List Nat) (code : Nat) : Prop extends
    Passed tgts c tt where
  count : parityMap.length + tt = c
  sorted : parityMap.Pairwise (· < ·)
  spare : ∀ d ∈ parityMap, d < c ∧ d ∉ tgts
  code_lt : code < 2 ^ c
  code_ne : parityMap ≠ [] → code ≠ 0

lemma or_shift_ne_zero (a c : Nat) : a ||| 1 <<< c ≠ 0 := by
  intro h
  have := congrArg (Nat.testBit · c) h
  simp [Nat.testBit_shiftLeft] at this

lemma ChosenParity.add {tgts parityMap : List Nat} {c tt code : Nat} (h : ChosenParity tgts c tt parityMap code)
    (hs : tgts.Pairwise (· < ·)) (hne : c ≠ tgts.getD tt 0) :
    ChosenParity tgts (c + 1) tt (parityMap ++ [c]) (code ||| 1 <<< c) where
  toPassed := h.toPassed.miss hs fun _ => hne
  count := by
    have := h.count
    rw [List.length_append, List.length_singleton]
    omega
  sorted := by
    rw [List.pairwise_append]
    refine ⟨h.sorted, List.pairwise_singleton _ _, fun d hd e he => ?_⟩
    rw [List.mem_singleton.1 he]
    exact (h.spare d hd).1
  spare d hd := by
    rcases List.mem_append.1 hd with hd | hd
    · have := h.spare d hd
      exact ⟨by omega, this.2⟩
    · rw [List.mem_singleton.1 hd, h.toPassed.mem_iff hs]
      exact ⟨Nat.lt_succ_self c, fun hm => hne hm.2⟩
  code_lt := by
    apply Nat.or_lt_two_pow
    · exact h.code_lt.trans (Nat.pow_lt_pow_succ (by decide))
    · rw [Nat.one_shiftLeft]
      exact Nat.pow_lt_pow_succ (by decide)
  code_ne _ := or_shift_ne_zero code c

lemma raidzParityMap_spec {rm : RaidzMap} {ps ds : List Nat} (h : rm.Targets ps ds) :
    ∀ (fuel c tt : Nat) (parityMap : List Nat) (code : Nat), rm.rmFirstdatacol < fuel + c → c ≤ rm.rmFirstdatacol →
      ChosenParity (ps ++ ds) c tt parityMap code → parityMap.length ≤ ds.length →
      ∃ c' tt' parityMap' code',
        raidzParityMap rm.rmFirstdatacol (ps ++ ds).length ds.length (ps ++ ds) fuel c tt parityMap code =
          .ok (parityMap', code') ∧
        c' ≤ rm.rmFirstdatacol ∧ ChosenParity (ps ++ ds) c' tt' parityMap' code' ∧ parityMap'.length = ds.length
  | 0, c, tt, parityMap, code, hfuel, hc, _, _ => absurd hc (by omega)
  | fuel + 1, c, tt, parityMap, code, hfuel, hc, hch, hlen => by
    unfold raidzParityMap
    by_cases hlt : parityMap.length < ds.length
    · -- as long as parity is wanted a data target lies ahead, and not all spare parity has been passed
      have htt : tt ≤ ps.length := by
        by_contra hgt
        have h1 := hch.before ps.length (by omega)
        have h2 := (h.data _ (getD_mem (i := 0) (by omega))).1
        rw [List.getD_append_right _ _ _ _ le_rfl, Nat.sub_self] at h1
        omega
      have hcf : c < rm.rmFirstdatacol := by
        by_contra hge
        have hcount := hch.count
        have henough := h.enough
        have hps : ps.length ≤ tt := by
          by_contra hgt
          have h1 := hch.after tt le_rfl (by rw [List.length_append]; omega)
          rw [List.getD_append _ _ _ _ (by omega)] at h1
          have h2 := h.parity _ (getD_mem (l := ps) (i := tt) (by omega))
          omega
        omega
      rw [if_pos hlt, ASSERT_bind (by rw [List.length_append]; omega), ASSERT_bind hcf]
      by_cases heq : c = (ps ++ ds).getD tt 0
      · rw [if_pos heq]
        refine raidzParityMap_spec h fuel (c + 1) (tt + 1) parityMap code (by omega) hcf
          { hch with toPassed := hch.toPassed.hit h.sorted heq, count := ?_, spare := ?_, code_lt := ?_ } hlen
        · have := hch.count
          omega
        · intro d hd
          have := hch.spare d hd
          exact ⟨by omega, this.2⟩
        · exact hch.code_lt.trans (Nat.pow_lt_pow_succ (by decide))
      · rw [if_neg heq]
        refine raidzParityMap_spec h fuel (c + 1) tt _ _ (by omega) hcf (hch.add h.sorted heq) ?_
        rw [List.length_append, List.length_singleton]
        omega
    · rw [if_neg hlt]
      exact ⟨c, tt, parityMap, code, rfl, hc, hch, by omega⟩

/-- The data columns before `c` that are not among `ds`. -/
def spareData (first : Nat) (ds : List Nat) (c : Nat) : List Nat := (List.range' first (c - first)).filter (· ∉ ds)

variable {first : Nat}

lemma mem_spareData {c d : Nat} {ds : List Nat} (hc : first ≤ c) :
    d ∈ spareData first ds c ↔ first ≤ d ∧ d < c ∧ d ∉ ds := by
  rw [spareData, List.mem_filter, List.mem_range'_1, decide_eq_true_iff, and_assoc, Nat.add_sub_cancel' hc]

lemma filter_concat (p : Nat → Prop) [DecidablePred p] (l : List Nat) (c : Nat) :
    (l ++ [c]).filter p = if p c then l.filter p ++ [c] else l.filter p := by
  rw [List.filter_append, List.filter_singleton]
  by_cases hp : p c
  · rw [if_pos hp, decide_eq_true hp]
    rfl
  · rw [if_neg hp, decide_eq_false hp]
    exact List.append_nil _

lemma spareData_succ {c : Nat} (ds : List Nat) (hc : first ≤ c) :
    spareData first ds (c + 1) = if c ∉ ds then spareData first ds c ++ [c] else spareData first ds c := by
  rw [spareData, Nat.succ_sub hc, List.range'_1_concat, Nat.add_sub_cancel' hc]
  exact filter_concat (· ∉ ds) _ c

section
variable {rm : RaidzMap} {ps ds parityMap : List Nat}

/-- The missing rows, as they are numbered from the first data column on. -/
def missingRows (rm : RaidzMap) (ds : List Nat) : List Nat := ds.map (· - rm.rmFirstdatacol)

lemma RaidzMap.Targets.missing_getD (h : rm.Targets ps ds) (hk : k < ds.length) :
    (missingRows rm ds).getD k 0 + rm.rmFirstdatacol = ds.getD k 0 := by
  have hge := (h.data _ (getD_mem hk)).1
  rw [List.getD_eq_getElem _ _ hk] at hge ⊢
  rw [missingRows, List.getD_eq_getElem _ _ (by rwa [List.length_map]), List.getElem_map]
  omega

lemma RaidzMap.Targets.sorted_data (h : rm.Targets ps ds) : ds.Pairwise (· < ·) :=
  (List.pairwise_append.1 h.sorted).2.1

/-- What the scan of the data columns keeps. -/
structure UsedInv (rm : RaidzMap) (ds parityMap : List Nat) (c : Nat) (s : Nat × List Nat) : Prop where
  passed : Passed ds c s.1
  le : s.1 ≤ ds.length
  used : s.2 = parityMap ++ spareData rm.rmFirstdatacol ds c
  count : s.2.length + s.1 = ds.length + (c - rm.rmFirstdatacol)

lemma raidzUsedColumn_inv (h : rm.Targets ps ds) {c : Nat} {s : Nat × List Nat} (hf : rm.rmFirstdatacol ≤ c)
    (hc : c < rm.rmCols) (hinv : UsedInv rm ds parityMap c s) :
    ∃ s', raidzUsedColumn rm (rm.rmCols - rm.rmFirstdatacol) (missingRows rm ds) c s = .ok s' ∧
      UsedInv rm ds parityMap (c + 1) s' := by
  have hs := h.sorted_data
  have hcount := hinv.count
  have hcond : (s.1 < (missingRows rm ds).length ∧ c = (missingRows rm ds).getD s.1 0 + rm.rmFirstdatacol) ↔ c ∈ ds := by
    rw [hinv.passed.mem_iff hs, missingRows, List.length_map, ← missingRows]
    constructor
    · rintro ⟨hlt, heq⟩
      exact ⟨hlt, by rw [← h.missing_getD hlt, heq]⟩
    · rintro ⟨hlt, heq⟩
      exact ⟨hlt, by rw [h.missing_getD hlt, heq]⟩
  unfold raidzUsedColumn
  by_cases hm : c ∈ ds
  · rw [if_pos (hcond.2 hm)]
    obtain ⟨hlt, heq⟩ := (hinv.passed.mem_iff hs).1 hm
    refine ⟨_, rfl, hinv.passed.hit hs heq, hlt, ?_, ?_⟩
    · rw [spareData_succ ds hf, if_neg (not_not.2 hm), hinv.used]
    · dsimp only
      omega
  · have hpassed := hinv.passed.miss hs fun hlt heq => hm ((hinv.passed.mem_iff hs).2 ⟨hlt, heq⟩)
    have hrest := hpassed.remaining hs fun d hd => (h.data d hd).2
    rw [if_neg (mt hcond.1 hm), ASSERT_bind (by omega)]
    refine ⟨_, rfl, hpassed, hinv.le, ?_, ?_⟩
    · rw [spareData_succ ds hf, if_pos hm, ← List.append_assoc, hinv.used]
    · rw [List.length_append, List.length_singleton]
      omega

section
variable (h : rm.Targets ps ds) (hlt : rm.rmFirstdatacol < rm.rmCols) (hlen : parityMap.length = ds.length)
include h hlt hlen

lemma raidzUsed_spec : raidzUsed rm (rm.rmCols - rm.rmFirstdatacol) (missingRows rm ds) parityMap =
      .ok (parityMap ++ spareData rm.rmFirstdatacol ds rm.rmCols) ∧
    ds.length + (spareData rm.rmFirstdatacol ds rm.rmCols).length = rm.rmCols - rm.rmFirstdatacol := by
  have hstart : UsedInv rm ds parityMap rm.rmFirstdatacol (0, parityMap) := by
    refine ⟨⟨fun j hj => absurd hj (Nat.not_lt_zero j), fun j _ hj => (h.data _ (getD_mem hj)).1⟩, Nat.zero_le _, ?_, ?_⟩
    · rw [spareData, Nat.sub_self]
      exact (List.append_nil parityMap).symm
    · dsimp only
      omega
  obtain ⟨s, hrun, hinv⟩ := forRangeM_rule (UsedInv rm ds parityMap) hlt.le hstart fun c s hf hc hs =>
    raidzUsedColumn_inv h hf hc hs
  -- all targets have been passed
  have htt : s.1 = ds.length := by
    have hrest := hinv.passed.remaining h.sorted_data fun d hd => (h.data d hd).2
    have hle := hinv.le
    omega
  have hcount := hinv.count
  rw [hinv.used, List.length_append, hlen, htt] at hcount
  rw [raidzUsed, hrun, ok_bind, hinv.used]
  exact ⟨rfl, by omega⟩

/-- The parity columns and the spare data columns are a selection. -/
lemma RaidzMap.Targets.selection (hsorted : parityMap.Pairwise (· < ·)) (hparity : ∀ c ∈ parityMap, c < rm.rmFirstdatacol) :
    Selection rm.rmFirstdatacol (rm.rmCols - rm.rmFirstdatacol) ds.length (missingRows rm ds) parityMap
      (parityMap ++ spareData rm.rmFirstdatacol ds rm.rmCols) := by
  have hlength := (raidzUsed_spec h hlt hlen).2
  have hright : ∀ j, ds.length ≤ j → (parityMap ++ spareData rm.rmFirstdatacol ds rm.rmCols).getD j 0 =
      (spareData rm.rmFirstdatacol ds rm.rmCols).getD (j - ds.length) 0 := by
    intro j hj
    rw [List.getD_append_right _ _ _ _ (by omega), hlen]
  have hspare : ∀ j, ds.length ≤ j → j < rm.rmCols - rm.rmFirstdatacol →
      rm.rmFirstdatacol ≤ (parityMap ++ spareData rm.rmFirstdatacol ds rm.rmCols).getD j 0 ∧
      (parityMap ++ spareData rm.rmFirstdatacol ds rm.rmCols).getD j 0 < rm.rmCols ∧
      (parityMap ++ spareData rm.rmFirstdatacol ds rm.rmCols).getD j 0 ∉ ds := by
    intro j hj hjn
    rw [hright j hj, ← mem_spareData hlt.le]
    exact getD_mem (by omega)
  have hspareSorted : (spareData rm.rmFirstdatacol ds rm.rmCols).Pairwise (· < ·) :=
    (List.pairwise_lt_range' 1 (by decide)).filter _
  have hinj : ∀ {l : List Nat}, l.Pairwise (· < ·) → ∀ i j, i < l.length → j < l.length → l.getD i 0 = l.getD j 0 → i = j := by
    intro l hl i j hi hj heq
    rcases Nat.lt_trichotomy i j with hij | hij | hij
    · exact absurd heq (getD_lt_getD hl hij hj).ne
    · exact hij
    · exact absurd heq (getD_lt_getD hl hij hi).ne'
  constructor
  case le => omega
  case missing_lt =>
    intro k hk
    have := h.missing_getD hk
    have := h.data _ (getD_mem hk)
    omega
  case missing_mono =>
    intro k l hkl hl
    have := h.missing_getD hl
    have := h.missing_getD (hkl.trans hl)
    have := getD_lt_getD h.sorted_data hkl hl
    omega
  case parity_lt => exact fun k hk => hparity _ (getD_mem (by omega))
  case parity_inj => exact fun k l hk hl => hinj hsorted k l (by omega) (by omega)
  case used_parity => exact fun k hk => List.getD_append _ _ _ _ (by omega)
  case used_first => exact fun j hj hjn => (hspare j hj hjn).1
  case used_lt =>
    intro j hj hjn
    have := (hspare j hj hjn).2.1
    omega
  case used_ne =>
    intro j k hj hjn hk heq
    rw [h.missing_getD hk] at heq
    exact (hspare j hj hjn).2.2 (heq ▸ getD_mem hk)
  case used_inj =>
    intro j l hj hjn hl hln heq
    rw [hright j hj, hright l hl] at heq
    have := hinj hspareSorted (j - ds.length) (l - ds.length) (by omega) (by omega) heq
    omega
  case used_surj =>
    intro c hc hm
    have hmem : c + rm.rmFirstdatacol ∈ spareData rm.rmFirstdatacol ds rm.rmCols := by
      rw [mem_spareData hlt.le]
      refine ⟨Nat.le_add_left _ _, by omega, fun hd => ?_⟩
      obtain ⟨k, hk, heq⟩ := exists_getD_of_mem hd
      have := h.missing_getD hk
      exact hm k hk (by omega)
    obtain ⟨i, hi, heq⟩ := exists_getD_of_mem hmem
    refine ⟨ds.length + i, by omega, by omega, ?_⟩
    rw [hright _ (by omega), Nat.add_sub_cancel_left, heq]

end

end

/-! ## The whole -/

section
variable {rm0 rm : RaidzMap} {lost : Nat → Prop} {ps ds : List Nat}

lemma RaidzMap.Targets.filter_data (h : rm.Targets ps ds) :
    (((ps ++ ds).take (ps ++ ds).length).filter (rm.rmFirstdatacol ≤ ·)).map (· - rm.rmFirstdatacol) =
      missingRows rm ds := by
  rw [List.take_length, List.filter_append, List.filter_eq_nil_iff.2, List.filter_eq_self.2, List.nil_append, missingRows]
  · intro c hc
    exact decide_eq_true (h.data c hc).1
  · intro c hc
    have := h.parity c hc
    rw [decide_eq_true_iff]
    omega

lemma reconstructLinear_spec (hl : rm.Layout) (ht : rm.Targets ps ds) (hds : ds ≠ []) (uninit : ByteRows) :
    ∃ rm' code, reconstructLinear rm (ps ++ ds) (ps ++ ds).length uninit = .ok (rm', code) ∧
      0 < code ∧ code < 1 <<< vdevRaidzMaxparity ∧ rm.Rewrites rm' (· ∈ ds) ∧
      ∀ (rm0 : RaidzMap) (lost : Nat → Prop), rm0.Damaged rm lost → (∀ c < rm.rmCols, lost c → c ∈ ps ++ ds) →
        rm0.Restored rm rm' (· ∈ ds) := by
  have hpos : 0 < ds.length := List.length_pos_of_ne_nil hds
  have hcols := hl.cols_le
  have hfirst := hl.parity_pos
  have hmax : rm.rmFirstdatacol ≤ 3 := hl.parity_le
  have hmissing : (missingRows rm ds).length = ds.length := List.length_map _
  obtain ⟨c, tt, parityMap, code, hmap, hc, hch, hlen⟩ := raidzParityMap_spec ht (rm.rmFirstdatacol + 1) 0 0 [] 0
    (by omega) (Nat.zero_le _) ⟨Passed.zero _, rfl, List.Pairwise.nil, fun d hd => absurd hd List.not_mem_nil,
      by decide, fun hne => absurd rfl hne⟩ (Nat.zero_le _)
  have hcode : code ≠ 0 := hch.code_ne (List.ne_nil_of_length_pos (by omega))
  have hcode8 : code < 1 <<< vdevRaidzMaxparity :=
    hch.code_lt.trans_le ((Nat.pow_le_pow_right (by decide) (hc.trans hmax)).trans (by decide))
  have hsel := ht.selection hl.lt hlen hch.sorted fun d hd => (hch.spare d hd).1.trans_le hc
  have hn : rm.rmCols - rm.rmFirstdatacol + rm.rmFirstdatacol = rm.rmCols := Nat.sub_add_cancel hl.lt.le
  -- no target is used
  have hused : ∀ j < rm.rmCols - rm.rmFirstdatacol,
      (parityMap ++ spareData rm.rmFirstdatacol ds rm.rmCols).getD j 0 ∉ ps ++ ds := by
    intro j hj hmem
    have hlength := (raidzUsed_spec ht hl.lt hlen).2
    rcases List.mem_append.1 (getD_mem (l := parityMap ++ spareData rm.rmFirstdatacol ds rm.rmCols) (i := j)
      (by rw [List.length_append]; omega)) with hp | hd
    · exact (hch.spare _ hp).2 hmem
    · obtain ⟨h1, -, h2⟩ := (mem_spareData hl.lt.le).1 hd
      rcases List.mem_append.1 hmem with hm | hm
      · have := ht.parity _ hm
        omega
      · exact h2 hm
  unfold reconstructLinear
  dsimp only
  rw [ht.filter_data, hmissing, hmap, ok_bind]
  rw [ASSERT_bind hcode, ASSERT_bind hcode8, (raidzUsed_spec ht hl.lt hlen).1, ok_bind]
  obtain ⟨rows, hinit, hrows⟩ := vdevRaidzMatrixInit_spec (n := rm.rmCols - rm.rmFirstdatacol) rm parityMap
    ds.length rfl (by omega) (fun i hi => by
      have := hsel.parity_lt i hi
      omega) uninit
  obtain ⟨s, hinvert, hinv⟩ := vdevRaidzMatrixInvert_spec hsel hmax (by omega) hrows uninit
  obtain ⟨rm', hrec, hframe, hrestored⟩ := vdevRaidzMatrixReconstruct_spec hl hsel hn hpos hinv
  rw [hinit, ok_bind, hinvert, ok_bind, hrec, ok_bind]
  have htargets : (fun c => ∃ k < ds.length, c = (missingRows rm ds).getD k 0 + rm.rmFirstdatacol) = (· ∈ ds) := by
    funext c
    apply propext
    constructor
    · rintro ⟨k, hk, rfl⟩
      rw [ht.missing_getD hk]
      exact getD_mem hk
    · intro hc
      obtain ⟨k, hk, rfl⟩ := exists_getD_of_mem hc
      exact ⟨k, hk, (ht.missing_getD hk).symm⟩
  rw [htargets] at hframe hrestored
  exact ⟨rm', code, rfl, Nat.pos_of_ne_zero hcode, hcode8, hframe, fun rm0 lost h hlost =>
    hrestored rm0 lost h fun j hj hlostj => hused j hj (hlost _ (hsel.used_lt_cols hn hj) hlostj)⟩

lemma abdCopy_buf (dst src : Abd) {size : Nat} (hk : k < size) : (abdCopy dst src size).buf k = src.buf k := if_pos hk

/-- A buffer that is copied away and back is what it was. -/
lemma abdCopy_back (a tmp : Abd) (size : Nat) : abdCopy a (abdCopy tmp a size) size = a := by
  ext k
  · rfl
  · dsimp only [abdCopy]
    split_ifs <;> rfl

/-- **`vdev_raidz_reconstruct_general`** restores the lost data columns alone. -/
theorem vdevRaidzReconstructGeneral_spec (hl : rm.Layout) (ht : rm.Targets ps ds) (hds : ds ≠ []) (uninit : ByteRows) :
    ∃ rm' code, vdevRaidzReconstructGeneral rm (ps ++ ds) (ps ++ ds).length uninit = .ok (rm', code) ∧
      0 < code ∧ code < 1 <<< vdevRaidzMaxparity ∧ rm.Rewrites rm' (· ∈ ds) ∧
      ∀ (rm0 : RaidzMap) (lost : Nat → Prop), rm0.Damaged rm lost → (∀ c < rm.rmCols, lost c → c ∈ ps ++ ds) →
        rm0.Restored rm rm' (· ∈ ds) := by
  have hle := hl.lt.le
  unfold vdevRaidzReconstructGeneral
  by_cases hlin : (rm.rmCol rm.rmFirstdatacol).rcAbd.linear
  · rw [if_pos hlin]
    exact reconstructLinear_spec hl ht hds uninit
  rw [if_neg hlin]
  dsimp only
  obtain ⟨hshape, hkeep, hcol⟩ := rm.forRange_setAbd hle (fun c => c) (fun _ _ _ _ _ _ heq => heq) fun c _ =>
    abdCopy (abdAllocLinear (uninit c)) (rm.rmCol c).rcAbd (rm.rmCol c).rcSize
  have herror := rm.forRange_setAbd_error hle (fun c => c) fun c _ =>
    abdCopy (abdAllocLinear (uninit c)) (rm.rmCol c).rcAbd (rm.rmCol c).rcSize
  generalize forRange rm.rmFirstdatacol rm.rmCols _ rm = tmp at hshape hkeep hcol herror ⊢
  -- the temporary buffers hold what the columns held
  have htmp : ∀ (rm0 : RaidzMap) (lost : Nat → Prop), rm0.Damaged rm lost → rm0.Damaged tmp lost := by
    intro rm0 lost h
    refine ⟨h.layout, h.encoded, ⟨?_, ?_, fun c => ?_⟩, fun c hc hl k hk => ?_⟩
    · rw [hshape.cols, h.shape.cols]
    · rw [hshape.firstdatacol, h.shape.firstdatacol]
    · rw [hshape.size, h.shape.size]
    · rw [hshape.cols] at hc
      rw [hshape.size] at hk
      rw [← h.survives c hc hl k hk]
      by_cases hcf : rm.rmFirstdatacol ≤ c
      · rw [hcol c hcf hc]
        exact abdCopy_buf _ _ hk
      · rw [hkeep c fun i h1 _ heq => hcf (heq ▸ h1)]
  have httmp : tmp.Targets ps ds :=
    ⟨ht.sorted, by rw [hshape.firstdatacol]; exact ht.parity, by rw [hshape.firstdatacol, hshape.cols]; exact ht.data,
      by rw [hshape.firstdatacol]; exact ht.enough⟩
  obtain ⟨rm', code, hrun, hpos, hlt, hframe, hres⟩ := reconstructLinear_spec (hl.of_sameShape hshape) httmp hds uninit
  rw [hrun, ok_bind]
  have hfirst : rm'.rmFirstdatacol = rm.rmFirstdatacol := hframe.shape.firstdatacol.trans hshape.firstdatacol
  have hcols : rm'.rmCols = rm.rmCols := hframe.shape.cols.trans hshape.cols
  have hsize : ∀ c, (rm'.rmCol c).rcSize = (rm.rmCol c).rcSize := fun c => (hframe.shape.size c).trans (hshape.size c)
  obtain ⟨hshape', hkeep', hcol'⟩ := rm'.forRange_setAbd
    (show rm'.rmFirstdatacol ≤ rm'.rmCols by rwa [hfirst, hcols]) (fun c => c) (fun _ _ _ _ _ _ heq => heq) fun c col =>
      abdCopy (rm.rmCol c).rcAbd col.rcAbd col.rcSize
  have herror' := rm'.forRange_setAbd_error
    (show rm'.rmFirstdatacol ≤ rm'.rmCols by rwa [hfirst, hcols]) (fun c => c) fun c col =>
      abdCopy (rm.rmCol c).rcAbd col.rcAbd col.rcSize
  refine ⟨_, code, rfl, hpos, hlt, ?_⟩
  generalize forRange rm'.rmFirstdatacol rm'.rmCols _ rm' = rm'' at hshape' hkeep' hcol' herror' ⊢
  have hback : rm.Rewrites rm'' (· ∈ ds) := by
    refine ⟨⟨?_, ?_, fun c => ?_⟩, fun c => ?_, fun c hc => ?_⟩
    · rw [hshape'.cols, hcols]
    · rw [hshape'.firstdatacol, hfirst]
    · rw [hshape'.size, hsize]
    · rw [herror', hframe.error, herror]
    · by_cases hcf : rm.rmFirstdatacol ≤ c ∧ c < rm.rmCols
      · rw [hcol' c (by rw [hfirst]; exact hcf.1) (by rw [hcols]; exact hcf.2), hsize, hframe.keep c hc,
          hcol c hcf.1 hcf.2, abdCopy_back]
      · rw [hkeep' c, hframe.keep c hc, hkeep c]
        · rintro i h1 h2 rfl
          exact hcf ⟨h1, h2⟩
        · rintro i h1 h2 rfl
          exact hcf ⟨by rwa [← hfirst], by rwa [← hcols]⟩
  refine ⟨hback, fun rm0 lost h hlost => ⟨hback.shape, hback.keep, fun c hc k hk => ?_⟩⟩
  have hdata := (hres rm0 lost (htmp rm0 lost h) (by rw [hshape.cols]; exact hlost)).data
  obtain ⟨h1, h2⟩ := ht.data c hc
  rw [hcol' c (by rwa [hfirst]) (by rwa [hcols])]
  rw [hsize, abdCopy_buf _ _ hk, hdata c hc k (by rwa [hshape.size])]

end

end Unleashed.Zfs
