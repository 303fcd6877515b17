import Unleashed.Zfs.Raidz.Map

/-!
# Parity

P is the sum of the data columns, Q and R are the values of the polynomials that have them as coefficients at 2 and at
4, by Horner's rule over words. Short columns count as full of zeros.
-/

namespace Unleashed.Zfs

open Unleashed.Lib Finset Abd Function RaidzMap

/-- The map with another buffer for column `c`. -/
def RaidzMap.setAbd (rm : RaidzMap) (c : Nat) (abd : Abd) : RaidzMap :=
  { rm with rmCol := update rm.rmCol c { rm.rmCol c with rcAbd := abd } }

/-- `vdev_raidz_p_func` over a whole column. -/
def vdevRaidzPFunc (src : Abd) (size : Nat) (p : Abd) : Abd :=
  forRange 0 (size / 8) (fun i p => p.setWord i (p.word i ^^^ src.word i)) p

def vdevRaidzPqFunc (src : Abd) (size : Nat) (pq : Abd × Abd) : Abd × Abd :=
  forRange 0 (size / 8) (fun i pq =>
    (pq.1.setWord i (pq.1.word i ^^^ src.word i), pq.2.setWord i (vdevRaidz64Mul2 (pq.2.word i) ^^^ src.word i))) pq

def vdevRaidzPqrFunc (src : Abd) (size : Nat) (pqr : Abd × Abd × Abd) : Abd × Abd × Abd :=
  forRange 0 (size / 8) (fun i pqr =>
    (pqr.1.setWord i (pqr.1.word i ^^^ src.word i), pqr.2.1.setWord i (vdevRaidz64Mul2 (pqr.2.1.word i) ^^^ src.word i),
      pqr.2.2.setWord i (vdevRaidz64Mul4 (pqr.2.2.word i) ^^^ src.word i))) pqr

section
variable (rm : RaidzMap)

def vdevRaidzGenerateParityP : RaidzMap :=
  rm.setAbd vdevRaidzP (forRange rm.rmFirstdatacol rm.rmCols (fun c p =>
    let src := (rm.rmCol c).rcAbd
    if c = rm.rmFirstdatacol then abdCopy p src (rm.rmCol c).rcSize
    else vdevRaidzPFunc src (rm.rmCol c).rcSize p) (rm.rmCol vdevRaidzP).rcAbd)

/-- The loop body of `vdev_raidz_generate_parity_pq`. -/
def parityColumnPq (pcnt c : Nat) (pq : Abd × Abd) : Abd × Abd :=
  let src := (rm.rmCol c).rcAbd
  let ccnt := (rm.rmCol c).rcSize / 8
  if c = rm.rmFirstdatacol then
    let p := abdCopy pq.1 src (rm.rmCol c).rcSize
    let q := abdCopy pq.2 p (rm.rmCol c).rcSize
    forRange ccnt pcnt (fun i pq => (pq.1.setWord i 0, pq.2.setWord i 0)) (p, q)
  else
    let pq := vdevRaidzPqFunc src (rm.rmCol c).rcSize pq
    -- Treat short columns as though they are full of 0s. There is nothing needed for P.
    (pq.1, forRange ccnt pcnt (fun i q => q.setWord i (vdevRaidz64Mul2 (q.word i))) pq.2)

def vdevRaidzGenerateParityPq : Except Fault RaidzMap := do
  let pcnt := (rm.rmCol vdevRaidzP).rcSize / 8
  ASSERT ((rm.rmCol vdevRaidzP).rcSize = (rm.rmCol vdevRaidzQ).rcSize)
  let pq := forRange rm.rmFirstdatacol rm.rmCols (parityColumnPq rm pcnt)
    ((rm.rmCol vdevRaidzP).rcAbd, (rm.rmCol vdevRaidzQ).rcAbd)
  .ok ((rm.setAbd vdevRaidzP pq.1).setAbd vdevRaidzQ pq.2)

/-- The loop body of `vdev_raidz_generate_parity_pqr`. -/
def parityColumnPqr (pcnt c : Nat) (pqr : Abd × Abd × Abd) : Abd × Abd × Abd :=
  let src := (rm.rmCol c).rcAbd
  let ccnt := (rm.rmCol c).rcSize / 8
  if c = rm.rmFirstdatacol then
    let p := abdCopy pqr.1 src (rm.rmCol c).rcSize
    let q := abdCopy pqr.2.1 p (rm.rmCol c).rcSize
    let r := abdCopy pqr.2.2 p (rm.rmCol c).rcSize
    forRange ccnt pcnt (fun i pqr => (pqr.1.setWord i 0, pqr.2.1.setWord i 0, pqr.2.2.setWord i 0)) (p, q, r)
  else
    let pqr := vdevRaidzPqrFunc src (rm.rmCol c).rcSize pqr
    -- Treat short columns as though they are full of 0s. There is nothing needed for P.
    (pqr.1, forRange ccnt pcnt (fun i qr =>
      (qr.1.setWord i (vdevRaidz64Mul2 (qr.1.word i)), qr.2.setWord i (vdevRaidz64Mul4 (qr.2.word i)))) pqr.2)

def vdevRaidzGenerateParityPqr : Except Fault RaidzMap := do
  let pcnt := (rm.rmCol vdevRaidzP).rcSize / 8
  ASSERT ((rm.rmCol vdevRaidzP).rcSize = (rm.rmCol vdevRaidzQ).rcSize)
  ASSERT ((rm.rmCol vdevRaidzP).rcSize = (rm.rmCol vdevRaidzR).rcSize)
  let pqr := forRange rm.rmFirstdatacol rm.rmCols (parityColumnPqr rm pcnt)
    ((rm.rmCol vdevRaidzP).rcAbd, (rm.rmCol vdevRaidzQ).rcAbd, (rm.rmCol vdevRaidzR).rcAbd)
  .ok (((rm.setAbd vdevRaidzP pqr.1).setAbd vdevRaidzQ pqr.2.1).setAbd vdevRaidzR pqr.2.2)

def vdevRaidzGenerateParity : Except Fault RaidzMap :=
  match rm.rmFirstdatacol with
  | 1 => .ok (vdevRaidzGenerateParityP rm)
  | 2 => vdevRaidzGenerateParityPq rm
  | 3 => vdevRaidzGenerateParityPqr rm
  -- "invalid RAID-Z configuration"
  | _ => .error .verify

end

variable (rm : RaidzMap)

@[simp] lemma RaidzMap.setAbd_cols (c : Nat) (a : Abd) : (rm.setAbd c a).rmCols = rm.rmCols := rfl
@[simp] lemma RaidzMap.setAbd_firstdatacol (c : Nat) (a : Abd) : (rm.setAbd c a).rmFirstdatacol = rm.rmFirstdatacol := rfl

lemma RaidzMap.setAbd_self (c : Nat) (a : Abd) :
    (rm.setAbd c a).rmCol c = { rm.rmCol c with rcAbd := a } := update_self _ _ _

@[simp] lemma RaidzMap.setAbd_abd (c : Nat) (a : Abd) : ((rm.setAbd c a).rmCol c).rcAbd = a := by
  rw [setAbd_self]

variable {c : Nat}

@[simp] lemma RaidzMap.setAbd_ne {d : Nat} (a : Abd) (h : d ≠ c) : (rm.setAbd c a).rmCol d = rm.rmCol d := update_of_ne h _ _

@[simp] lemma RaidzMap.setAbd_size (c d : Nat) (a : Abd) : ((rm.setAbd c a).rmCol d).rcSize = (rm.rmCol d).rcSize := by
  by_cases h : d = c
  · rw [h, setAbd_self]
  · rw [setAbd_ne _ _ h]

@[simp] lemma RaidzMap.setAbd_error (c d : Nat) (a : Abd) : ((rm.setAbd c a).rmCol d).rcError = (rm.rmCol d).rcError := by
  by_cases h : d = c
  · rw [h, setAbd_self]
  · rw [setAbd_ne _ _ h]

-- a map with several replaced buffers is only looked at through these lemmas
attribute [irreducible] setAbd

/-! ## Buffers -/

variable {j : Nat}

section
variable {lo hi size : Nat} {a src : Abd}

lemma Abd.lane_word (a : Abd) (i : Nat) (hj : j < 8) : lane (a.word i) j = a.buf (8 * i + j) :=
  lane_ofLanes _ hj

lemma forRange_setWord (g : Nat → Word → Word) (a : Abd) (k : Nat) :
    (forRange lo hi (fun i a => a.setWord i (g i (a.word i))) a).buf k =
      if lo ≤ k / 8 ∧ k / 8 < hi then lane (g (k / 8) (a.word (k / 8))) (k % 8) else a.buf k := by
  rcases Nat.le_total hi lo with h | h
  · rw [forRange_of_le h, if_neg (by omega)]
  · refine forRange_rule (fun i (a' : Abd) => ∀ k, a'.buf k = if lo ≤ k / 8 ∧ k / 8 < i then
      lane (g (k / 8) (a.word (k / 8))) (k % 8) else a.buf k) h ?_ ?_ k
    · intro k
      rw [if_neg (by omega)]
    · intro i a' hlo hhi ih k
      -- word `i` has not been touched yet
      have hword : a'.word i = a.word i := ofLanes_congr fun j hj => by rw [ih, if_neg (by omega)]
      show (if k / 8 = i then lane (g i (a'.word i)) (k % 8) else a'.buf k) = _
      by_cases hk : k / 8 = i
      · rw [if_pos hk, if_pos (by omega), hword, hk]
      · rw [if_neg hk, ih]
        exact if_congr (by omega) rfl rfl

lemma forRange_horner (mul : Word → Word) (mulByte : Byte → Byte)
    (hmul : ∀ w j, j < 8 → lane (mul w) j = mulByte (lane w j)) (a src : Abd) (k : Nat) :
    (forRange 0 (size / 8) (fun i a => a.setWord i (mul (a.word i) ^^^ src.word i)) a).buf k =
      if k / 8 < size / 8 then mulByte (a.buf k) ^^^ src.buf k else a.buf k := by
  have hlt := Nat.mod_lt k (by decide : 8 > 0)
  rw [forRange_setWord fun i w => mul w ^^^ src.word i, lane_xor, hmul _ _ hlt, lane_word _ _ hlt,
    lane_word _ _ hlt, Nat.div_add_mod]
  simp only [Nat.zero_le, true_and]

lemma vdevRaidzPFunc_buf (src p : Abd) (k : Nat) : (vdevRaidzPFunc src size p).buf k =
    if k / 8 < size / 8 then p.buf k ^^^ src.buf k else p.buf k :=
  forRange_horner id id (fun _ _ _ => rfl) p src k

lemma forRange_tail (mul : Word → Word) (mulByte : Byte → Byte)
    (hmul : ∀ w j, j < 8 → lane (mul w) j = mulByte (lane w j)) (a : Abd) (k : Nat) :
    (forRange lo hi (fun i a => a.setWord i (mul (a.word i))) a).buf k =
      if lo ≤ k / 8 ∧ k / 8 < hi then mulByte (a.buf k) else a.buf k := by
  have hlt := Nat.mod_lt k (by decide : 8 > 0)
  rw [forRange_setWord fun _ w => mul w, hmul _ _ hlt, lane_word _ _ hlt, Nat.div_add_mod]

lemma forRange_zero (a : Abd) (k : Nat) : (forRange lo hi (fun i a => a.setWord i 0) a).buf k =
      if lo ≤ k / 8 ∧ k / 8 < hi then 0 else a.buf k := by
  rw [forRange_setWord fun _ _ => 0, lane_zero]

end

/-! ## What the parity is -/

/-- The field element at byte `k` of column `c`, zero past its end. -/
def RaidzMap.datum (rm : RaidzMap) (c k : Nat) : Gf :=
  if k < (rm.rmCol c).rcSize then gf ((rm.rmCol c).rcAbd.buf k) else 0

/-- The polynomial of the columns before `i`, the first one leading. -/
def RaidzMap.parity (rm : RaidzMap) (x : Gf) (i k : Nat) : Gf :=
  ∑ c ∈ Finset.Ico rm.rmFirstdatacol i, x ^ (i - 1 - c) * rm.datum c k

section
variable {rm : RaidzMap} {x : Gf} {i k : Nat}

lemma RaidzMap.parity_zero : rm.parity x rm.rmFirstdatacol k = 0 := by
  rw [parity, Finset.Ico_self, sum_empty]

lemma RaidzMap.parity_first : rm.parity x (rm.rmFirstdatacol + 1) k = rm.datum rm.rmFirstdatacol k := by
  rw [parity, Nat.Ico_succ_singleton, sum_singleton, Nat.add_sub_cancel, Nat.sub_self, pow_zero, one_mul]

lemma RaidzMap.parity_succ (h : rm.rmFirstdatacol ≤ i) : rm.parity x (i + 1) k = x * rm.parity x i k + rm.datum i k := by
  rw [parity, sum_Ico_succ_top h, Nat.add_sub_cancel, Nat.sub_self, pow_zero, one_mul, parity, mul_sum]
  congr 1
  apply sum_congr rfl
  intro c hc
  rw [← mul_assoc, ← pow_succ']
  congr 2
  have := (mem_Ico.1 hc).2
  omega

/-- A parity buffer holds the polynomial of the columns before `i`. -/
def RaidzMap.Holds (rm : RaidzMap) (x : Gf) (n i : Nat) (a : Abd) : Prop :=
  rm.rmFirstdatacol < i → ∀ k < n, gf (a.buf k) = rm.parity x i k

variable {n : Nat}

/-- The first data column is copied and padded with zeros. -/
lemma RaidzMap.holds_first {a : Abd} (hdvd : 8 ∣ (rm.rmCol rm.rmFirstdatacol).rcSize)
    (ha : ∀ k < n, a.buf k = if (rm.rmCol rm.rmFirstdatacol).rcSize / 8 ≤ k / 8 then 0
      else (rm.rmCol rm.rmFirstdatacol).rcAbd.buf k) : rm.Holds x n (rm.rmFirstdatacol + 1) a := by
  intro _ k hk
  rw [parity_first, ha k hk, datum]
  split_ifs with h1 h2 h2
  · omega
  · rfl
  · rfl
  · omega

/-- One step of Horner's rule on the words of a parity column. -/
lemma RaidzMap.Holds.step {a a' : Abd} (mulByte : Byte → Byte) (h : rm.Holds x n i a)
    (hi : rm.rmFirstdatacol < i) (hdvd : 8 ∣ (rm.rmCol i).rcSize) (hmul : ∀ b, gf (mulByte b) = x * gf b)
    (ha : ∀ k < n, a'.buf k = if k / 8 < (rm.rmCol i).rcSize / 8 then
      mulByte (a.buf k) ^^^ (rm.rmCol i).rcAbd.buf k else mulByte (a.buf k)) : rm.Holds x n (i + 1) a' := by
  intro _ k hk
  rw [parity_succ hi.le, ha k hk, ← h hi k hk, datum]
  split_ifs with h1 h2 h2
  · rw [gf_xor, hmul]
  · omega
  · omega
  · rw [hmul, add_zero]

lemma lane_64Mul4 (w : Word) (hj : j < 8) : lane (vdevRaidz64Mul4 w) j = vdevRaidzMul2 (vdevRaidzMul2 (lane w j)) := by
  rw [vdevRaidz64Mul4, lane_64Mul2 _ hj, lane_64Mul2 _ hj]

lemma gf_mul4 (b : Byte) : gf (vdevRaidzMul2 (vdevRaidzMul2 b)) = gfTwo ^ 2 * gf b := by
  rw [gf_mul2, gf_mul2, pow_two, mul_assoc]

variable (hlt : rm.rmFirstdatacol < rm.rmCols) (hdvd : ∀ c, 8 ∣ (rm.rmCol c).rcSize)
include hlt hdvd

omit hlt in
/-- A buffer that holds the first data column and zeros after it. -/
lemma holds_first_copy (hn : 8 ∣ n) (dst a : Abd)
    (ha : ∀ k < (rm.rmCol rm.rmFirstdatacol).rcSize, a.buf k = (rm.rmCol rm.rmFirstdatacol).rcAbd.buf k) :
    rm.Holds x n (rm.rmFirstdatacol + 1) (forRange ((rm.rmCol rm.rmFirstdatacol).rcSize / 8) (n / 8)
      (fun i a => a.setWord i 0) (abdCopy dst a (rm.rmCol rm.rmFirstdatacol).rcSize)) := by
  have h8 := hdvd rm.rmFirstdatacol
  apply holds_first h8
  intro k hk
  rw [forRange_zero]
  by_cases h : (rm.rmCol rm.rmFirstdatacol).rcSize / 8 ≤ k / 8
  · rw [if_pos ⟨h, by omega⟩, if_pos h]
  · rw [if_neg fun h' => h h'.1, if_neg h]
    have hlt : k < (rm.rmCol rm.rmFirstdatacol).rcSize := by omega
    exact (if_pos hlt).trans (ha k hlt)

omit hlt in
/-- Adding a column to a parity buffer, its short end as zeros. -/
lemma holds_horner {a : Abd} (hn : 8 ∣ n) (hc : rm.rmFirstdatacol < c) (h : rm.Holds x n c a)
    (mul : Word → Word) (mulByte : Byte → Byte) (hmul : ∀ w j, j < 8 → lane (mul w) j = mulByte (lane w j))
    (hgf : ∀ b, gf (mulByte b) = x * gf b) :
    rm.Holds x n (c + 1) (forRange ((rm.rmCol c).rcSize / 8) (n / 8) (fun i a => a.setWord i (mul (a.word i)))
      (forRange 0 ((rm.rmCol c).rcSize / 8) (fun i a => a.setWord i (mul (a.word i) ^^^ (rm.rmCol c).rcAbd.word i)) a)) := by
  refine h.step mulByte hc (hdvd c) hgf fun k hk => ?_
  rw [forRange_tail mul mulByte hmul, forRange_horner mul mulByte hmul]
  by_cases hlt : k / 8 < (rm.rmCol c).rcSize / 8
  · rw [if_neg (by omega), if_pos hlt, if_pos hlt]
  · rw [if_pos (by omega), if_neg hlt, if_neg hlt]

omit hlt in
lemma holds_p {a : Abd} (hc : rm.rmFirstdatacol < c) (h : rm.Holds 1 n c a) :
    rm.Holds 1 n (c + 1) (vdevRaidzPFunc (rm.rmCol c).rcAbd (rm.rmCol c).rcSize a) := by
  refine h.step id hc (hdvd c) (fun b => (one_mul _).symm) fun k hk => ?_
  exact vdevRaidzPFunc_buf (rm.rmCol c).rcAbd a k

lemma vdevRaidzGenerateParityP_spec : ∃ p, vdevRaidzGenerateParityP rm = rm.setAbd vdevRaidzP p ∧
      ∀ k < (rm.rmCol rm.rmFirstdatacol).rcSize, gf (p.buf k) = rm.parity 1 rm.rmCols k := by
  refine ⟨_, rfl, ?_⟩
  refine forRange_rule (rm.Holds 1 (rm.rmCol rm.rmFirstdatacol).rcSize) hlt.le
    (fun h => absurd h (lt_irrefl _)) (fun c p hc _ ih => ?_) hlt
  dsimp only
  split_ifs with hfirst
  · subst hfirst
    apply holds_first (hdvd _)
    intro k hk
    have := hdvd rm.rmFirstdatacol
    rw [if_neg (by omega)]
    exact if_pos hk
  · exact holds_p hdvd (by omega) ih

omit hlt in
lemma parityColumnPq_holds {pq : Abd × Abd} (hn : 8 ∣ n) (hc : rm.rmFirstdatacol ≤ c)
    (hp : rm.Holds 1 n c pq.1) (hq : rm.Holds gfTwo n c pq.2) : rm.Holds 1 n (c + 1) (parityColumnPq rm (n / 8) c pq).1 ∧
      rm.Holds gfTwo n (c + 1) (parityColumnPq rm (n / 8) c pq).2 := by
  unfold parityColumnPq vdevRaidzPqFunc
  dsimp only
  split_ifs with hfirst
  · subst hfirst
    rw [forRange_prod (fun i (p : Abd) => p.setWord i 0) fun i (q : Abd) => q.setWord i 0]
    exact ⟨holds_first_copy hdvd hn _ _ fun _ _ => rfl, holds_first_copy hdvd hn _ _ fun k hk => if_pos hk⟩
  · rw [forRange_prod (fun i (p : Abd) => p.setWord i (p.word i ^^^ (rm.rmCol c).rcAbd.word i))
      fun i (q : Abd) => q.setWord i (vdevRaidz64Mul2 (q.word i) ^^^ (rm.rmCol c).rcAbd.word i)]
    exact ⟨holds_p hdvd (by omega) hp, holds_horner hdvd hn (by omega) hq _ _ (fun w _ => lane_64Mul2 w) gf_mul2⟩

lemma vdevRaidzGenerateParityPq_spec (hsize : (rm.rmCol vdevRaidzP).rcSize = (rm.rmCol vdevRaidzQ).rcSize) :
    ∃ p q, vdevRaidzGenerateParityPq rm = .ok ((rm.setAbd vdevRaidzP p).setAbd vdevRaidzQ q) ∧
      (∀ k < (rm.rmCol vdevRaidzP).rcSize, gf (p.buf k) = rm.parity 1 rm.rmCols k) ∧
      ∀ k < (rm.rmCol vdevRaidzP).rcSize, gf (q.buf k) = rm.parity gfTwo rm.rmCols k := by
  have hrun := forRange_rule (fun i (pq : Abd × Abd) => rm.Holds 1 (rm.rmCol vdevRaidzP).rcSize i pq.1 ∧
      rm.Holds gfTwo (rm.rmCol vdevRaidzP).rcSize i pq.2) (s := ((rm.rmCol vdevRaidzP).rcAbd,
      (rm.rmCol vdevRaidzQ).rcAbd)) hlt.le
    ⟨fun h => absurd h (lt_irrefl _), fun h => absurd h (lt_irrefl _)⟩
    fun c pq hc _ ih => parityColumnPq_holds hdvd (hdvd vdevRaidzP) hc ih.1 ih.2
  refine ⟨_, _, ?_, hrun.1 hlt, hrun.2 hlt⟩
  unfold vdevRaidzGenerateParityPq
  dsimp only
  rw [ASSERT_bind hsize]

omit hlt in
lemma parityColumnPqr_holds {pqr : Abd × Abd × Abd} (hn : 8 ∣ n) (hc : rm.rmFirstdatacol ≤ c)
    (hp : rm.Holds 1 n c pqr.1) (hq : rm.Holds gfTwo n c pqr.2.1) (hr : rm.Holds (gfTwo ^ 2) n c pqr.2.2) :
    rm.Holds 1 n (c + 1) (parityColumnPqr rm (n / 8) c pqr).1 ∧
      rm.Holds gfTwo n (c + 1) (parityColumnPqr rm (n / 8) c pqr).2.1 ∧
      rm.Holds (gfTwo ^ 2) n (c + 1) (parityColumnPqr rm (n / 8) c pqr).2.2 := by
  unfold parityColumnPqr vdevRaidzPqrFunc
  dsimp only
  split_ifs with hfirst
  · subst hfirst
    rw [forRange_prod (fun i (p : Abd) => p.setWord i 0) fun i (qr : Abd × Abd) =>
        (qr.1.setWord i 0, qr.2.setWord i 0),
      forRange_prod (fun i (q : Abd) => q.setWord i 0) fun i (r : Abd) => r.setWord i 0]
    exact ⟨holds_first_copy hdvd hn _ _ fun _ _ => rfl, holds_first_copy hdvd hn _ _ fun k hk => if_pos hk,
      holds_first_copy hdvd hn _ _ fun k hk => if_pos hk⟩
  · rw [forRange_prod (fun i (p : Abd) => p.setWord i (p.word i ^^^ (rm.rmCol c).rcAbd.word i))
        fun i (qr : Abd × Abd) => (qr.1.setWord i (vdevRaidz64Mul2 (qr.1.word i) ^^^ (rm.rmCol c).rcAbd.word i),
          qr.2.setWord i (vdevRaidz64Mul4 (qr.2.word i) ^^^ (rm.rmCol c).rcAbd.word i)),
      forRange_prod (fun i (q : Abd) => q.setWord i (vdevRaidz64Mul2 (q.word i) ^^^ (rm.rmCol c).rcAbd.word i))
        fun i (r : Abd) => r.setWord i (vdevRaidz64Mul4 (r.word i) ^^^ (rm.rmCol c).rcAbd.word i),
      forRange_prod (fun i (q : Abd) => q.setWord i (vdevRaidz64Mul2 (q.word i)))
        fun i (r : Abd) => r.setWord i (vdevRaidz64Mul4 (r.word i))]
    exact ⟨holds_p hdvd (by omega) hp, holds_horner hdvd hn (by omega) hq _ _ (fun w _ => lane_64Mul2 w) gf_mul2,
      holds_horner hdvd hn (by omega) hr _ _ (fun w _ => lane_64Mul4 w) gf_mul4⟩

lemma vdevRaidzGenerateParityPqr_spec (hq : (rm.rmCol vdevRaidzP).rcSize = (rm.rmCol vdevRaidzQ).rcSize)
    (hr : (rm.rmCol vdevRaidzP).rcSize = (rm.rmCol vdevRaidzR).rcSize) : ∃ p q r, vdevRaidzGenerateParityPqr rm =
        .ok (((rm.setAbd vdevRaidzP p).setAbd vdevRaidzQ q).setAbd vdevRaidzR r) ∧
      (∀ k < (rm.rmCol vdevRaidzP).rcSize, gf (p.buf k) = rm.parity 1 rm.rmCols k) ∧
      (∀ k < (rm.rmCol vdevRaidzP).rcSize, gf (q.buf k) = rm.parity gfTwo rm.rmCols k) ∧
      ∀ k < (rm.rmCol vdevRaidzP).rcSize, gf (r.buf k) = rm.parity (gfTwo ^ 2) rm.rmCols k := by
  have hrun := forRange_rule (fun i (pqr : Abd × Abd × Abd) =>
      rm.Holds 1 (rm.rmCol vdevRaidzP).rcSize i pqr.1 ∧ rm.Holds gfTwo (rm.rmCol vdevRaidzP).rcSize i pqr.2.1 ∧
      rm.Holds (gfTwo ^ 2) (rm.rmCol vdevRaidzP).rcSize i pqr.2.2) (s := ((rm.rmCol vdevRaidzP).rcAbd,
      (rm.rmCol vdevRaidzQ).rcAbd, (rm.rmCol vdevRaidzR).rcAbd)) hlt.le
    ⟨fun h => absurd h (lt_irrefl _), fun h => absurd h (lt_irrefl _), fun h => absurd h (lt_irrefl _)⟩
    fun c pqr hc _ ih => parityColumnPqr_holds hdvd (hdvd vdevRaidzP) hc ih.1 ih.2.1 ih.2.2
  refine ⟨_, _, _, ?_, hrun.1 hlt, hrun.2.1 hlt, hrun.2.2 hlt⟩
  unfold vdevRaidzGenerateParityPqr
  dsimp only
  rw [ASSERT_bind hq, ASSERT_bind hr]

end

/-- The parity columns hold the parity of the data columns. -/
def RaidzMap.Encoded (rm : RaidzMap) : Prop :=
  ∀ e < rm.rmFirstdatacol, ∀ k < (rm.rmCol 0).rcSize, gf ((rm.rmCol e).rcAbd.buf k) = rm.parity (gfTwo ^ e) rm.rmCols k

variable {rm' : RaidzMap}

lemma RaidzMap.parity_congr {rm : RaidzMap} (hs : rm.SameShape rm')
    (hdata : ∀ c, rm.rmFirstdatacol ≤ c → rm'.rmCol c = rm.rmCol c) (x : Gf) (i k : Nat) :
    rm'.parity x i k = rm.parity x i k := by
  unfold parity
  rw [hs.firstdatacol]
  apply sum_congr rfl
  intro c hc
  unfold datum
  rw [hdata c (mem_Ico.1 hc).1]

lemma RaidzMap.encoded_of_parity {rm : RaidzMap} (hs : rm.SameShape rm')
    (hdata : ∀ c, rm.rmFirstdatacol ≤ c → rm'.rmCol c = rm.rmCol c) (h : ∀ e < rm.rmFirstdatacol, ∀ k < (rm.rmCol 0).rcSize,
      gf ((rm'.rmCol e).rcAbd.buf k) = rm.parity (gfTwo ^ e) rm.rmCols k) : rm'.Encoded := by
  intro e he k hk
  rw [hs.firstdatacol] at he
  rw [hs.size] at hk
  rw [h e he k hk, hs.cols, parity_congr hs hdata]

/-- **`vdev_raidz_generate_parity`** writes the parity and nothing else. -/
theorem vdevRaidzGenerateParity_spec {rm : RaidzMap} (h : rm.Layout) :
    ∃ rm', vdevRaidzGenerateParity rm = .ok rm' ∧ rm.SameShape rm' ∧ rm'.Encoded ∧
      (∀ c, (rm'.rmCol c).rcError = (rm.rmCol c).rcError) ∧
      ∀ c, rm.rmFirstdatacol ≤ c → rm'.rmCol c = rm.rmCol c := by
  have hsize := h.size_parity
  have h0 := h.parity_pos
  have h3 : rm.rmFirstdatacol ≤ 3 := h.parity_le
  have hP : (rm.rmCol vdevRaidzP).rcSize = (rm.rmCol 0).rcSize := rfl
  unfold vdevRaidzGenerateParity
  obtain hf | hf | hf : rm.rmFirstdatacol = 1 ∨ rm.rmFirstdatacol = 2 ∨ rm.rmFirstdatacol = 3 := by omega
  · obtain ⟨p, heq, hp⟩ := vdevRaidzGenerateParityP_spec h.lt h.size_dvd
    have hdata : ∀ c, rm.rmFirstdatacol ≤ c → (rm.setAbd vdevRaidzP p).rmCol c = rm.rmCol c :=
      fun c hc => setAbd_ne _ _ (by unfold vdevRaidzP; omega)
    have hs : rm.SameShape (rm.setAbd vdevRaidzP p) := ⟨by simp, by simp, by simp⟩
    refine ⟨_, by simp only [hf, heq], hs, encoded_of_parity hs hdata ?_, by simp, hdata⟩
    intro e he k hk
    obtain rfl : e = vdevRaidzP := by unfold vdevRaidzP; omega
    rw [setAbd_abd, hp k (by rwa [hsize _ le_rfl]), vdevRaidzP, pow_zero]
  · have hQ : (rm.rmCol vdevRaidzQ).rcSize = (rm.rmCol 0).rcSize := hsize 1 (by omega)
    obtain ⟨p, q, heq, hp, hq⟩ := vdevRaidzGenerateParityPq_spec h.lt h.size_dvd (hP.trans hQ.symm)
    have hdata : ∀ c, rm.rmFirstdatacol ≤ c → ((rm.setAbd vdevRaidzP p).setAbd vdevRaidzQ q).rmCol c = rm.rmCol c := by
      intro c hc
      rw [setAbd_ne _ _ (by unfold vdevRaidzQ; omega), setAbd_ne _ _ (by unfold vdevRaidzP; omega)]
    have hs : rm.SameShape ((rm.setAbd vdevRaidzP p).setAbd vdevRaidzQ q) := ⟨by simp, by simp, by simp⟩
    refine ⟨_, by simp only [hf, heq], hs, encoded_of_parity hs hdata ?_, by simp, hdata⟩
    intro e he k hk
    obtain rfl | rfl : e = vdevRaidzP ∨ e = vdevRaidzQ := by unfold vdevRaidzP vdevRaidzQ; omega
    · rw [setAbd_ne _ _ (by decide), setAbd_abd, hp k hk, vdevRaidzP, pow_zero]
    · rw [setAbd_abd, hq k hk, vdevRaidzQ, pow_one]
  · have hQ : (rm.rmCol vdevRaidzQ).rcSize = (rm.rmCol 0).rcSize := hsize 1 (by omega)
    have hR : (rm.rmCol vdevRaidzR).rcSize = (rm.rmCol 0).rcSize := hsize 2 (by omega)
    obtain ⟨p, q, r, heq, hp, hq, hr⟩ :=
      vdevRaidzGenerateParityPqr_spec h.lt h.size_dvd (hP.trans hQ.symm) (hP.trans hR.symm)
    have hdata : ∀ c, rm.rmFirstdatacol ≤ c →
        (((rm.setAbd vdevRaidzP p).setAbd vdevRaidzQ q).setAbd vdevRaidzR r).rmCol c = rm.rmCol c := by
      intro c hc
      rw [setAbd_ne _ _ (by unfold vdevRaidzR; omega), setAbd_ne _ _ (by unfold vdevRaidzQ; omega),
        setAbd_ne _ _ (by unfold vdevRaidzP; omega)]
    have hs : rm.SameShape (((rm.setAbd vdevRaidzP p).setAbd vdevRaidzQ q).setAbd vdevRaidzR r) :=
      ⟨by simp, by simp, by simp⟩
    refine ⟨_, by simp only [hf, heq], hs, encoded_of_parity hs hdata ?_, by simp, hdata⟩
    intro e he k hk
    obtain rfl | rfl | rfl : e = vdevRaidzP ∨ e = vdevRaidzQ ∨ e = vdevRaidzR := by
      unfold vdevRaidzP vdevRaidzQ vdevRaidzR; omega
    · rw [setAbd_ne _ _ (by decide), setAbd_ne _ _ (by decide), setAbd_abd, hp k hk, vdevRaidzP, pow_zero]
    · rw [setAbd_ne _ _ (by decide), setAbd_abd, hq k hk, vdevRaidzQ, pow_one]
    · rw [setAbd_abd, hr k hk, vdevRaidzR]

end Unleashed.Zfs
