import Unleashed.Lib.Elimination
import Unleashed.Zfs.Raidz.Reconstruct

/-!
# The matrix of the general case

The rows of the surviving parity are linear equations for the lost columns, inverted by Gauss-Jordan elimination on
logarithms: the code asserts that it never meets a zero.
-/

namespace Unleashed.Zfs

open Unleashed.Lib Function Finset Sum

/-- `uint8_t **`. -/
abbrev ByteRows := Nat → Nat → Byte

def ByteRows.set (rows : ByteRows) (i j : Nat) (b : Byte) : ByteRows :=
  Function.update rows i (Function.update (rows i) j b)

/-- The inner loop body of `vdev_raidz_matrix_init`. -/
def matrixInitEntry (e i j : Nat) (s : Int × ByteRows) : Int × ByteRows :=
  let pow := s.1 - e
  let pow := if pow < 0 then pow + 255 else pow
  (pow, s.2.set i j (vdevRaidzPow2 pow.toNat))

def vdevRaidzMatrixInit (rm : RaidzMap) (n nmap : Nat) (map : List Nat) (rows : ByteRows) : Except Fault ByteRows := do
  ASSERT (n = rm.rmCols - rm.rmFirstdatacol)
  forRangeM 0 nmap (fun i rows => do
    let e := map.getD i 0
    ASSERT (e ≤ 2)
    let pow : Int := e * n
    let pow := if pow > 255 then pow - 255 else pow
    ASSERT (pow ≤ 255)
    .ok (forRange 0 n (matrixInitEntry e i) (pow, rows)).2) rows

/-- Multiply row `i` by a power of two. -/
def scaleRow (n i log : Nat) (rows : ByteRows) : ByteRows :=
  forRange 0 n (fun j rows => rows.set i j (vdevRaidzExp2 (rows i j) log)) rows

/-- Subtract a multiple of row `i` from row `ii`. -/
def subtractRow (n i ii log : Nat) (rows : ByteRows) : ByteRows :=
  forRange 0 n (fun j rows => rows.set ii j (rows ii j ^^^ vdevRaidzExp2 (rows i j) log)) rows

/-- Step `i` of `vdev_raidz_matrix_invert`: normalize row `i` and subtract it. -/
def matrixInvertStep (n nmissing : Nat) (missing : List Nat) (i : Nat) (s : ByteRows × ByteRows) :
    Except Fault (ByteRows × ByteRows) := do
  let col := missing.getD i 0
  forRangeM 0 col (fun j (_ : Unit) => ASSERT (s.1 i j = 0)) ()
  ASSERT (s.1 i col ≠ 0)
  -- Compute the inverse of the first element and multiply each element by that value.
  let log := 255 - vdevRaidzLog2 (s.1 i col)
  let s := (scaleRow n i log s.1, scaleRow n i log s.2)
  forRangeM 0 nmissing (fun ii (s : ByteRows × ByteRows) =>
    if i = ii then .ok s
    else do
      ASSERT (s.1 ii col ≠ 0)
      let log := vdevRaidzLog2 (s.1 ii col)
      .ok (subtractRow n i ii log s.1, subtractRow n i ii log s.2)) s

def vdevRaidzMatrixInvert (rm : RaidzMap) (n nmissing : Nat) (missing : List Nat) (rows invrows : ByteRows)
    (used : List Nat) : Except Fault (ByteRows × ByteRows) := do
  -- The first entries of the used columns are parity columns, the subsequent ones data columns.
  forRangeM 0 nmissing (fun i (_ : Unit) => ASSERT (used.getD i 0 < rm.rmFirstdatacol)) ()
  forRangeM nmissing n (fun i (_ : Unit) => ASSERT (used.getD i 0 ≥ rm.rmFirstdatacol)) ()
  -- First initialize the storage where we'll compute the inverse rows.
  let invrows := forRange 0 nmissing (fun i invrows =>
    forRange 0 n (fun j invrows => invrows.set i j (if i = j then 1 else 0)) invrows) invrows
  -- Subtract all trivial rows from the rows of consequence.
  let s ← forRangeM 0 nmissing (fun i (s : ByteRows × ByteRows) =>
    forRangeM nmissing n (fun j (s : ByteRows × ByteRows) => do
      ASSERT (used.getD j 0 ≥ rm.rmFirstdatacol)
      let jj := used.getD j 0 - rm.rmFirstdatacol
      ASSERT (jj < n)
      .ok (s.1.set i jj 0, s.2.set i j (s.1 i jj))) s) (rows, invrows)
  let s ← forRangeM 0 nmissing (matrixInvertStep n nmissing missing) s
  -- The data that is left in the rows are part of an identity matrix.
  forRangeM 0 nmissing (fun i (_ : Unit) =>
    forRangeM 0 n (fun j (_ : Unit) =>
      if j = missing.getD i 0 then ASSERT (s.1 i j = 1) else ASSERT (s.1 i j = 0)) ()) ()
  .ok s

/-! ## Rows -/

lemma ByteRows.set_apply (rows : ByteRows) (i j : Nat) (b : Byte) (r c : Nat) :
    rows.set i j b r c = if r = i ∧ c = j then b else rows r c := by
  unfold ByteRows.set
  by_cases hr : r = i
  · subst hr
    rw [update_self]
    by_cases hc : c = j
    · rw [hc, update_self, if_pos ⟨rfl, rfl⟩]
    · rw [update_of_ne hc, if_neg fun h => hc h.2]
  · rw [update_of_ne hr, if_neg fun h => hr h.1]

variable {rows : ByteRows}

/-- A loop that writes row `i` from what has not been written yet. -/
lemma forRange_set {n i : Nat} {F : Nat → ByteRows → Byte} (f : Nat → Byte)
    (hF : ∀ j < n, ∀ m : ByteRows, (∀ r c, r ≠ i ∨ j ≤ c → m r c = rows r c) → F j m = f j) (r c : Nat) :
    forRange 0 n (fun j m => m.set i j (F j m)) rows r c = if r = i ∧ c < n then f c else rows r c := by
  refine forRange_rule (fun j (m : ByteRows) => ∀ r c, m r c = if r = i ∧ c < j then f c else rows r c)
    (Nat.zero_le n) ?_ ?_ r c
  · intro r c
    rw [if_neg fun h => Nat.not_lt_zero c h.2]
  · intro j m _ hj ih r c
    have hval : F j m = f j := by
      apply hF j hj
      rintro r c h
      rw [ih, if_neg]
      rintro ⟨hr, hc⟩
      rcases h with h | h
      · exact h hr
      · omega
    rw [ByteRows.set_apply, hval, ih]
    by_cases hr : r = i
    · by_cases hc : c = j
      · rw [if_pos ⟨hr, hc⟩, if_pos ⟨hr, by omega⟩, hc]
      · rw [if_neg fun h => hc h.2]
        exact if_congr (by omega) rfl rfl
    · rw [if_neg fun h => hr h.1, if_neg fun h => hr h.1, if_neg fun h => hr h.1]

lemma scaleRow_apply (n i log : Nat) (rows : ByteRows) (r c : Nat) :
    scaleRow n i log rows r c = if r = i ∧ c < n then vdevRaidzExp2 (rows i c) log else rows r c :=
  forRange_set (F := fun j m => vdevRaidzExp2 (m i j) log) (fun c => vdevRaidzExp2 (rows i c) log)
    (fun j _ m hm => by rw [hm i j (.inr le_rfl)]) r c

lemma subtractRow_apply {n i ii log : Nat} (hne : i ≠ ii) (rows : ByteRows) (r c : Nat) : subtractRow n i ii log rows r c =
      if r = ii ∧ c < n then rows ii c ^^^ vdevRaidzExp2 (rows i c) log else rows r c :=
  forRange_set (F := fun j m => m ii j ^^^ vdevRaidzExp2 (m i j) log)
    (fun c => rows ii c ^^^ vdevRaidzExp2 (rows i c) log) (fun j _ m hm => by rw [hm ii j (.inr le_rfl), hm i j (.inl hne)]) r c

/-! ## The rows of the parity -/

variable {j : Nat}

section
variable {n e i : Nat}

/-- In row `i` the exponent stays below 256 and counts down. -/
structure RowInv (rows : ByteRows) (n e i j : Nat) (s : Int × ByteRows) : Prop where
  nonneg : 0 ≤ s.1
  le : s.1 ≤ 255
  pow : gfTwo ^ s.1.toNat = gfTwo ^ (e * (n - j))
  entry : ∀ c < j, gf (s.2 i c) = (gfTwo ^ e) ^ (n - 1 - c)
  other : ∀ r, r ≠ i → s.2 r = rows r

lemma matrixInitEntry_inv {s : Int × ByteRows} (he : e ≤ 2) (hj : j < n)
    (h : RowInv rows n e i j s) : RowInv rows n e i (j + 1) (matrixInitEntry e i j s) := by
  obtain ⟨h0, h255, hpow, hentry, hother⟩ := h
  unfold matrixInitEntry
  dsimp only
  generalize hp : (if s.1 - (e : Int) < 0 then s.1 - e + 255 else s.1 - e) = p
  have hp0 : 0 ≤ p := by rw [← hp]; split_ifs <;> omega
  have hp255 : p ≤ 255 := by rw [← hp]; split_ifs <;> omega
  have hexp : e * (n - j) = e * (n - (j + 1)) + e := by
    rw [← Nat.mul_succ]
    congr 1
    omega
  have hnext : gfTwo ^ p.toNat = gfTwo ^ (e * (n - (j + 1))) := by
    apply mul_right_cancel₀ (pow_ne_zero e gfTwo_ne_zero)
    rw [← pow_add gfTwo (e * _), ← hexp, ← hpow, ← pow_add]
    by_cases hneg : s.1 - (e : Int) < 0
    · rw [if_pos hneg] at hp
      rw [show p.toNat + e = s.1.toNat + 255 by omega, pow_add, gfTwo_pow_order, mul_one]
    · rw [if_neg hneg] at hp
      rw [show p.toNat + e = s.1.toNat by omega]
  refine ⟨hp0, hp255, hnext, fun c hc => ?_, fun r hr => ?_⟩
  · dsimp only
    rw [ByteRows.set_apply]
    by_cases hcj : c = j
    · rw [if_pos ⟨rfl, hcj⟩, gf_pow2 (by omega), hnext, ← pow_mul, hcj]
      congr 2
      omega
    · rw [if_neg fun h => hcj h.2]
      exact hentry c (by omega)
  · funext c
    dsimp only
    rw [ByteRows.set_apply, if_neg fun h => hr h.1, hother r hr]

/-- **`vdev_raidz_matrix_init`** fills in the coefficients of the parity columns. -/
theorem vdevRaidzMatrixInit_spec (rm : RaidzMap) (map : List Nat) (nmap : Nat) (hn : n = rm.rmCols - rm.rmFirstdatacol)
    (hn254 : n ≤ 254) (hmap : ∀ i < nmap, map.getD i 0 ≤ 2) (rows : ByteRows) :
    ∃ rows', vdevRaidzMatrixInit rm n nmap map rows = .ok rows' ∧
      ∀ i < nmap, ∀ j < n, gf (rows' i j) = (gfTwo ^ map.getD i 0) ^ (n - 1 - j) := by
  unfold vdevRaidzMatrixInit
  rw [ASSERT_bind hn]
  refine forRangeM_rule (fun i (rows' : ByteRows) => ∀ r < i, ∀ j < n,
    gf (rows' r j) = (gfTwo ^ map.getD r 0) ^ (n - 1 - j)) (Nat.zero_le nmap)
    (fun r hr => absurd hr (Nat.not_lt_zero r)) fun i rows' _ hi ih => ?_
  have he := hmap i hi
  dsimp only
  rw [ASSERT_bind he]
  generalize hp : (if ((map.getD i 0 : Nat) : Int) * (n : Int) > 255 then _ else _) = p
  -- the exponent of the first entry, reduced once
  have hprod : map.getD i 0 * n ≤ 508 := (Nat.mul_le_mul he hn254).trans (by decide)
  have hcast : ((map.getD i 0 : Nat) : Int) * (n : Int) = ((map.getD i 0 * n : Nat) : Int) := by push_cast; rfl
  rw [hcast] at hp
  have hp0 : 0 ≤ p := by rw [← hp]; split_ifs <;> omega
  have hp255 : p ≤ 255 := by rw [← hp]; split_ifs <;> omega
  have hpow : gfTwo ^ p.toNat = gfTwo ^ (map.getD i 0 * (n - 0)) := by
    rw [Nat.sub_zero]
    by_cases hgt : ((map.getD i 0 * n : Nat) : Int) > 255
    · rw [if_pos hgt] at hp
      rw [show map.getD i 0 * n = p.toNat + 255 by omega, pow_add, gfTwo_pow_order, mul_one]
    · rw [if_neg hgt] at hp
      rw [show map.getD i 0 * n = p.toNat by omega]
  rw [ASSERT_bind hp255]
  have hrow := forRange_rule (RowInv rows' n (map.getD i 0) i) (s := (p, rows')) (Nat.zero_le n)
    ⟨hp0, hp255, hpow, fun c hc => absurd hc (Nat.not_lt_zero c), fun _ _ => rfl⟩
    fun j s _ hj h => matrixInitEntry_inv he hj h
  refine ⟨_, rfl, fun r hr j hj => ?_⟩
  by_cases hri : r = i
  · rw [hri]
    exact hrow.entry j hj
  · rw [hrow.other r hri]
    exact ih r (by omega) j hj

end

/-! ## The system of equations -/

/-- The choice for `t` of `n` data columns missing: as many parity columns, then the data left. -/
structure Selection (first n t : Nat) (missing parityMap used : List Nat) : Prop where
  le : t ≤ n
  missing_lt : ∀ k < t, missing.getD k 0 < n
  missing_mono : ∀ k l, k < l → l < t → missing.getD k 0 < missing.getD l 0
  parity_lt : ∀ k < t, parityMap.getD k 0 < first
  parity_inj : ∀ k l, k < t → l < t → parityMap.getD k 0 = parityMap.getD l 0 → k = l
  used_parity : ∀ k < t, used.getD k 0 = parityMap.getD k 0
  used_first : ∀ j, t ≤ j → j < n → first ≤ used.getD j 0
  used_lt : ∀ j, t ≤ j → j < n → used.getD j 0 < n + first
  used_ne : ∀ j k, t ≤ j → j < n → k < t → used.getD j 0 ≠ missing.getD k 0 + first
  used_inj : ∀ j l, t ≤ j → j < n → t ≤ l → l < n → used.getD j 0 = used.getD l 0 → j = l
  used_surj : ∀ c < n, (∀ k < t, missing.getD k 0 ≠ c) → ∃ j, t ≤ j ∧ j < n ∧ used.getD j 0 = c + first

variable {s0 : ByteRows × ByteRows}

section
variable {first n t : Nat} {missing parityMap used : List Nat}

/-- Row `i` with the used data columns before `j` moved over. -/
structure RowMoved (used : List Nat) (first t i : Nat) (s0 : ByteRows × ByteRows) (j : Nat)
    (s : ByteRows × ByteRows) : Prop where
  cleared : ∀ l, t ≤ l → l < j → s.1 i (used.getD l 0 - first) = 0
  kept : ∀ c, (∀ l, t ≤ l → l < j → used.getD l 0 - first ≠ c) → s.1 i c = s0.1 i c
  moved : ∀ l, t ≤ l → l < j → s.2 i l = s0.1 i (used.getD l 0 - first)
  fixed : ∀ l, ¬ (t ≤ l ∧ l < j) → s.2 i l = s0.2 i l

/-- What the loop over row `i` keeps. -/
structure MoveInv (used : List Nat) (first t i : Nat) (s0 : ByteRows × ByteRows) (j : Nat)
    (s : ByteRows × ByteRows) : Prop extends RowMoved used first t i s0 j s where
  other : ∀ r, r ≠ i → s.1 r = s0.1 r ∧ s.2 r = s0.2 r

lemma RowMoved.congr {i : Nat} {s1 s s' : ByteRows × ByteRows} (h : RowMoved used first t i s0 j s)
    (h0 : s1.1 i = s0.1 i ∧ s1.2 i = s0.2 i) (h' : s'.1 i = s.1 i ∧ s'.2 i = s.2 i) : RowMoved used first t i s1 j s' := by
  obtain ⟨h1, h2, h3, h4⟩ := h
  constructor <;> simp only [h0.1, h0.2, h'.1, h'.2] <;> assumption

lemma Selection.moveRow (h : Selection first n t missing parityMap used) (i : Nat) (s0 : ByteRows × ByteRows) :
    ∃ s, forRangeM t n (fun j (s : ByteRows × ByteRows) => do
        ASSERT (used.getD j 0 ≥ first)
        let jj := used.getD j 0 - first
        ASSERT (jj < n)
        .ok (s.1.set i jj 0, s.2.set i j (s.1 i jj))) s0 = .ok s ∧ MoveInv used first t i s0 n s := by
  apply forRangeM_rule (MoveInv used first t i s0) h.le
  · exact ⟨⟨fun l h1 h2 => absurd h1 (by omega), fun _ _ => rfl, fun l h1 h2 => absurd h1 (by omega),
      fun _ _ => rfl⟩, fun _ _ => ⟨rfl, rfl⟩⟩
  · intro j s htj hjn ih
    have hf := h.used_first j htj hjn
    have hlt := h.used_lt j htj hjn
    have hjj : used.getD j 0 - first < n := by omega
    -- the columns before are others
    have hne : ∀ l, t ≤ l → l < j → used.getD l 0 - first ≠ used.getD j 0 - first := by
      intro l h1 h2 heq
      have := h.used_first l h1 (by omega)
      have := h.used_inj l j h1 (by omega) htj hjn (by omega)
      omega
    rw [ASSERT_bind hf, ASSERT_bind hjj]
    refine ⟨_, rfl, ⟨?_, ?_, ?_, ?_⟩, ?_⟩
    · intro l h1 h2
      dsimp only
      rw [ByteRows.set_apply]
      split_ifs with hl
      · rfl
      · exact ih.cleared l h1 (by
          rcases Nat.lt_succ_iff_lt_or_eq.1 h2 with h2 | rfl
          · exact h2
          · exact absurd ⟨rfl, rfl⟩ hl)
    · intro c hc
      dsimp only
      rw [ByteRows.set_apply, if_neg fun h => hc j htj (Nat.lt_succ_self j) h.2.symm]
      exact ih.kept c fun l h1 h2 => hc l h1 (Nat.lt_succ_of_lt h2)
    · intro l h1 h2
      dsimp only
      rw [ByteRows.set_apply]
      by_cases hl : l = j
      · rw [if_pos ⟨rfl, hl⟩, hl]
        exact ih.kept _ hne
      · rw [if_neg fun h => hl h.2]
        exact ih.moved l h1 (by omega)
    · intro l hl
      dsimp only
      rw [ByteRows.set_apply, if_neg]
      · exact ih.fixed l (by omega)
      · rintro ⟨-, rfl⟩
        exact hl ⟨htj, Nat.lt_succ_self l⟩
    · intro r hr
      constructor
      · funext c
        dsimp only
        rw [ByteRows.set_apply, if_neg fun h => hr h.1, (ih.other r hr).1]
      · funext c
        dsimp only
        rw [ByteRows.set_apply, if_neg fun h => hr h.1, (ih.other r hr).2]

/-- The trivial rows are subtracted from all rows of consequence. -/
lemma Selection.moveRows (h : Selection first n t missing parityMap used) (s0 : ByteRows × ByteRows) :
    ∃ s, forRangeM 0 t (fun i (s : ByteRows × ByteRows) =>
        forRangeM t n (fun j (s : ByteRows × ByteRows) => do
          ASSERT (used.getD j 0 ≥ first)
          let jj := used.getD j 0 - first
          ASSERT (jj < n)
          .ok (s.1.set i jj 0, s.2.set i j (s.1 i jj))) s) s0 = .ok s ∧
      ∀ i < t, RowMoved used first t i s0 n s := by
  have hrun := forRangeM_rule (fun i (s : ByteRows × ByteRows) => (∀ r < i, RowMoved used first t r s0 n s) ∧
      ∀ r, i ≤ r → s.1 r = s0.1 r ∧ s.2 r = s0.2 r) (s := s0) (Nat.zero_le t)
    ⟨fun r hr => absurd hr (Nat.not_lt_zero r), fun _ _ => ⟨rfl, rfl⟩⟩ fun i s _ hi ih => by
      obtain ⟨s', heq, hinv⟩ := h.moveRow i s
      refine ⟨s', heq, fun r hr => ?_, fun r hr => ?_⟩
      · by_cases hri : r = i
        · subst hri
          have := ih.2 r le_rfl
          exact hinv.toRowMoved.congr ⟨this.1.symm, this.2.symm⟩ ⟨rfl, rfl⟩
        · exact (ih.1 r (by omega)).congr ⟨rfl, rfl⟩ (hinv.other r hri)
      · have := hinv.other r (by omega)
        have := ih.2 r (by omega)
        grind
  obtain ⟨s, heq, hs, -⟩ := hrun
  exact ⟨s, heq, hs⟩

end

/-! ## Elimination -/

variable {r : Nat}

section

open Elimination

variable {n t : Nat} {missing : List Nat}

/-- The coefficients of the used columns, and of the missing ones. -/
def augmented (n t : Nat) (missing : List Nat) (s : ByteRows × ByteRows) : Fin t → Fin n ⊕ Fin t → Gf :=
  fun r => Sum.elim (fun j => gf (s.2 r j)) fun k => gf (s.1 r (missing.getD k 0))

/-- After `i` steps the missing columns have replaced parity columns. -/
def pivots (hle : t ≤ n) (i : Nat) (r : Fin t) : Fin n ⊕ Fin t :=
  if (r : Nat) < i then .inr r else .inl (r.castLE hle)

lemma pivots_succ (hle : t ≤ n) {i : Nat} (hi : i < t) :
    pivots hle (i + 1) = update (pivots hle i) ⟨i, hi⟩ (.inr ⟨i, hi⟩) := by
  funext r
  unfold pivots
  by_cases hr : r = ⟨i, hi⟩
  · rw [hr, update_self, if_pos (Nat.lt_succ_self i)]
  · have hne : (r : Nat) ≠ i := fun h => hr (Fin.ext h)
    rw [update_of_ne hr]
    exact if_congr (by omega) rfl rfl

/-- What Gauss-Jordan elimination keeps. -/
structure ElimInv (hle : t ≤ n) (missing : List Nat) (A0 : Fin t → Fin n ⊕ Fin t → Gf) (i : Nat)
    (s : ByteRows × ByteRows) : Prop where
  null : ∀ x, Null (augmented n t missing s) x ↔ Null A0 x
  unit : UnitColumns (augmented n t missing s) (pivots hle i)
  zero : ∀ r < t, ∀ c < n, (∀ k < t, missing.getD k 0 ≠ c) → s.1 r c = 0

variable {hle : t ≤ n} {A0 : Fin t → Fin n ⊕ Fin t → Gf} {i : Nat} {s : ByteRows × ByteRows}

/-- No coefficient of a column that is not a unit column is zero. -/
lemma ElimInv.entry_ne_zero (h : ElimInv hle missing A0 i s) (hA : Separating A0) {c : Fin n ⊕ Fin t}
    (hc : ∀ r, pivots hle i r ≠ c) (r : Fin t) : augmented n t missing s r c ≠ 0 :=
  Elimination.entry_ne_zero hA (fun x => (h.null x).1) h.unit hc r

lemma ElimInv.pivot_ne_zero (h : ElimInv hle missing A0 i s) (hA : Separating A0) (hi : i < t)
    (hr : r < t) : s.1 r (missing.getD i 0) ≠ 0 := by
  have hne := h.entry_ne_zero hA (c := .inr ⟨i, hi⟩) (fun q => ?_) ⟨r, hr⟩
  · exact mt gf_eq_zero.2 hne
  · unfold pivots
    split_ifs with hq
    · rintro heq
      have := congrArg Fin.val (inr.inj heq)
      exact absurd this hq.ne
    · exact inl_ne_inr

lemma ElimInv.before_pivot (h : ElimInv hle missing A0 i s) (hi : i < t)
    (hmono : ∀ k l, k < l → l < t → missing.getD k 0 < missing.getD l 0)
    (hlt : ∀ k < t, missing.getD k 0 < n) (hj : j < missing.getD i 0) : s.1 i j = 0 := by
  by_cases hex : ∃ k < t, missing.getD k 0 = j
  · obtain ⟨k, hk, rfl⟩ := hex
    have hki : k < i := by
      by_contra hge
      rcases Nat.lt_or_eq_of_le (not_lt.1 hge) with h1 | h1
      · have := hmono i k h1 hk
        omega
      · rw [h1] at hj
        exact absurd hj (lt_irrefl _)
    have hunit := h.unit ⟨i, hi⟩ ⟨k, hk⟩
    rw [pivots, if_pos hki, if_neg (by intro heq; have := congrArg Fin.val heq; simp at this; omega)] at hunit
    exact gf_eq_zero.1 hunit
  · push Not at hex
    exact h.zero i hi j (hj.trans (hlt i hi)) hex

/-- One entry of either matrix after `m` rows of step `i`. -/
def stepEntry (s : ByteRows × ByteRows) (i col m : Nat) (rows : ByteRows) (r c : Nat) : Byte :=
  let scaled := vdevRaidzExp2 (rows i c) (255 - vdevRaidzLog2 (s.1 i col))
  if r = i then scaled
  else if r < m then rows r c ^^^ vdevRaidzExp2 scaled (vdevRaidzLog2 (s.1 r col))
  else rows r c

lemma matrixInvertStep_eq (hcol : missing.getD i 0 < n) (hbefore : ∀ j < missing.getD i 0, s.1 i j = 0)
    (hpivot : ∀ r < t, s.1 r (missing.getD i 0) ≠ 0) (hi : i < t) :
    ∃ s', matrixInvertStep n t missing i s = .ok s' ∧ ∀ r c, c < n →
      s'.1 r c = stepEntry s i (missing.getD i 0) t s.1 r c ∧ s'.2 r c = stepEntry s i (missing.getD i 0) t s.2 r c := by
  unfold matrixInvertStep
  dsimp only
  rw [forRangeM_check (Nat.zero_le _) fun j _ hj => ASSERT_eq_ok.2 (hbefore j hj), ok_bind, ASSERT_bind (hpivot i hi)]
  refine forRangeM_rule (fun m (s' : ByteRows × ByteRows) => ∀ r c, c < n →
    s'.1 r c = stepEntry s i (missing.getD i 0) m s.1 r c ∧ s'.2 r c = stepEntry s i (missing.getD i 0) m s.2 r c)
    (Nat.zero_le t) (fun r c hc => ?_) fun ii s' _ hii ih => ?_
  · simp only [scaleRow_apply, stepEntry, Nat.not_lt_zero, if_false]
    by_cases hr : r = i
    · rw [if_pos ⟨hr, hc⟩, if_pos hr, if_pos ⟨hr, hc⟩, if_pos hr]
      exact ⟨rfl, rfl⟩
    · rw [if_neg fun h => hr h.1, if_neg hr, if_neg fun h => hr h.1, if_neg hr]
      exact ⟨rfl, rfl⟩
  · by_cases hne : i = ii
    · rw [if_pos hne]
      refine ⟨s', rfl, fun r c hc => ?_⟩
      have hsame : ∀ rows : ByteRows, stepEntry s i (missing.getD i 0) (ii + 1) rows r c =
          stepEntry s i (missing.getD i 0) ii rows r c := by
        intro rows
        unfold stepEntry
        split_ifs <;> first | rfl | omega
      rw [hsame, hsame]
      exact ih r c hc
    · rw [if_neg hne]
      have hent : s'.1 ii (missing.getD i 0) = s.1 ii (missing.getD i 0) := by
        rw [(ih ii _ hcol).1, stepEntry, if_neg (Ne.symm hne), if_neg (lt_irrefl _)]
      rw [hent, ASSERT_bind (hpivot ii hii)]
      refine ⟨_, rfl, fun r c hc => ?_⟩
      have hsub : ∀ rows rows' : ByteRows, (∀ r, rows' r c = stepEntry s i (missing.getD i 0) ii rows r c) →
          subtractRow n i ii (vdevRaidzLog2 (s.1 ii (missing.getD i 0))) rows' r c =
            stepEntry s i (missing.getD i 0) (ii + 1) rows r c := by
        intro rows rows' hrows
        rw [subtractRow_apply hne, hrows, hrows, hrows]
        unfold stepEntry
        dsimp only
        by_cases hr : r = ii
        · subst hr
          rw [if_pos ⟨rfl, hc⟩, if_neg (Ne.symm hne), if_neg (lt_irrefl _), if_pos rfl, if_neg (Ne.symm hne),
            if_pos (Nat.lt_succ_self _)]
        · rw [if_neg fun h => hr h.1]
          split_ifs <;> first | rfl | omega
      exact ⟨hsub s.1 s'.1 fun r => (ih r c hc).1, hsub s.2 s'.2 fun r => (ih r c hc).2⟩

/-- **A step of the elimination** is a pivot step that meets no zero. -/
theorem matrixInvertStep_inv (h : ElimInv hle missing A0 i s) (hA : Separating A0) (hi : i < t)
    (hmono : ∀ k l, k < l → l < t → missing.getD k 0 < missing.getD l 0) (hlt : ∀ k < t, missing.getD k 0 < n) :
    ∃ s', matrixInvertStep n t missing i s = .ok s' ∧ ElimInv hle missing A0 (i + 1) s' := by
  have hpivot := fun r => h.pivot_ne_zero hA hi (r := r)
  obtain ⟨s', heq, hs'⟩ := matrixInvertStep_eq (hlt i hi) (fun j hj => h.before_pivot hi hmono hlt hj) hpivot hi
  have hb : augmented n t missing s ⟨i, hi⟩ (.inr ⟨i, hi⟩) ≠ 0 := mt gf_eq_zero.1 (hpivot i hi)
  -- the entries of the code are those of the abstract step
  have hentry : ∀ (rows : ByteRows) (r : Fin t) (c : Nat), gf (stepEntry s i (missing.getD i 0) t rows r c) =
      if r = ⟨i, hi⟩ then gf (rows i c) / gf (s.1 i (missing.getD i 0))
      else gf (rows r c) - gf (s.1 r (missing.getD i 0)) * (gf (rows i c) / gf (s.1 i (missing.getD i 0))) := by
    intro rows r c
    have hscaled : gf (vdevRaidzExp2 (rows i c) (255 - vdevRaidzLog2 (s.1 i (missing.getD i 0)))) =
        gf (rows i c) / gf (s.1 i (missing.getD i 0)) := by
      rw [gf_exp2_compl _ (vdevRaidzLog2_lt _).le, gfTwo_pow_log2 (hpivot i hi)]
    unfold stepEntry
    by_cases hr : (r : Nat) = i
    · rw [if_pos hr, if_pos (Fin.ext hr), hscaled]
    · rw [if_neg hr, if_pos r.isLt, if_neg fun h => hr (congrArg Fin.val h), gf_xor,
        gf_exp2_log2 _ (hpivot r r.isLt), hscaled, CharTwo.sub_eq_add, mul_comm (gf (s.1 r _))]
  have haug : augmented n t missing s' = pivotStep (augmented n t missing s) ⟨i, hi⟩ (.inr ⟨i, hi⟩) := by
    funext r c
    unfold pivotStep
    cases c with
    | inl j =>
      simp only [augmented, Sum.elim_inl, Sum.elim_inr]
      rw [(hs' r j j.isLt).2, hentry]
    | inr k =>
      simp only [augmented, Sum.elim_inr]
      rw [(hs' r _ (hlt k k.isLt)).1, hentry]
  refine ⟨s', heq, fun x => ?_, ?_, fun r hr c hc hne => ?_⟩
  · rw [haug, null_pivotStep hb]
    exact h.null x
  · rw [haug, pivots_succ hle hi]
    exact h.unit.pivotStep hb
  · rw [(hs' r c hc).1, ← gf_eq_zero, hentry s.1 ⟨r, hr⟩, h.zero i hi c hc hne]
    simp only [h.zero r hr c hc hne, gf_zero, zero_div, mul_zero, sub_zero, ite_self]

end

/-! ## The inverse -/

section

open Elimination

variable {first n t : Nat} {missing parityMap used : List Nat} {k : Nat}

section
variable (h : Selection first n t missing parityMap used)
include h

lemma Selection.missing_inj {l : Nat} (hk : k < t) (hl : l < t)
    (heq : missing.getD k 0 = missing.getD l 0) : k = l := by
  rcases Nat.lt_trichotomy k l with hlt | rfl | hlt
  · exact absurd heq (h.missing_mono k l hlt hl).ne
  · rfl
  · exact absurd heq (h.missing_mono l k hlt hk).ne'

lemma Selection.sum_data (f : Nat → Gf) : ∑ c ∈ range n, f c =
      ∑ j ∈ Finset.Ico t n, f (used.getD j 0 - first) + ∑ k ∈ range t, f (missing.getD k 0) := by
  have hunion : range n = (Finset.Ico t n).image (fun j => used.getD j 0 - first) ∪
      (range t).image fun k => missing.getD k 0 := by
    ext c
    simp only [mem_union, mem_image, mem_Ico, mem_range]
    constructor
    · intro hc
      by_cases hm : ∃ k < t, missing.getD k 0 = c
      · exact .inr hm
      · push Not at hm
        obtain ⟨j, hj, hjn, hu⟩ := h.used_surj c hc hm
        exact .inl ⟨j, ⟨hj, hjn⟩, by omega⟩
    · rintro (⟨j, ⟨hj, hjn⟩, rfl⟩ | ⟨k, hk, rfl⟩)
      · have := h.used_lt j hj hjn
        omega
      · exact h.missing_lt k hk
  have hdisj : Disjoint ((Finset.Ico t n).image fun j => used.getD j 0 - first)
      ((range t).image fun k => missing.getD k 0) := by
    rw [disjoint_left]
    intro c hu hm
    simp only [mem_image, mem_Ico, mem_range] at hu hm
    obtain ⟨j, ⟨hj, hjn⟩, rfl⟩ := hu
    obtain ⟨k, hk, hkc⟩ := hm
    have := h.used_first j hj hjn
    exact h.used_ne j k hj hjn hk (by omega)
  rw [hunion, sum_union hdisj, sum_image, sum_image]
  · intro k hk l hl
    exact h.missing_inj (mem_range.1 hk) (mem_range.1 hl)
  · intro j hj l hl heq
    obtain ⟨hj, hjn⟩ := mem_Ico.1 hj
    obtain ⟨hl, hln⟩ := mem_Ico.1 hl
    have := h.used_first j hj hjn
    have := h.used_first l hl hln
    exact h.used_inj j l hj hjn hl hln (by dsimp only at heq; omega)

/-- The node of a column of the system: none for a parity column. -/
def node (first n t : Nat) (missing used : List Nat) : Fin n ⊕ Fin t → Fin t ⊕ Gf :=
  Sum.elim (fun j => if h : (j : Nat) < t then .inl ⟨j, h⟩ else .inr (gfTwo ^ (n - 1 - (used.getD j 0 - first))))
    fun k => .inr (gfTwo ^ (n - 1 - missing.getD k 0))

lemma Selection.node_inj (hn : n ≤ 254) :
    Function.Injective (node first n t missing used) := by
  have hexp : ∀ a b : Nat, a < n → b < n → gfTwo ^ (n - 1 - a) = gfTwo ^ (n - 1 - b) → a = b := by
    intro a b ha hb heq
    have := gfTwo_pow_inj (by omega) (by omega) heq
    omega
  have hused : ∀ j : Fin n, ¬ (j : Nat) < t → used.getD j 0 - first < n ∧ first ≤ used.getD j 0 := by
    intro j hj
    have h1 := h.used_lt j (by omega) j.isLt
    have h2 := h.used_first j (by omega) j.isLt
    omega
  rintro (j | k) (l | m) heq
  · simp only [node, Sum.elim_inl] at heq
    split_ifs at heq with hj hl hl
    · have := congrArg Fin.val (Sum.inl.inj heq)
      exact congrArg inl (Fin.ext this)
    · have hj' := hused j hj
      have hl' := hused l hl
      have := hexp _ _ hj'.1 hl'.1 (inr.inj heq)
      have := h.used_inj j l (by omega) j.isLt (by omega) l.isLt (by omega)
      exact congrArg Sum.inl (Fin.ext this)
  · simp only [node, Sum.elim_inl, Sum.elim_inr] at heq
    split_ifs at heq with hj
    have hj' := hused j hj
    have := hexp _ _ hj'.1 (h.missing_lt m m.isLt) (inr.inj heq)
    exact absurd (by omega) (h.used_ne j m (by omega) j.isLt m.isLt)
  · simp only [node, Sum.elim_inl, Sum.elim_inr] at heq
    split_ifs at heq with hl
    have hl' := hused l hl
    have := hexp _ _ (h.missing_lt k k.isLt) hl'.1 (inr.inj heq)
    exact absurd (by omega) (h.used_ne l k (by omega) l.isLt k.isLt)
  · simp only [node, Sum.elim_inr] at heq
    have := hexp _ _ (h.missing_lt k k.isLt) (h.missing_lt m m.isLt) (Sum.inr.inj heq)
    exact congrArg inr (Fin.ext (h.missing_inj k.isLt m.isLt this))

/-- The system before the elimination. -/
structure System (first n t : Nat) (missing parityMap used : List Nat) (s : ByteRows × ByteRows) : Prop where
  unit : ∀ r < t, ∀ j < t, s.2 r j = if r = j then 1 else 0
  usedEntry : ∀ r < t, ∀ j, t ≤ j → j < n → gf (s.2 r j) = (gfTwo ^ parityMap.getD r 0) ^ (n - 1 - (used.getD j 0 - first))
  missingEntry : ∀ r < t, ∀ k < t, gf (s.1 r (missing.getD k 0)) = (gfTwo ^ parityMap.getD r 0) ^ (n - 1 - missing.getD k 0)
  zero : ∀ r < t, ∀ c < n, (∀ k < t, missing.getD k 0 ≠ c) → s.1 r c = 0

lemma Selection.system {s : ByteRows × ByteRows}
    (hmoved : ∀ i < t, RowMoved used first t i s0 n s) (hone : ∀ i < t, ∀ j < n, s0.2 i j = if i = j then 1 else 0)
    (hrows : ∀ i < t, ∀ j < n, gf (s0.1 i j) = (gfTwo ^ parityMap.getD i 0) ^ (n - 1 - j)) :
    System first n t missing parityMap used s where
  unit r hr j hj := by
    rw [(hmoved r hr).fixed j (by omega)]
    exact hone r hr j (hj.trans_le h.le)
  usedEntry r hr j hj hjn := by
    have := h.used_lt j hj hjn
    rw [(hmoved r hr).moved j hj hjn, hrows r hr _ (by omega)]
  missingEntry r hr k hk := by
    rw [(hmoved r hr).kept, hrows r hr _ (h.missing_lt k hk)]
    intro l hl hln heq
    have := h.used_first l hl hln
    exact h.used_ne l k hl hln hk (by omega)
  zero r hr c hc hm := by
    obtain ⟨j, hj, hjn, hu⟩ := h.used_surj c hc hm
    have := (hmoved r hr).cleared j hj hjn
    rwa [show used.getD j 0 - first = c by omega] at this

variable {s : ByteRows × ByteRows}

lemma System.separating (hs : System first n t missing parityMap used s) (hfirst : first ≤ 3) (hn : n ≤ 254) :
    Separating (augmented n t missing s) := by
  apply separating_of_powers (e := fun r => parityMap.getD r 0) (φ := node first n t missing used)
  · intro k l heq
    exact Fin.ext (h.parity_inj k l k.isLt l.isLt heq)
  · intro r
    have := h.parity_lt r r.isLt
    omega
  · exact h.node_inj hn
  · rintro (j | k) a ha
    · simp only [node, Sum.elim_inl] at ha
      split_ifs at ha
      rw [← Sum.inr.inj ha]
      exact pow_ne_zero _ gfTwo_ne_zero
    · simp only [node, Sum.elim_inr] at ha
      rw [← Sum.inr.inj ha]
      exact pow_ne_zero _ gfTwo_ne_zero
  · exact gf_sq_inj
  · rintro r (j | k)
    · simp only [augmented, node, Sum.elim_inl]
      split_ifs with hj
      · rw [hs.unit r r.isLt j hj, powerEntry]
        split_ifs with h1 h2 h2
        · exact gf_one
        · exact absurd (Fin.ext h1) h2
        · exact absurd (congrArg Fin.val h2) h1
        · exact gf_zero
      · rw [hs.usedEntry r r.isLt j (by omega) j.isLt, powerEntry, ← pow_mul, ← pow_mul, mul_comm]
    · simp only [augmented, node, Sum.elim_inr]
      rw [hs.missingEntry r r.isLt k k.isLt, powerEntry, ← pow_mul, ← pow_mul, mul_comm]

/-- The values of the used and of the missing columns. -/
def columnValues (first n t : Nat) (missing used : List Nat) (S : Nat → Gf) : Fin n ⊕ Fin t → Gf :=
  Sum.elim (fun j => S (used.getD j 0)) fun k => S (missing.getD k 0 + first)

lemma System.null (hs : System first n t missing parityMap used s)
    {S : Nat → Gf} (hS : ∀ r < t, S (parityMap.getD r 0) =
      ∑ c ∈ Finset.range n, (gfTwo ^ parityMap.getD r 0) ^ (n - 1 - c) * S (c + first)) :
    Null (augmented n t missing s) (columnValues first n t missing used S) := by
  intro r
  have hparity : ∑ j ∈ range t, gf (s.2 r j) * S (used.getD j 0) = S (parityMap.getD r 0) := by
    rw [sum_eq_single_of_mem (r : Nat) (mem_range.2 r.isLt)]
    · rw [hs.unit r r.isLt r r.isLt, if_pos rfl, gf_one, one_mul, h.used_parity r r.isLt]
    · intro j hj hne
      rw [hs.unit r r.isLt j (mem_range.1 hj), if_neg hne.symm, gf_zero, zero_mul]
  have hused : ∑ j ∈ Finset.Ico t n, gf (s.2 r j) * S (used.getD j 0) =
      ∑ j ∈ Finset.Ico t n, (gfTwo ^ parityMap.getD r 0) ^ (n - 1 - (used.getD j 0 - first)) *
        S (used.getD j 0 - first + first) := by
    apply sum_congr rfl
    intro j hj
    obtain ⟨hj, hjn⟩ := mem_Ico.1 hj
    rw [hs.usedEntry r r.isLt j hj hjn, Nat.sub_add_cancel (h.used_first j hj hjn)]
  have hmissing : ∑ k ∈ range t, gf (s.1 r (missing.getD k 0)) * S (missing.getD k 0 + first) =
      ∑ k ∈ range t, (gfTwo ^ parityMap.getD r 0) ^ (n - 1 - missing.getD k 0) * S (missing.getD k 0 + first) := by
    apply sum_congr rfl
    intro k hk
    rw [hs.missingEntry r r.isLt k (mem_range.1 hk)]
  rw [Fintype.sum_sum_type]
  simp only [augmented, columnValues, Sum.elim_inl, Sum.elim_inr]
  rw [Fin.sum_univ_eq_sum_range (fun j => gf (s.2 r j) * S (used.getD j 0)),
    Fin.sum_univ_eq_sum_range (fun k => gf (s.1 r (missing.getD k 0)) * S (missing.getD k 0 + first)),
    ← sum_range_add_sum_Ico _ h.le, hparity, hused, hmissing, add_assoc,
    ← h.sum_data fun c => (gfTwo ^ parityMap.getD r 0) ^ (n - 1 - c) * S (c + first), ← hS r r.isLt,
    CharTwo.add_self_eq_zero]

end

lemma System.elimInv (hs : System first n t missing parityMap used s) (hle : t ≤ n) :
    ElimInv hle missing (augmented n t missing s) 0 s where
  null _ := Iff.rfl
  unit r q := by
    rw [pivots, if_neg (Nat.not_lt_zero _)]
    simp only [augmented, Sum.elim_inl, Fin.val_castLE]
    rw [hs.unit r r.isLt q q.isLt]
    by_cases hrq : r = q
    · rw [if_pos (congrArg Fin.val hrq), if_pos hrq, gf_one]
    · rw [if_neg fun h => hrq (Fin.ext h), if_neg hrq, gf_zero]
  zero := hs.zero

/-- The rows of the inverse express the missing columns by the used ones. -/
structure Inverse (first n t : Nat) (missing parityMap used : List Nat) (invrows : ByteRows) : Prop where
  ne_zero : ∀ i < t, ∀ j < n, invrows i j ≠ 0
  solves : ∀ S : Nat → Gf, (∀ r < t, S (parityMap.getD r 0) =
      ∑ c ∈ range n, (gfTwo ^ parityMap.getD r 0) ^ (n - 1 - c) * S (c + first)) →
    ∀ i < t, S (missing.getD i 0 + first) = ∑ j ∈ range n, gf (invrows i j) * S (used.getD j 0)

/-- After the last step the missing columns are the unit columns. -/
lemma ElimInv.unit_missing {hle : t ≤ n} {A0 : Fin t → Fin n ⊕ Fin t → Gf}
    (h : ElimInv hle missing A0 t s) (hr : r < t) (hk : k < t) : s.1 r (missing.getD k 0) = if r = k then 1 else 0 := by
  have hunit := h.unit ⟨r, hr⟩ ⟨k, hk⟩
  rw [pivots, if_pos hk] at hunit
  simp only [augmented, Sum.elim_inr, Fin.mk.injEq] at hunit
  rw [← gf_inj, hunit]
  split_ifs
  · exact gf_one.symm
  · exact gf_zero.symm

lemma System.inverse (hs : System first n t missing parityMap used s0)
    (h : Selection first n t missing parityMap used) (hfirst : first ≤ 3) (hn : n ≤ 254)
    (hinv : ElimInv h.le missing (augmented n t missing s0) t s) :
    Inverse first n t missing parityMap used s.2 where
  ne_zero i hi j hj := by
    have hne := hinv.entry_ne_zero (hs.separating h hfirst hn) (c := .inl ⟨j, hj⟩) (fun q => ?_) ⟨i, hi⟩
    · exact mt gf_eq_zero.2 hne
    · rw [pivots, if_pos q.isLt]
      exact inr_ne_inl
  solves S hS i hi := by
    have hnull := (hinv.null _).2 (hs.null h hS) ⟨i, hi⟩
    rw [Fintype.sum_sum_type] at hnull
    simp only [augmented, columnValues, Sum.elim_inl, Sum.elim_inr] at hnull
    rw [Fin.sum_univ_eq_sum_range (fun j => gf (s.2 i j) * S (used.getD j 0)),
      Fin.sum_univ_eq_sum_range (fun k => gf (s.1 i (missing.getD k 0)) * S (missing.getD k 0 + first)),
      sum_eq_single_of_mem i (mem_range.2 hi), hinv.unit_missing hi hi, if_pos rfl, gf_one,
      one_mul] at hnull
    · exact (CharTwo.add_eq_zero.1 hnull).symm
    · intro k hk hne
      rw [hinv.unit_missing hi (mem_range.1 hk), if_neg hne.symm, gf_zero, zero_mul]

lemma identity_rows (n t : Nat) (invrows : ByteRows) : ∀ i < t, ∀ j < n, forRange 0 t (fun i invrows =>
      forRange 0 n (fun j (invrows : ByteRows) => invrows.set i j (if i = j then 1 else 0)) invrows) invrows i j =
      if i = j then 1 else 0 := by
  apply forRange_rule (fun m (rows : ByteRows) => ∀ i < m, ∀ j < n, rows i j = if i = j then 1 else 0) (Nat.zero_le t)
  · intro i hi
    exact absurd hi (Nat.not_lt_zero i)
  · intro m rows _ _ ih i hi j hj
    rw [forRange_set (F := fun j _ => if m = j then 1 else 0) (fun j => if m = j then 1 else 0) fun _ _ _ _ => rfl]
    by_cases him : i = m
    · rw [if_pos ⟨him, hj⟩, him]
    · rw [if_neg fun h => him h.1]
      exact ih i (by omega) j hj

/-- **`vdev_raidz_matrix_invert`** finds the inverse; no assertion fails. -/
theorem vdevRaidzMatrixInvert_spec {rm : RaidzMap} (h : Selection rm.rmFirstdatacol n t missing parityMap used)
    (hfirst : rm.rmFirstdatacol ≤ 3) (hn : n ≤ 254)
    (hrows : ∀ i < t, ∀ j < n, gf (rows i j) = (gfTwo ^ parityMap.getD i 0) ^ (n - 1 - j)) (invrows : ByteRows) :
    ∃ s, vdevRaidzMatrixInvert rm n t missing rows invrows used = .ok s ∧
      Inverse rm.rmFirstdatacol n t missing parityMap used s.2 := by
  unfold vdevRaidzMatrixInvert
  rw [forRangeM_check (Nat.zero_le t) fun i _ hi => ASSERT_eq_ok.2 (by
      rw [h.used_parity i hi]
      exact h.parity_lt i hi), ok_bind,
    forRangeM_check h.le fun i hi hin => ASSERT_eq_ok.2 (h.used_first i hi hin), ok_bind]
  dsimp only
  have hone := identity_rows n t invrows
  generalize forRange 0 t _ invrows = one at hone ⊢
  obtain ⟨s1, hmove, hmoved⟩ := h.moveRows (rows, one)
  rw [hmove, ok_bind]
  have hsys := h.system hmoved hone hrows
  obtain ⟨s2, helim, hinv⟩ := forRangeM_rule (ElimInv h.le missing (augmented n t missing s1)) (Nat.zero_le t)
    (hsys.elimInv h.le) fun i s _ hi hs =>
      matrixInvertStep_inv hs (hsys.separating h hfirst hn) hi h.missing_mono h.missing_lt
  rw [helim, ok_bind]
  -- what is left is part of an identity matrix
  rw [forRangeM_check (Nat.zero_le t) fun i _ hi => forRangeM_check (Nat.zero_le n) fun j _ hj => ?_, ok_bind]
  · exact ⟨s2, rfl, hsys.inverse h hfirst hn hinv⟩
  · split_ifs with hjm
    · rw [hjm, hinv.unit_missing hi hi, if_pos rfl]
      exact ASSERT_eq_ok.2 rfl
    · apply ASSERT_eq_ok.2
      by_cases hk : ∃ k < t, missing.getD k 0 = j
      · obtain ⟨k, hk, rfl⟩ := hk
        rw [hinv.unit_missing hi hk, if_neg]
        rintro rfl
        exact hjm rfl
      · push Not at hk
        exact hinv.zero i hi j hj hk

end

end Unleashed.Zfs
