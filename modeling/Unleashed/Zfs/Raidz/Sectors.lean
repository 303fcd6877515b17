import Unleashed.Zfs.Raidz.Map

/-!
# The sectors of a RAID-Z I/O

Sector `n` of a RAID-Z vdev is sector `n / dcols` of its child `n % dcols`. The columns of an I/O, the space it is
charged, and the translation of ranges depend on it.
-/

namespace Unleashed.Zfs

open Lib Finset Function Nat Equiv

def vdevRaidzAsize (ashift cols nparity psize : Nat) : Nat :=
  let asize := ((psize - 1) >>> ashift) + 1
  let asize := asize + nparity * ((asize + cols - nparity - 1) / (cols - nparity))
  roundup asize (nparity + 1) <<< ashift

/-- The first row of the child that is not below the sector `b`. -/
def xlateRow (width tgtCol b : Nat) : Nat :=
  if b > tgtCol then (b - tgtCol - 1) / width + 1 else 0

/-- `vdev_raidz_xlate` of the range `[start, stop)` to the child `tgtCol`. -/
def vdevRaidzXlate (ashift width tgtCol start stop : Nat) : Except Fault (Nat × Nat) := do
  ASSERT (start % 2 ^ ashift = 0)
  ASSERT (stop % 2 ^ ashift = 0)
  let resStart := xlateRow width tgtCol (start >>> ashift) <<< ashift
  let resEnd := xlateRow width tgtCol (stop >>> ashift) <<< ashift
  ASSERT (resStart ≤ start)
  ASSERT (resEnd - resStart ≤ stop - start)
  .ok (resStart, resEnd)

/-- The map has the byte `y` of the child `k`. -/
def RaidzMap.Touches (rm : RaidzMap) (k y : Nat) : Prop :=
  ∃ c < rm.rmCols, (rm.rmCol c).rcDevidx = k ∧ (rm.rmCol c).rcOffset ≤ y ∧ y < (rm.rmCol c).rcOffset + (rm.rmCol c).rcSize

/-- The sector `n` of the vdev has the byte `y` of the child `k`. -/
def SectorHas (ashift dcols n k y : Nat) : Prop :=
  n % dcols = k ∧ n / dcols = y >>> ashift

section
variable {d k b i : Nat}

/-- A row of the child is below `xlateRow` if its sector is below `b`. -/
lemma lt_xlateRow (hd : 0 < d) : i < xlateRow d k b ↔ i * d + k < b := by
  unfold xlateRow
  split_ifs with h
  · rw [Nat.lt_succ_iff, Nat.le_div_iff_mul_le hd]
    omega
  · exact ⟨fun h0 => absurd h0 (Nat.not_lt_zero i), fun h1 => absurd h1 (by have := Nat.zero_le (i * d); omega)⟩

lemma xlateRow_start (hd : 0 < d) {j : Nat} (hj : j < d) : xlateRow d ((b + j) % d) b = (b + j) / d := by
  refine eq_of_forall_lt_iff fun i => ?_
  rw [lt_xlateRow hd]
  have hdiv := Nat.div_add_mod' (b + j) d
  constructor
  · intro h
    by_contra hge
    have := Nat.mul_le_mul_right d (Nat.le_of_not_lt hge)
    omega
  · intro h
    have := Nat.mul_le_mul_right d (Nat.succ_le_of_lt h)
    rw [Nat.succ_mul] at this
    omega

end

/-- The rows of the `j`-th column, counted from the start of the I/O. -/
def colRows (q bc j : Nat) : Nat := if j < bc then q + 1 else q

section
variable {s dcols nparity q bc acols tot u : Nat}

lemma raidzColSize_eq {c : Nat} (hc : c < acols) : raidzColSize q bc acols u c = colRows q bc c <<< u := by
  rw [raidzColSize, if_neg (not_le.2 hc), colRows]
  split_ifs <;> rfl

/-- The sectors of a column are those of the I/O on its child. -/
lemma RaidzGeometry.lt_colRows (hg : RaidzGeometry s dcols nparity q bc acols tot) {j i : Nat} (hj : j < acols) :
    i < colRows q bc j ↔ j + i * dcols < tot := by
  have hsum := hg.sum
  have hacols := hg.acols_eq
  have hle := hg.acols_le
  have hbc := hg.bc_le
  unfold colRows
  by_cases hq : q = 0
  · rw [if_pos hq] at hacols
    subst hq hacols
    rw [Nat.mul_zero, Nat.zero_add] at hsum
    rw [if_pos hj, ← hsum]
    constructor
    · intro h
      obtain rfl : i = 0 := by omega
      rw [Nat.zero_mul]
      exact hj
    · intro h
      by_contra hi
      have := Nat.mul_le_mul_right dcols (show 1 ≤ i by omega)
      omega
  · rw [if_neg hq] at hacols
    subst hacols
    have hcomm : acols * q = q * acols := Nat.mul_comm ..
    constructor
    · intro h
      split_ifs at h with hlt
      · have := Nat.mul_le_mul_right acols (Nat.le_of_lt_succ h)
        omega
      · have := Nat.mul_le_mul_right acols (Nat.succ_le_of_lt h)
        rw [Nat.succ_mul] at this
        omega
    · intro h
      by_contra hi
      split_ifs at hi with hlt
      · have := Nat.mul_le_mul_right acols (Nat.le_of_not_lt hi)
        rw [Nat.succ_mul] at this
        omega
      · have := Nat.mul_le_mul_right acols (Nat.le_of_not_lt hi)
        omega

lemma RaidzGeometry.mod_lt (hg : RaidzGeometry s dcols nparity q bc acols tot) {m : Nat} (hm : m < tot) : m % dcols < acols := by
  have hsum := hg.sum
  have hacols := hg.acols_eq
  have hle := hg.acols_le
  have hp := hg.parity_lt
  by_cases hq : q = 0
  · rw [if_pos hq] at hacols
    subst hq hacols
    rw [Nat.mul_zero, Nat.zero_add] at hsum
    exact (Nat.mod_le ..).trans_lt (by omega)
  · rw [if_neg hq] at hacols
    rw [hacols]
    exact Nat.mod_lt m (by omega)

/-- The sizes of the data columns add up to that of the I/O. -/
lemma RaidzGeometry.sum_data (hg : RaidzGeometry s dcols nparity q bc acols tot) :
    ∑ c ∈ Finset.Ico nparity acols, raidzColSize q bc acols u c = s <<< u := by
  have hfor : ∀ m, ∑ c ∈ Finset.range m, raidzColSize q bc acols u c = (min m acols * q + min m bc) <<< u := by
    intro m
    rw [← sum_rcSize hg.bc_le]
    induction m with
    | zero => rfl
    | succ m ih => rw [sum_range_succ, ih, forRange_succ (zero_le m)]
  have hp := le_of_lt hg.parity_lt
  have hsplit := sum_range_add_sum_Ico (raidzColSize q bc acols u) hp
  rw [hfor, hfor, min_self, min_eq_left hp, min_eq_right hg.bc_le, hg.sum, hg.data, shiftLeft_eq, shiftLeft_eq,
    add_mul s] at hsplit
  rw [shiftLeft_eq]
  omega

end

section

/-- The columns of a map as the columns `σ c` of its stripe: the first two may be switched. -/
structure RaidzMap.Striped (rm : RaidzMap) (b u dcols q bc acols : Nat) (σ : Nat → Nat) : Prop where
  inj : Injective σ
  surj : Surjective σ
  lt : ∀ c n, 2 ≤ n → (σ c < n ↔ c < n)
  devidx : ∀ c < rm.rmScols, (rm.rmCol c).rcDevidx = (b + σ c) % dcols
  offset : ∀ c < rm.rmScols, (rm.rmCol c).rcOffset = ((b + σ c) / dcols) <<< u
  size : ∀ c, (rm.rmCol c).rcSize = raidzColSize q bc acols u (σ c)

variable {b u dcols nparity q bc acols tot : Nat}

/-- The place of a column, with and without the wrap to the next row. -/
lemma column_place {c : Nat} (hd : 0 < dcols) (hc : c < dcols) :
    ((if b % dcols + c ≥ dcols then b % dcols + c - dcols else b % dcols + c) = (b + c) % dcols) ∧
      (if b % dcols + c ≥ dcols then (b / dcols) <<< u + 1 <<< u else (b / dcols) <<< u) = ((b + c) / dcols) <<< u := by
  have hdiv := Nat.div_add_mod' b dcols
  have hmod := Nat.mod_lt b hd
  split_ifs with h
  · have hdm : (b + c) / dcols = b / dcols + 1 ∧ (b + c) % dcols = b % dcols + c - dcols := by
      rw [Nat.div_mod_unique hd, Nat.mul_add, Nat.mul_one, Nat.mul_comm dcols]
      omega
    rw [hdm.1, hdm.2, Nat.shiftLeft_eq, Nat.shiftLeft_eq, Nat.shiftLeft_eq, Nat.add_mul]
    exact ⟨rfl, rfl⟩
  · have hdm : (b + c) / dcols = b / dcols ∧ (b + c) % dcols = b % dcols + c := by
      rw [Nat.div_mod_unique hd, Nat.mul_comm dcols]
      omega
    rw [hdm.1, hdm.2]
    exact ⟨rfl, rfl⟩

lemma vdevRaidzMapAlloc_striped {size : Nat} (hp0 : 0 < nparity) (hlt : nparity < dcols) (hs : 0 < size >>> u) (abd : Abd)
    (offset : Nat) (uninit : Nat → Nat → Byte) :
    ∃ rm q bc acols tot σ, vdevRaidzMapAlloc abd size offset u dcols nparity uninit = .ok rm ∧
      RaidzGeometry (size >>> u) dcols nparity q bc acols tot ∧ rm.rmCols = acols ∧ rm.rmFirstdatacol = nparity ∧ rm.rmScols ≤ dcols ∧
      acols ≤ rm.rmScols ∧ rm.rmAsize = roundup tot (nparity + 1) <<< u ∧ rm.Striped (offset >>> u) u dcols q bc acols σ ∧
      ∀ c, (rm.rmCol c).rcSize = raidzColSize q bc acols u c := by
  obtain ⟨q, bc, acols, tot, rm, hg, heq, hcols, hfirst, hsd, has, hasize, hsize, hdev, hoff, -, -⟩ :=
    vdevRaidzMapAlloc_eq hp0 hlt hs abd offset uninit
  have hd : 0 < dcols := by omega
  have hplain : rm.Striped (offset >>> u) u dcols q bc acols id := by
    refine ⟨Function.injective_id, Function.surjective_id, fun _ _ _ => Iff.rfl, fun c hc => ?_, fun c hc => ?_, hsize⟩
    · rw [hdev]
      exact (column_place (u := u) hd (by omega)).1
    · rw [hoff]
      exact (column_place hd (by omega)).2
  by_cases hswitch : nparity = 1 ∧ offset &&& (1 <<< 20) ≠ 0
  · rw [if_pos hswitch] at heq
    have hsame := raidzSwitchParity_same rm
    have h2 : 2 ≤ rm.rmScols := by
      have := hg.parity_lt
      omega
    -- the first two columns have the same size
    have h01 : raidzColSize q bc acols u 1 = raidzColSize q bc acols u 0 := raidzColSize_parity hg.parity_lt hg.bc_parity hp0
    refine ⟨_, q, bc, acols, tot, Equiv.swap 0 1, heq, hg, hcols, hfirst, hsd, has, hasize, ⟨Equiv.injective _, Equiv.surjective _, ?_, ?_, ?_, ?_⟩,
      fun c => (hsame.size c).trans (hsize c)⟩
    · intro c n hn
      rcases Nat.lt_or_ge c 2 with h | h
      · interval_cases c <;> simp <;> omega
      · rw [swap_apply_of_ne_of_ne (by omega) (by omega)]
    · intro c hc
      have hc' : c < rm.rmScols := hc
      dsimp only [raidzSwitchParity]
      split_ifs with h0 h1
      · rw [h0, swap_apply_left]
        exact hplain.devidx 1 h2
      · rw [h1, swap_apply_right]
        exact hplain.devidx 0 (by omega)
      · rw [swap_apply_of_ne_of_ne h0 h1]
        exact hplain.devidx c hc'
    · intro c hc
      have hc' : c < rm.rmScols := hc
      dsimp only [raidzSwitchParity]
      split_ifs with h0 h1
      · rw [h0, swap_apply_left]
        exact hplain.offset 1 h2
      · rw [h1, swap_apply_right]
        exact hplain.offset 0 (by omega)
      · rw [swap_apply_of_ne_of_ne h0 h1]
        exact hplain.offset c hc'
    · intro c
      rw [hsame.size, hsize]
      rcases Nat.lt_or_ge c 2 with h | h
      · interval_cases c
        · rw [swap_apply_left, h01]
        · rw [swap_apply_right, h01]
      · rw [swap_apply_of_ne_of_ne (by omega) (by omega)]
  · rw [if_neg hswitch] at heq
    exact ⟨rm, q, bc, acols, tot, id, heq, hg, hcols, hfirst, hsd, has, hasize, hplain, hsize⟩

variable {s : Nat} {rm : RaidzMap} {σ : Nat → Nat}

section
variable (h : rm.Striped b u dcols q bc acols σ) (hg : RaidzGeometry s dcols nparity q bc acols tot) (hp0 : 0 < nparity)
include h hg hp0

/-- **The sectors of the columns** are the `tot` sectors from the first one on. -/
theorem RaidzMap.Striped.touches_iff (hcols : rm.rmCols = acols) (has : acols ≤ rm.rmScols) (k y : Nat) :
    rm.Touches k y ↔ ∃ n, b ≤ n ∧ n < b + tot ∧ SectorHas u dcols n k y := by
  have hd : 0 < dcols := by
    have := hg.acols_le
    have := hg.parity_lt
    omega
  have h2 : 2 ≤ acols := by
    have := hg.parity_lt
    omega
  -- the rows that the column has
  have hrow : ∀ c < acols, ((rm.rmCol c).rcOffset ≤ y ∧ y < (rm.rmCol c).rcOffset + (rm.rmCol c).rcSize) ↔
      ∃ i < colRows q bc (σ c), (b + σ c) / dcols + i = y >>> u := by
    intro c hc
    have hsc := (h.lt c acols h2).2 hc
    rw [h.offset c (by omega), h.size, raidzColSize_eq hsc, Nat.shiftLeft_eq, Nat.shiftLeft_eq, ← Nat.add_mul, Nat.shiftRight_eq_div_pow,
      ← Nat.le_div_iff_mul_le (Nat.two_pow_pos u), ← Nat.div_lt_iff_lt_mul (Nat.two_pow_pos u)]
    constructor
    · rintro ⟨h1, h2⟩
      exact ⟨y / 2 ^ u - (b + σ c) / dcols, by omega, by omega⟩
    · rintro ⟨i, h1, h2⟩
      omega
  constructor
  · rintro ⟨c, hc, hk, hy⟩
    rw [hcols] at hc
    obtain ⟨i, hi, heq⟩ := (hrow c hc).1 hy
    have hn := (hg.lt_colRows ((h.lt c acols h2).2 hc)).1 hi
    refine ⟨b + σ c + i * dcols, by omega, by omega, ?_, ?_⟩
    · rw [Nat.add_mul_mod_self_right, ← hk, h.devidx c (by omega)]
    · rw [Nat.add_mul_div_right _ _ hd, heq]
  · rintro ⟨n, hbn, hn, hk, hy⟩
    obtain ⟨c, hc⟩ := h.surj ((n - b) % dcols)
    have hca : c < acols := (h.lt c acols h2).1 (by rw [hc]; exact hg.mod_lt (by omega))
    have hdiv := Nat.mod_add_div' (n - b) dcols
    have hplace : n = b + σ c + (n - b) / dcols * dcols := by
      rw [hc]
      omega
    refine ⟨c, by omega, ?_, (hrow c hca).2 ⟨(n - b) / dcols, ?_, ?_⟩⟩
    · rw [h.devidx c (by omega), ← hk]
      conv_rhs => rw [hplace, Nat.add_mul_mod_self_right]
    · rw [hg.lt_colRows ((h.lt c acols h2).2 hca), hc]
      omega
    · rw [← hy]
      conv_rhs => rw [hplace, Nat.add_mul_div_right _ _ hd]

/-- **`vdev_raidz_xlate`** to the child of a column. -/
theorem RaidzMap.Striped.xlate
    (has : acols ≤ rm.rmScols) {c T : Nat} (hc : c < acols) (hT : tot ≤ T) (hT' : T ≤ tot + nparity) :
    ∃ stop, vdevRaidzXlate u dcols (rm.rmCol c).rcDevidx (b <<< u) ((b + T) <<< u) = .ok ((rm.rmCol c).rcOffset, stop) ∧
      (stop = (rm.rmCol c).rcOffset + (rm.rmCol c).rcSize ∨ stop = (rm.rmCol c).rcOffset + (rm.rmCol c).rcSize + 2 ^ u) := by
  have hd : 0 < dcols := by
    have := hg.acols_le
    omega
  have h2 : 2 ≤ acols := by
    have := hg.parity_lt
    omega
  have hpd : nparity < dcols := hg.parity_lt.trans_le hg.acols_le
  have hj := (h.lt c acols h2).2 hc
  have hstart := xlateRow_start (b := b) hd (hj.trans_le hg.acols_le)
  rw [h.devidx c (by omega), h.offset c (by omega), h.size, raidzColSize_eq hj]
  generalize hrows : colRows q bc (σ c) = rows
  have hlt : ∀ i, i < rows ↔ σ c + i * dcols < tot := fun i => by rw [← hrows]; exact hg.lt_colRows hj
  have hdiv := Nat.div_add_mod' (b + σ c) dcols
  generalize hrow : (b + σ c) / dcols = row at *
  generalize hk : (b + σ c) % dcols = k at *
  -- the row where the range ends
  have hend : xlateRow dcols k (b + T) = row + rows ∨ xlateRow dcols k (b + T) = row + rows + 1 := by
    have hlo : ∀ i < row + rows, i < xlateRow dcols k (b + T) := by
      intro i hi
      rw [lt_xlateRow hd]
      rcases Nat.lt_or_ge i row with h1 | h1
      · have := Nat.mul_le_mul_right dcols (Nat.succ_le_of_lt h1)
        rw [Nat.succ_mul] at this
        have := hg.acols_le
        omega
      · obtain ⟨m, rfl⟩ := Nat.exists_eq_add_of_le h1
        have := (hlt m).1 (by omega)
        rw [Nat.add_mul]
        omega
    have hhi : ¬ row + rows + 1 < xlateRow dcols k (b + T) := by
      rw [lt_xlateRow hd, Nat.add_mul, Nat.add_mul, Nat.one_mul]
      have := mt (hlt rows).2 (Nat.lt_irrefl rows)
      omega
    have hge : row + rows ≤ xlateRow dcols k (b + T) := by
      by_contra hcon
      exact absurd (hlo _ (Nat.lt_of_not_le hcon)) (Nat.lt_irrefl _)
    omega
  have hrow_le : row ≤ b := by
    rw [← hstart]
    by_contra hcon
    have h1 := (lt_xlateRow (i := b) hd).1 (Nat.lt_of_not_le hcon)
    have h2 := Nat.le_mul_of_pos_right b hd
    omega
  have hlen : xlateRow dcols k (b + T) ≤ row + T := by
    by_contra hcon
    have h1 := (lt_xlateRow (i := row + T) hd).1 (Nat.lt_of_not_le hcon)
    have h2 : ¬ row < xlateRow dcols k b := by rw [hstart]; exact Nat.lt_irrefl _
    rw [lt_xlateRow hd] at h2
    have h3 := Nat.le_mul_of_pos_right T hd
    rw [Nat.add_mul] at h1
    omega
  have hshift : ∀ n, n <<< u >>> u = n := fun n => Nat.shiftLeft_shiftRight ..
  have hpow := Nat.two_pow_pos u
  rw [vdevRaidzXlate, ASSERT_bind (by rw [Nat.shiftLeft_eq]; exact Nat.mul_mod_left ..),
    ASSERT_bind (by rw [Nat.shiftLeft_eq]; exact Nat.mul_mod_left ..)]
  rw [hshift, hshift, hstart]
  simp only [Nat.shiftLeft_eq]
  rw [ASSERT_bind (Nat.mul_le_mul_right _ hrow_le), ASSERT_bind ?_]
  · refine ⟨_, rfl, ?_⟩
    rcases hend with hend | hend
    · left
      rw [hend, Nat.add_mul]
    · right
      rw [hend, Nat.add_mul, Nat.add_mul, Nat.one_mul]
  · rw [← Nat.sub_mul, ← Nat.sub_mul]
    exact Nat.mul_le_mul_right _ (by omega)

end

/-- A byte that the map touches is in a sector charged for the I/O. -/
lemma touches_allocated {size offset : Nat} (hp0 : 0 < nparity) (hlt : nparity < dcols) (ho : 2 ^ u ∣ offset) (hs : 2 ^ u ∣ size) (hpos : 0 < size)
    {abd : Abd} {uninit : Nat → Nat → Byte} (heq : vdevRaidzMapAlloc abd size offset u dcols nparity uninit = .ok rm) {k y : Nat}
    (h : rm.Touches k y) : ∃ n, offset ≤ n * 2 ^ u ∧ (n + 1) * 2 ^ u ≤ offset + rm.rmAsize ∧ SectorHas u dcols n k y := by
  obtain ⟨b, rfl⟩ := ho
  obtain ⟨s, rfl⟩ := hs
  have hpow := Nat.two_pow_pos u
  have hs0 : 0 < (2 ^ u * s) >>> u := by
    rw [Nat.shiftRight_eq_div_pow, Nat.mul_div_cancel_left _ hpow]
    exact Nat.pos_of_mul_pos_left hpos
  obtain ⟨rm', q, bc, acols, tot, σ, heq', hg, hcols, -, -, has, hasize, hstr, -⟩ :=
    vdevRaidzMapAlloc_striped hp0 hlt hs0 abd (2 ^ u * b) uninit
  rw [heq] at heq'
  cases heq'
  obtain ⟨n, hbn, hn, hsec⟩ := (hstr.touches_iff hg hp0 hcols has k y).1 h
  rw [Nat.shiftRight_eq_div_pow, Nat.mul_div_cancel_left _ hpow] at hbn hn
  have hround := le_roundup tot (show 0 < nparity + 1 from Nat.succ_pos nparity)
  refine ⟨n, ?_, ?_, hsec⟩
  · rw [Nat.mul_comm]
    exact Nat.mul_le_mul_right _ hbn
  · rw [hasize, Nat.shiftLeft_eq, Nat.mul_comm (2 ^ u), ← Nat.add_mul]
    exact Nat.mul_le_mul_right _ (by omega)

lemma SectorHas.unique {n n' k y : Nat} (h : SectorHas u dcols n k y) (h' : SectorHas u dcols n' k y) : n = n' := by
  rw [← div_add_mod n dcols, ← div_add_mod n' dcols, h.1, h.2, h'.1, h'.2]

/-- **The layout of an I/O.** Its columns are the images of consecutive sectors inside the space charged for it, and
`vdev_raidz_xlate` finds them. I/Os to disjoint ranges share no byte. Offsets are naturals here: the source's do not
wrap for a range that ends below 2^64. -/
theorem raidz_layout (abd : Abd) (uninit : Nat → Nat → Byte) (u dcols nparity : Nat) (hp0 : 0 < nparity) (hlt : nparity < dcols)
    (offset size : Nat) (ho : 2 ^ u ∣ offset) (hs : 2 ^ u ∣ size) (hpos : 0 < size) :
    ∃ rm, vdevRaidzMapAlloc abd size offset u dcols nparity uninit = .ok rm ∧
      (∀ c < rm.rmScols, ∀ c' < rm.rmScols, (rm.rmCol c).rcDevidx = (rm.rmCol c').rcDevidx → c = c') ∧
      ∑ c ∈ Finset.Ico rm.rmFirstdatacol rm.rmCols, (rm.rmCol c).rcSize = size ∧
      rm.rmAsize = vdevRaidzAsize u dcols nparity size ∧
      (∃ tot ≤ rm.rmAsize >>> u, ∀ k y, rm.Touches k y ↔ ∃ n, offset >>> u ≤ n ∧ n < offset >>> u + tot ∧ SectorHas u dcols n k y) ∧
      (∀ c < rm.rmCols, ∃ stop, vdevRaidzXlate u dcols (rm.rmCol c).rcDevidx offset (offset + rm.rmAsize) =
          .ok ((rm.rmCol c).rcOffset, stop) ∧
        (stop = (rm.rmCol c).rcOffset + (rm.rmCol c).rcSize ∨ stop = (rm.rmCol c).rcOffset + (rm.rmCol c).rcSize + 2 ^ u)) ∧
      ∀ abd' uninit' offset' size' rm', 2 ^ u ∣ offset' → 2 ^ u ∣ size' → 0 < size' →
        vdevRaidzMapAlloc abd' size' offset' u dcols nparity uninit' = .ok rm' →
        offset + rm.rmAsize ≤ offset' ∨ offset' + rm'.rmAsize ≤ offset → ∀ k y, rm.Touches k y → ¬ rm'.Touches k y := by
  have hpow := Nat.two_pow_pos u
  have hs0 : 0 < size >>> u := by
    rw [Nat.shiftRight_eq_div_pow]
    exact Nat.div_pos (Nat.le_of_dvd hpos hs) hpow
  have hsize : size >>> u * 2 ^ u = size := by
    rw [Nat.shiftRight_eq_div_pow]
    exact Nat.div_mul_cancel hs
  have hoffset : (offset >>> u) <<< u = offset := by
    rw [Nat.shiftLeft_eq, Nat.shiftRight_eq_div_pow]
    exact Nat.div_mul_cancel ho
  have hd : 0 < dcols := by omega
  obtain ⟨rm, q, bc, acols, tot, σ, heq, hg, hcols, hfirst, hsd, has, hasize, hstr, hcol⟩ :=
    vdevRaidzMapAlloc_striped hp0 hlt hs0 abd offset uninit
  have hround := le_roundup tot (show 0 < nparity + 1 from Nat.succ_pos nparity)
  have hround' := roundup_lt tot (show 0 < nparity + 1 from Nat.succ_pos nparity)
  refine ⟨rm, heq, ?_, ?_, ?_, ⟨tot, ?_, hstr.touches_iff hg hp0 hcols has⟩, ?_, ?_⟩
  · intro c hc c' hc' hdev
    rw [hstr.devidx c hc, hstr.devidx c' hc'] at hdev
    refine hstr.inj ?_
    have h2 : 2 ≤ rm.rmScols := by
      have := hg.parity_lt
      omega
    have h1 := (hstr.lt c rm.rmScols h2).2 hc
    have h1' := (hstr.lt c' rm.rmScols h2).2 hc'
    exact (Nat.ModEq.add_left_cancel' _ hdev).eq_of_lt_of_lt (by omega) (by omega)
  · rw [hfirst, hcols, Finset.sum_congr rfl fun c _ => hcol c, hg.sum_data, Nat.shiftLeft_eq, hsize]
  · have hsectors : ((size - 1) >>> u) + 1 = size >>> u := by
      have h1 : size - 1 = (size >>> u - 1) * 2 ^ u + (2 ^ u - 1) := by
        rw [Nat.sub_mul, hsize, Nat.one_mul]
        have := Nat.le_of_dvd hpos hs
        omega
      rw [h1, Nat.shiftRight_eq_div_pow, Nat.mul_comm, Nat.mul_add_div hpow, Nat.div_eq_of_lt (Nat.sub_lt hpow Nat.one_pos)]
      omega
    rw [hasize, vdevRaidzAsize, hsectors, ← hg.tot_eq]
  · rw [hasize, Nat.shiftLeft_shiftRight]
    exact hround
  · intro c hc
    rw [hcols] at hc
    have hx := hstr.xlate hg hp0 has hc hround (by omega)
    rw [hoffset, Nat.shiftLeft_eq, Nat.add_mul, ← Nat.shiftLeft_eq, hoffset, ← Nat.shiftLeft_eq, ← hasize] at hx
    exact hx
  · intro abd' uninit' offset' size' rm' ho' hs' hpos' heq' hdisj k y h h'
    obtain ⟨n, h1, h2, h3⟩ := touches_allocated hp0 hlt ho hs hpos heq h
    obtain ⟨n', h1', h2', h3'⟩ := touches_allocated hp0 hlt ho' hs' hpos' heq' h'
    obtain rfl := h3.unique h3'
    rw [Nat.add_mul, Nat.one_mul] at h2 h2'
    omega

/-- Three sectors on five disks with single parity, from the second disk on. -/
theorem raidz_layout_five : ∃ rm, vdevRaidzMapAlloc ⟨true, fun _ => 0⟩ (3 * 512) (2049 * 512) 9 5 1 (fun _ _ => 0) = .ok rm ∧
    (∀ c < rm.rmScols, ∀ c' < rm.rmScols, (rm.rmCol c).rcDevidx = (rm.rmCol c').rcDevidx → c = c') ∧
    ∑ c ∈ Finset.Ico rm.rmFirstdatacol rm.rmCols, (rm.rmCol c).rcSize = 3 * 512 ∧
    rm.rmAsize = vdevRaidzAsize 9 5 1 (3 * 512) ∧
    (∃ tot ≤ rm.rmAsize >>> 9, ∀ k y, rm.Touches k y ↔ ∃ n, 2049 ≤ n ∧ n < 2049 + tot ∧ SectorHas 9 5 n k y) ∧
    ∀ c < rm.rmCols, ∃ stop, vdevRaidzXlate 9 5 (rm.rmCol c).rcDevidx (2049 * 512) (2049 * 512 + rm.rmAsize) =
        .ok ((rm.rmCol c).rcOffset, stop) ∧
      (stop = (rm.rmCol c).rcOffset + (rm.rmCol c).rcSize ∨ stop = (rm.rmCol c).rcOffset + (rm.rmCol c).rcSize + 2 ^ 9) := by
  obtain ⟨rm, h, hdev, hsum, hasize, htouch, hxlate, -⟩ := raidz_layout ⟨true, fun _ => 0⟩ (fun _ _ => 0) 9 5 1
    (by decide) (by decide) (2049 * 512) (3 * 512) (by decide) (by decide) (by decide)
  exact ⟨rm, h, hdev, hsum, hasize, htouch, hxlate⟩

end

end Unleashed.Zfs
