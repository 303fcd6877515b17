import Unleashed.Lib.LogField
import Unleashed.Lib.Lanes

/-!
# The field of RAID-Z

Parity is computed in the field of 256 elements: addition is XOR, multiplication by two is a shift that reduces by
`x^8 + x^4 + x^3 + x^2 + 1`, and two generates the nonzero elements. The tables of powers and logarithms are connected
to a field here.
-/

namespace Unleashed.Zfs

open Unleashed.Lib Finset

/-- `uint8_t`. -/
abbrev Byte := BitVec 8

/-- `uint64_t`, as eight bytes of parity. -/
abbrev Word := BitVec 64

def vdevRaidzMul2 (x : Byte) : Byte := (x <<< 1) ^^^ (if x &&& 0x80 ≠ 0 then 0x1d else 0)

/-- `VDEV_RAIDZ_64MUL_2`: the mask is made from the top bit of each byte. -/
def vdevRaidz64Mul2 (x : Word) : Word :=
  let mask := x &&& 0x8080808080808080#64
  let mask := (mask <<< 1) - (mask >>> 7)
  ((x <<< 1) &&& 0xfefefefefefefefe#64) ^^^ (mask &&& 0x1d1d1d1d1d1d1d1d#64)

def vdevRaidz64Mul4 (x : Word) : Word := vdevRaidz64Mul2 (vdevRaidz64Mul2 x)

def vdevRaidzPow2Table : List Byte :=
  [0x01, 0x02, 0x04, 0x08, 0x10, 0x20, 0x40, 0x80, 0x1d, 0x3a, 0x74, 0xe8, 0xcd, 0x87, 0x13, 0x26,
   0x4c, 0x98, 0x2d, 0x5a, 0xb4, 0x75, 0xea, 0xc9, 0x8f, 0x03, 0x06, 0x0c, 0x18, 0x30, 0x60, 0xc0,
   0x9d, 0x27, 0x4e, 0x9c, 0x25, 0x4a, 0x94, 0x35, 0x6a, 0xd4, 0xb5, 0x77, 0xee, 0xc1, 0x9f, 0x23,
   0x46, 0x8c, 0x05, 0x0a, 0x14, 0x28, 0x50, 0xa0, 0x5d, 0xba, 0x69, 0xd2, 0xb9, 0x6f, 0xde, 0xa1,
   0x5f, 0xbe, 0x61, 0xc2, 0x99, 0x2f, 0x5e, 0xbc, 0x65, 0xca, 0x89, 0x0f, 0x1e, 0x3c, 0x78, 0xf0,
   0xfd, 0xe7, 0xd3, 0xbb, 0x6b, 0xd6, 0xb1, 0x7f, 0xfe, 0xe1, 0xdf, 0xa3, 0x5b, 0xb6, 0x71, 0xe2,
   0xd9, 0xaf, 0x43, 0x86, 0x11, 0x22, 0x44, 0x88, 0x0d, 0x1a, 0x34, 0x68, 0xd0, 0xbd, 0x67, 0xce,
   0x81, 0x1f, 0x3e, 0x7c, 0xf8, 0xed, 0xc7, 0x93, 0x3b, 0x76, 0xec, 0xc5, 0x97, 0x33, 0x66, 0xcc,
   0x85, 0x17, 0x2e, 0x5c, 0xb8, 0x6d, 0xda, 0xa9, 0x4f, 0x9e, 0x21, 0x42, 0x84, 0x15, 0x2a, 0x54,
   0xa8, 0x4d, 0x9a, 0x29, 0x52, 0xa4, 0x55, 0xaa, 0x49, 0x92, 0x39, 0x72, 0xe4, 0xd5, 0xb7, 0x73,
   0xe6, 0xd1, 0xbf, 0x63, 0xc6, 0x91, 0x3f, 0x7e, 0xfc, 0xe5, 0xd7, 0xb3, 0x7b, 0xf6, 0xf1, 0xff,
   0xe3, 0xdb, 0xab, 0x4b, 0x96, 0x31, 0x62, 0xc4, 0x95, 0x37, 0x6e, 0xdc, 0xa5, 0x57, 0xae, 0x41,
   0x82, 0x19, 0x32, 0x64, 0xc8, 0x8d, 0x07, 0x0e, 0x1c, 0x38, 0x70, 0xe0, 0xdd, 0xa7, 0x53, 0xa6,
   0x51, 0xa2, 0x59, 0xb2, 0x79, 0xf2, 0xf9, 0xef, 0xc3, 0x9b, 0x2b, 0x56, 0xac, 0x45, 0x8a, 0x09,
   0x12, 0x24, 0x48, 0x90, 0x3d, 0x7a, 0xf4, 0xf5, 0xf7, 0xf3, 0xfb, 0xeb, 0xcb, 0x8b, 0x0b, 0x16,
   0x2c, 0x58, 0xb0, 0x7d, 0xfa, 0xe9, 0xcf, 0x83, 0x1b, 0x36, 0x6c, 0xd8, 0xad, 0x47, 0x8e, 0x01]

def vdevRaidzLog2Table : List Nat :=
  [0x00, 0x00, 0x01, 0x19, 0x02, 0x32, 0x1a, 0xc6, 0x03, 0xdf, 0x33, 0xee, 0x1b, 0x68, 0xc7, 0x4b,
   0x04, 0x64, 0xe0, 0x0e, 0x34, 0x8d, 0xef, 0x81, 0x1c, 0xc1, 0x69, 0xf8, 0xc8, 0x08, 0x4c, 0x71,
   0x05, 0x8a, 0x65, 0x2f, 0xe1, 0x24, 0x0f, 0x21, 0x35, 0x93, 0x8e, 0xda, 0xf0, 0x12, 0x82, 0x45,
   0x1d, 0xb5, 0xc2, 0x7d, 0x6a, 0x27, 0xf9, 0xb9, 0xc9, 0x9a, 0x09, 0x78, 0x4d, 0xe4, 0x72, 0xa6,
   0x06, 0xbf, 0x8b, 0x62, 0x66, 0xdd, 0x30, 0xfd, 0xe2, 0x98, 0x25, 0xb3, 0x10, 0x91, 0x22, 0x88,
   0x36, 0xd0, 0x94, 0xce, 0x8f, 0x96, 0xdb, 0xbd, 0xf1, 0xd2, 0x13, 0x5c, 0x83, 0x38, 0x46, 0x40,
   0x1e, 0x42, 0xb6, 0xa3, 0xc3, 0x48, 0x7e, 0x6e, 0x6b, 0x3a, 0x28, 0x54, 0xfa, 0x85, 0xba, 0x3d,
   0xca, 0x5e, 0x9b, 0x9f, 0x0a, 0x15, 0x79, 0x2b, 0x4e, 0xd4, 0xe5, 0xac, 0x73, 0xf3, 0xa7, 0x57,
   0x07, 0x70, 0xc0, 0xf7, 0x8c, 0x80, 0x63, 0x0d, 0x67, 0x4a, 0xde, 0xed, 0x31, 0xc5, 0xfe, 0x18,
   0xe3, 0xa5, 0x99, 0x77, 0x26, 0xb8, 0xb4, 0x7c, 0x11, 0x44, 0x92, 0xd9, 0x23, 0x20, 0x89, 0x2e,
   0x37, 0x3f, 0xd1, 0x5b, 0x95, 0xbc, 0xcf, 0xcd, 0x90, 0x87, 0x97, 0xb2, 0xdc, 0xfc, 0xbe, 0x61,
   0xf2, 0x56, 0xd3, 0xab, 0x14, 0x2a, 0x5d, 0x9e, 0x84, 0x3c, 0x39, 0x53, 0x47, 0x6d, 0x41, 0xa2,
   0x1f, 0x2d, 0x43, 0xd8, 0xb7, 0x7b, 0xa4, 0x76, 0xc4, 0x17, 0x49, 0xec, 0x7f, 0x0c, 0x6f, 0xf6,
   0x6c, 0xa1, 0x3b, 0x52, 0x29, 0x9d, 0x55, 0xaa, 0xfb, 0x60, 0x86, 0xb1, 0xbb, 0xcc, 0x3e, 0x5a,
   0xcb, 0x59, 0x5f, 0xb0, 0x9c, 0xa9, 0xa0, 0x51, 0x0b, 0xf5, 0x16, 0xeb, 0x7a, 0x75, 0x2c, 0xd7,
   0x4f, 0xae, 0xd5, 0xe9, 0xe6, 0xe7, 0xad, 0xe8, 0x74, 0xd6, 0xf4, 0xea, 0xa8, 0x50, 0x58, 0xaf]

/-- `vdev_raidz_pow2[i]`. -/
def vdevRaidzPow2 (i : Nat) : Byte := vdevRaidzPow2Table.getD i 0

/-- `vdev_raidz_log2[a]`. -/
def vdevRaidzLog2 (a : Byte) : Nat := vdevRaidzLog2Table.getD a.toNat 0

/-- A number times 2 raised to a power; its second assertion is `vdevRaidzLog2_pos`. -/
def vdevRaidzExp2 (a : Byte) (exp : Nat) : Byte :=
  if a = 0 then 0
  else
    let exp := exp + vdevRaidzLog2 a
    vdevRaidzPow2 (if exp > 255 then exp - 255 else exp)

/-! ## The tables -/

lemma vdevRaidzLog2_lt (a : Byte) : vdevRaidzLog2 a < 255 := by
  have hall : ∀ l ∈ vdevRaidzLog2Table, l < 255 := by decide +kernel
  unfold vdevRaidzLog2
  rw [List.getD_eq_getElem?_getD]
  cases h : vdevRaidzLog2Table[a.toNat]? with
  | none => decide
  | some l => exact hall l (List.mem_of_getElem? h)

variable {a : Byte}

lemma vdevRaidzPow2_log2 (h : a ≠ 0) : vdevRaidzPow2 (vdevRaidzLog2 a) = a := by
  revert a
  decide +kernel

lemma vdevRaidzLog2_pos (h : a ≠ 0) : vdevRaidzLog2 a > 0 ∨ a = 1 := by
  rcases Nat.eq_zero_or_pos (vdevRaidzLog2 a) with h0 | h0
  · right
    rw [← vdevRaidzPow2_log2 h, h0]
    rfl
  · exact .inl h0

variable {i : Nat}

lemma vdevRaidzMul2_pow2 (h : i < 255) : vdevRaidzMul2 (vdevRaidzPow2 i) = vdevRaidzPow2 (i + 1) := by
  have htail : (vdevRaidzPow2Table.take 255).map vdevRaidzMul2 = vdevRaidzPow2Table.tail := by
    decide +kernel
  have hlen : vdevRaidzPow2Table.length = 256 := by decide +kernel
  have hi := congrArg (·[i]?) htail
  simp only [List.getElem?_map, List.getElem?_tail, List.getElem?_take, if_pos h] at hi
  unfold vdevRaidzPow2
  rw [List.getD_eq_getElem?_getD, List.getD_eq_getElem?_getD, ← hi,
    List.getElem?_eq_getElem (by omega : i < vdevRaidzPow2Table.length)]
  rfl

lemma vdevRaidzMul2_eq (x : Byte) : vdevRaidzMul2 x = (x <<< 1) ^^^ (if x.msb then 0x1d else 0) := by
  revert x
  decide +kernel

lemma vdevRaidzMul2_xor (x y : Byte) : vdevRaidzMul2 (x ^^^ y) = vdevRaidzMul2 x ^^^ vdevRaidzMul2 y := by
  rw [vdevRaidzMul2_eq, vdevRaidzMul2_eq, vdevRaidzMul2_eq, BitVec.msb_xor, BitVec.shiftLeft_xor_distrib]
  have hred : (if (x.msb ^^ y.msb) = true then 0x1d else 0 : Byte) =
      (if x.msb = true then 0x1d else 0) ^^^ (if y.msb = true then 0x1d else 0) := by
    cases x.msb <;> cases y.msb <;> rfl
  rw [hred]
  ac_rfl

variable {j : Nat}

/-- **The packed multiplication** multiplies each byte. -/
theorem lane_64Mul2 (x : Word) (hj : j < 8) : lane (vdevRaidz64Mul2 x) j = vdevRaidzMul2 (lane x j) := by
  have hkeep : ∀ k : Fin 64, (0xfefefefefefefefe#64).getLsbD k = decide ((k : Nat) % 8 ≠ 0) := by decide +kernel
  have hpoly : ∀ k : Fin 64, (0x1d1d1d1d1d1d1d1d#64).getLsbD k = (0x1d#8).getLsbD (k % 8) := by decide +kernel
  unfold vdevRaidz64Mul2
  dsimp only
  rw [spread_tops, vdevRaidzMul2_eq]
  apply BitVec.eq_of_getLsbD_eq
  intro i hi
  have hk : 8 * j + i < 64 := by omega
  have h1 : (8 * j + i) % 8 = i := by omega
  have h2 : (8 * j + i) / 8 = j := by omega
  have hmsb : (lane x j).msb = x.getLsbD (8 * j + 7) := by
    rw [BitVec.msb_eq_getLsbD_last, getLsbD_lane _ _ (by omega)]
  rw [getLsbD_lane _ _ hi, BitVec.getLsbD_xor, BitVec.getLsbD_and, BitVec.getLsbD_and, hkeep ⟨_, hk⟩,
    hpoly ⟨_, hk⟩, getLsbD_lanes _ _ hk, BitVec.getLsbD_xor, h1, h2, hmsb, BitVec.getLsbD_shiftLeft,
    BitVec.getLsbD_shiftLeft, decide_eq_true hk, decide_eq_true hi]
  congr 1
  · by_cases h0 : i = 0
    · simp [h0]
    · have h3 : 8 * j + i - 1 = 8 * j + (i - 1) := by omega
      rw [getLsbD_lane _ _ (by omega), h3]
      simp [h0]
  · cases x.getLsbD (8 * j + 7) <;> simp [hi]

/-! ## The field -/

/-- A byte as an element of the field. -/
@[ext] structure Gf where
  byte : Byte
deriving DecidableEq

/-- The element of a byte. -/
def gf (b : Byte) : Gf := ⟨b⟩

instance : Zero Gf := ⟨gf 0⟩

instance : Add Gf := ⟨fun a b => gf (a.byte ^^^ b.byte)⟩

instance : Neg Gf := ⟨id⟩

variable {b : Byte}

lemma gf_inj : gf a = gf b ↔ a = b := ⟨fun h => congrArg Gf.byte h, fun h => congrArg gf h⟩

@[simp] lemma gf_zero : gf 0 = 0 := rfl
@[simp] lemma gf_xor (a b : Byte) : gf (a ^^^ b) = gf a + gf b := rfl

lemma gf_eq_zero : gf a = 0 ↔ a = 0 := gf_inj

lemma gf_byte (a : Gf) : gf a.byte = a := rfl

instance : AddCommGroup Gf where
  add_assoc a b c := Gf.ext (BitVec.xor_assoc a.byte b.byte c.byte)
  zero_add a := Gf.ext BitVec.zero_xor
  add_zero a := Gf.ext BitVec.xor_zero
  neg_add_cancel a := Gf.ext BitVec.xor_self
  add_comm a b := Gf.ext (BitVec.xor_comm a.byte b.byte)
  nsmul := nsmulRec
  zsmul := zsmulRec

/-- Multiplication by two. -/
def gfDouble : Gf →+ Gf where
  toFun a := gf (vdevRaidzMul2 a.byte)
  map_zero' := by decide
  map_add' a b := congrArg gf (vdevRaidzMul2_xor a.byte b.byte)

lemma gfDouble_iterate (h : i ≤ 255) : gfDouble^[i] (gf 1) = gf (vdevRaidzPow2 i) := by
  induction i with
  | zero => rfl
  | succ i ih =>
    rw [Function.iterate_succ_apply', ih (Nat.le_of_succ_le h)]
    exact congrArg gf (vdevRaidzMul2_pow2 h)

/-- The tables of the source, as a table of logarithms. -/
def gfTable : LogTable Gf where
  one := gf 1
  step := gfDouble
  order := 255
  log a := vdevRaidzLog2 a.byte
  one_ne_zero := by decide
  log_le a := (vdevRaidzLog2_lt a.byte).le
  iterate_log a h := by
    rw [gfDouble_iterate (vdevRaidzLog2_lt a.byte).le, vdevRaidzPow2_log2 (mt gf_eq_zero.2 h), gf_byte]
  iterate_order := gfDouble_iterate le_rfl

instance : Field Gf := gfTable.field

lemma gf_one : gf 1 = 1 := rfl

/-- The generator. -/
def gfTwo : Gf := gf 2

lemma gf_mul2 (a : Byte) : gf (vdevRaidzMul2 a) = gfTwo * gf a :=
  (gfTable.iterate_one_mul 1 (gf a)).symm

lemma gf_pow2 (h : i ≤ 255) : gf (vdevRaidzPow2 i) = gfTwo ^ i := by
  induction i with
  | zero => rfl
  | succ i ih => rw [pow_succ', ← ih (Nat.le_of_succ_le h), ← gf_mul2, vdevRaidzMul2_pow2 h]

lemma gfTwo_pow_order : gfTwo ^ 255 = 1 := (gf_pow2 le_rfl).symm

lemma gfTwo_ne_zero : gfTwo ≠ 0 := by decide

lemma gfTwo_pow_log2 (h : a ≠ 0) : gfTwo ^ vdevRaidzLog2 a = gf a := by
  rw [← gf_pow2 (vdevRaidzLog2_lt a).le, vdevRaidzPow2_log2 h]

/-- **The generator has order 255.** -/
theorem gfTwo_pow_inj (hi : i < 255) (hj : j < 255) (h : gfTwo ^ i = gfTwo ^ j) : i = j := by
  -- 255 powers reach the 255 nonzero elements, so no two of them are the same
  have hsurj : Set.SurjOn (gfTwo ^ ·) (Finset.range 255) ((Finset.univ : Finset Byte).erase 0 |>.map
      ⟨gf, fun _ _ => gf_inj.1⟩ : Finset Gf) := by
    intro a ha
    obtain ⟨b, hb, rfl⟩ := mem_map.1 ha
    exact ⟨vdevRaidzLog2 b, mem_coe.2 (mem_range.2 (vdevRaidzLog2_lt b)), gfTwo_pow_log2 (ne_of_mem_erase hb)⟩
  have hinj := injOn_of_surjOn_of_card_le _ ?_ hsurj ?_
  · exact hinj (mem_coe.2 (mem_range.2 hi)) (mem_coe.2 (mem_range.2 hj)) h
  · intro k _
    exact mem_coe.2 (mem_map.2 ⟨(gfTwo ^ k).byte, mem_erase.2
      ⟨fun h0 => pow_ne_zero k gfTwo_ne_zero (Gf.ext h0), mem_univ _⟩, rfl⟩)
  · have hcard : Fintype.card Byte = 256 :=
      (Fintype.card_congr ⟨BitVec.toFin, BitVec.ofFin, fun _ => rfl, fun _ => rfl⟩).trans (Fintype.card_fin _)
    rw [card_range, card_map, card_erase_of_mem (mem_univ _), card_univ, hcard]

instance : CharP Gf 2 := CharTwo.of_one_ne_zero_of_two_eq_zero one_ne_zero rfl

lemma gf_sq_inj (a b : Gf) (h : a ^ 2 = b ^ 2) : a = b := by
  have := CharTwo.add_sq a b
  rw [h, CharTwo.add_self_eq_zero] at this
  exact CharTwo.add_eq_zero.1 (eq_zero_of_pow_eq_zero this)

/-- **`vdev_raidz_exp2`** multiplies by a power of two. -/
theorem gf_exp2 (a : Byte) {exp : Nat} (h : exp ≤ 255) : gf (vdevRaidzExp2 a exp) = gf a * gfTwo ^ exp := by
  unfold vdevRaidzExp2
  have hlt := vdevRaidzLog2_lt a
  by_cases ha : a = 0
  · rw [if_pos ha, ha, gf_zero, zero_mul]
  · rw [if_neg ha, ← gfTwo_pow_log2 ha, ← pow_add, Nat.add_comm exp]
    dsimp only
    split_ifs with hgt
    · rw [gf_pow2 (by omega), ← mul_one (gfTwo ^ (_ - 255)), ← gfTwo_pow_order, ← pow_add, Nat.sub_add_cancel hgt.le]
    · rw [gf_pow2 (by omega)]

lemma gf_exp2_log2 (a : Byte) (hb : b ≠ 0) : gf (vdevRaidzExp2 a (vdevRaidzLog2 b)) = gf a * gf b := by
  rw [gf_exp2 a (vdevRaidzLog2_lt b).le, gfTwo_pow_log2 hb]

lemma gf_exp2_compl (a : Byte) (h : i ≤ 255) : gf (vdevRaidzExp2 a (255 - i)) = gf a / gfTwo ^ i := by
  rw [gf_exp2 a (Nat.sub_le _ _), eq_div_iff (pow_ne_zero i gfTwo_ne_zero), mul_assoc, ← pow_add,
    Nat.sub_add_cancel h, gfTwo_pow_order, mul_one]

end Unleashed.Zfs
