import Unleashed.Lib.BitField

/-!
# Words of a space map (`sys/space_map.h`)

A space map word is a debug entry, a one-word entry, or the first word of a two-word entry. The encoders and decoders
are the `SM_*` and `SM2_*` macros; every field comes back.
-/

namespace Unleashed.Zfs

open Lib.BitField

/-- `maptype_t`. -/
inductive MapType where
  | alloc
  | free
deriving DecidableEq, Repr

/-- The value of a `maptype_t`. -/
def MapType.value : MapType → Nat
  | .alloc => 0
  | .free => 1

/-- The `maptype_t` with a given value. -/
def MapType.ofValue (n : Nat) : MapType := if n = 0 then .alloc else .free

@[simp] lemma MapType.ofValue_value (t : MapType) : MapType.ofValue t.value = t := by
  cases t <;> rfl

def spaVdevBits : Nat := 24
def smNoVdevid : Nat := 1 <<< spaVdevBits
def smDebugPrefix : Nat := 2
def smOffsetBits : Nat := 47
def smRunBits : Nat := 15
def sm2Prefix : Nat := 3
def sm2OffsetBits : Nat := 63
def sm2RunBits : Nat := 36

def smPrefixDecode (x : Nat) : Nat := decode x 62 2
def smPrefixEncode (x : Nat) : Nat := encode x 62 2
def smDebugActionEncode (x : Nat) : Nat := encode x 60 2
def smDebugSyncpassEncode (x : Nat) : Nat := encode x 50 10
def smDebugTxgEncode (x : Nat) : Nat := encode x 0 50

def smOffsetDecode (x : Nat) : Nat := decode x 16 smOffsetBits
def smOffsetEncode (x : Nat) : Nat := encode x 16 smOffsetBits
def smTypeDecode (x : Nat) : Nat := decode x 15 1
def smTypeEncode (x : Nat) : Nat := encode x 15 1
def smRunDecode (x : Nat) : Nat := decode x 0 smRunBits + 1
def smRunEncode (x : Nat) : Nat := encode (x - 1) 0 smRunBits
def smRunMax : Nat := smRunDecode (2 ^ 64 - 1)

def sm2RunDecode (x : Nat) : Nat := decode x spaVdevBits sm2RunBits + 1
def sm2RunEncode (x : Nat) : Nat := encode (x - 1) spaVdevBits sm2RunBits
def sm2VdevDecode (x : Nat) : Nat := decode x 0 spaVdevBits
def sm2VdevEncode (x : Nat) : Nat := encode x 0 spaVdevBits
def sm2TypeDecode (x : Nat) : Nat := decode x sm2OffsetBits 1
def sm2TypeEncode (x : Nat) : Nat := encode x sm2OffsetBits 1
def sm2OffsetDecode (x : Nat) : Nat := decode x 0 sm2OffsetBits
def sm2OffsetEncode (x : Nat) : Nat := encode x 0 sm2OffsetBits
def sm2RunMax : Nat := sm2RunDecode (2 ^ 64 - 1)

def smEntryIsDebug (e : Nat) : Bool := smPrefixDecode e = smDebugPrefix

def smEntryIsSingleWord (e : Nat) : Bool :=
  smPrefixDecode e ≠ smDebugPrefix ∧ smPrefixDecode e ≠ sm2Prefix

def smEntryIsDoubleWord (e : Nat) : Bool := smPrefixDecode e = sm2Prefix

/-- A debug entry. -/
def debugWord (action syncpass txg : Nat) : Nat :=
  smPrefixEncode smDebugPrefix ||| smDebugActionEncode action ||| smDebugSyncpassEncode syncpass ||| smDebugTxgEncode txg

/-- A one-word entry. -/
def entryWord (start : Nat) (maptype : MapType) (run : Nat) : Nat :=
  smOffsetEncode start ||| smTypeEncode maptype.value ||| smRunEncode run

/-- The first word of a two-word entry. -/
def entryWordOne (run vdevId : Nat) : Nat :=
  smPrefixEncode sm2Prefix ||| sm2RunEncode run ||| sm2VdevEncode vdevId

/-- The second word of a two-word entry. -/
def entryWordTwo (maptype : MapType) (start : Nat) : Nat :=
  sm2TypeEncode maptype.value ||| sm2OffsetEncode start

@[simp] lemma smRunMax_eq : smRunMax = 2 ^ 15 := by
  simp [smRunMax, smRunDecode, smRunBits, decode_eq]

@[simp] lemma sm2RunMax_eq : sm2RunMax = 2 ^ 36 := by
  simp [sm2RunMax, sm2RunDecode, sm2RunBits, spaVdevBits, decode_eq]

lemma MapType.value_lt (t : MapType) : t.value < 2 := by cases t <;> decide

variable (action syncpass txg : Nat)

lemma debugWord_eq : debugWord action syncpass txg =
    2 * 2 ^ 62 + (action % 2 ^ 2 * 2 ^ 60 + (syncpass % 2 ^ 10 * 2 ^ 50 + txg % 2 ^ 50)) := by
  have h1 : smDebugTxgEncode txg < 2 ^ 50 := encode_lt txg 0 50
  have h2 := encode_or syncpass 10 h1
  have h3 : encode syncpass 50 10 ||| smDebugTxgEncode txg < 2 ^ 60 :=
    Nat.or_lt_two_pow (encode_lt syncpass 50 10) (h1.trans (by norm_num))
  have h4 := encode_or action 2 h3
  have h5 : encode action 60 2 ||| (encode syncpass 50 10 ||| smDebugTxgEncode txg) < 2 ^ 62 :=
    Nat.or_lt_two_pow (encode_lt action 60 2) (h3.trans (by norm_num))
  have h6 := encode_or smDebugPrefix 2 h5
  unfold debugWord smPrefixEncode smDebugActionEncode smDebugSyncpassEncode
  rw [Nat.or_assoc, Nat.or_assoc, h6, h4, h2]
  simp [smDebugPrefix, smDebugTxgEncode, encode_eq]

lemma entryWord_eq (start : Nat) (maptype : MapType) (run : Nat) : entryWord start maptype run =
    start % 2 ^ 47 * 2 ^ 16 + (maptype.value * 2 ^ 15 + (run - 1) % 2 ^ 15) := by
  have h1 : smRunEncode run < 2 ^ 15 := encode_lt (run - 1) 0 15
  have h2 := encode_or maptype.value 1 h1
  have h3 : encode maptype.value 15 1 ||| smRunEncode run < 2 ^ 16 :=
    Nat.or_lt_two_pow (encode_lt _ 15 1) (h1.trans (by norm_num))
  have h4 := encode_or start 47 h3
  have h5 := maptype.value_lt
  unfold entryWord smOffsetEncode smTypeEncode
  rw [Nat.or_assoc, smOffsetBits, h4, h2, Nat.mod_eq_of_lt (show maptype.value < 2 ^ 1 from h5)]
  simp [smRunEncode, smRunBits, encode_eq]

lemma entryWordOne_eq (run vdevId : Nat) : entryWordOne run vdevId =
    3 * 2 ^ 62 + ((run - 1) % 2 ^ 36 * 2 ^ 24 + vdevId % 2 ^ 24) := by
  have h1 : sm2VdevEncode vdevId < 2 ^ 24 := encode_lt vdevId 0 24
  have h2 := encode_or (run - 1) 36 h1
  have h3 : encode (run - 1) 24 36 ||| sm2VdevEncode vdevId < 2 ^ 62 :=
    Nat.or_lt_two_pow ((encode_lt _ 24 36).trans (by norm_num)) (h1.trans (by norm_num))
  have h4 := encode_or sm2Prefix 2 h3
  unfold entryWordOne smPrefixEncode sm2RunEncode
  rw [Nat.or_assoc, spaVdevBits, sm2RunBits, h4, h2]
  simp [sm2Prefix, sm2VdevEncode, spaVdevBits, encode_eq]

lemma entryWordTwo_eq (maptype : MapType) (start : Nat) : entryWordTwo maptype start =
    maptype.value * 2 ^ 63 + start % 2 ^ 63 := by
  have h1 : sm2OffsetEncode start < 2 ^ 63 := encode_lt start 0 63
  have h2 := encode_or maptype.value 1 h1
  have h3 := maptype.value_lt
  unfold entryWordTwo sm2TypeEncode
  rw [sm2OffsetBits, h2, Nat.mod_eq_of_lt (show maptype.value < 2 ^ 1 from h3)]
  simp [sm2OffsetEncode, sm2OffsetBits, encode_eq]

section
variable {start run vdevId : Nat} {maptype : MapType}

@[simp] lemma prefix_debugWord : smPrefixDecode (debugWord action syncpass txg) = smDebugPrefix := by
  rw [smPrefixDecode, decode_eq, debugWord_eq, smDebugPrefix]
  omega

@[simp] lemma smEntryIsDebug_debugWord : smEntryIsDebug (debugWord action syncpass txg) = true := by
  simp [smEntryIsDebug]

/-- A one-word entry has its top bit clear. -/
lemma prefix_entryWord (start : Nat) (maptype : MapType) (run : Nat) : smPrefixDecode (entryWord start maptype run) < 2 := by
  have := maptype.value_lt
  rw [smPrefixDecode, decode_eq, entryWord_eq]
  omega

@[simp] lemma smEntryIsDebug_entryWord : smEntryIsDebug (entryWord start maptype run) = false := by
  have := prefix_entryWord start maptype run
  rw [smEntryIsDebug, smDebugPrefix, decide_eq_false_iff_not]
  omega

@[simp] lemma smEntryIsSingleWord_entryWord : smEntryIsSingleWord (entryWord start maptype run) = true := by
  have := prefix_entryWord start maptype run
  rw [smEntryIsSingleWord, smDebugPrefix, sm2Prefix, decide_eq_true_eq]
  omega

lemma smOffsetDecode_entryWord : smOffsetDecode (entryWord start maptype run) = start % 2 ^ 47 := by
  have := maptype.value_lt
  rw [smOffsetDecode, decode_eq, entryWord_eq, smOffsetBits]
  omega

@[simp] lemma smTypeDecode_entryWord : smTypeDecode (entryWord start maptype run) = maptype.value := by
  have := maptype.value_lt
  rw [smTypeDecode, decode_eq, entryWord_eq]
  omega

lemma smRunDecode_entryWord (h0 : 0 < run) (h : run ≤ smRunMax) : smRunDecode (entryWord start maptype run) = run := by
  rw [smRunMax_eq] at h
  rw [smRunDecode, decode_eq, entryWord_eq, smRunBits]
  omega

@[simp] lemma prefix_entryWordOne : smPrefixDecode (entryWordOne run vdevId) = sm2Prefix := by
  rw [smPrefixDecode, decode_eq, entryWordOne_eq, sm2Prefix]
  omega

@[simp] lemma smEntryIsDebug_entryWordOne : smEntryIsDebug (entryWordOne run vdevId) = false := by
  simp [smEntryIsDebug, smDebugPrefix, sm2Prefix]

@[simp] lemma smEntryIsSingleWord_entryWordOne : smEntryIsSingleWord (entryWordOne run vdevId) = false := by
  simp [smEntryIsSingleWord]

@[simp] lemma smEntryIsDoubleWord_entryWordOne : smEntryIsDoubleWord (entryWordOne run vdevId) = true := by
  simp [smEntryIsDoubleWord]

lemma sm2RunDecode_entryWordOne (h0 : 0 < run) (h : run ≤ sm2RunMax) : sm2RunDecode (entryWordOne run vdevId) = run := by
  rw [sm2RunMax_eq] at h
  rw [sm2RunDecode, decode_eq, entryWordOne_eq, spaVdevBits, sm2RunBits]
  omega

lemma sm2VdevDecode_entryWordOne : sm2VdevDecode (entryWordOne run vdevId) = vdevId % 2 ^ 24 := by
  rw [sm2VdevDecode, decode_eq, entryWordOne_eq, spaVdevBits]
  omega

@[simp] lemma sm2TypeDecode_entryWordTwo : sm2TypeDecode (entryWordTwo maptype start) = maptype.value := by
  have := maptype.value_lt
  rw [sm2TypeDecode, decode_eq, entryWordTwo_eq, sm2OffsetBits]
  omega

lemma sm2OffsetDecode_entryWordTwo : sm2OffsetDecode (entryWordTwo maptype start) = start % 2 ^ 63 := by
  have := maptype.value_lt
  rw [sm2OffsetDecode, decode_eq, entryWordTwo_eq, sm2OffsetBits]
  omega

end

end Unleashed.Zfs
