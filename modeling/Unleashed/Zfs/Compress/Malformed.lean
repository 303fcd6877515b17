import Unleashed.Zfs.Compress.Lzjb

/-!
# Decompression of arbitrary bytes

Neither decompressor checks all that it reads and writes. `lzjb_decompress` does not look at the
length of its source, and `zle_decompress` looks at the two ends only between chunks. How far they
can go past an end is bounded, and the bytes on which they stay in their buffers are two kinds of
streams.
-/

namespace Unleashed.Zfs

open Lib

/-! ## LZJB -/

section
variable {s : Block Uchar} {dLen : Nat} {fresh : Nat → Except Fault Uchar}

/-- A copy stays in the destination and, with room, writes something. -/
lemma lzjbCopy_bounded (hfresh : ∀ i < dLen, ∃ a, fresh i = .ok a) (mlen cpy : Nat) (out : List Uchar) (hcpy : cpy ≤ out.length)
    (hout : out.length ≤ dLen) :
    ∃ out', lzjbCopy fresh dLen mlen cpy out = .ok out' ∧ out.length ≤ out'.length ∧ out'.length ≤ dLen ∧
      (0 < mlen → out.length < dLen → out.length < out'.length) := by
  induction mlen generalizing cpy out with
  | zero => exact ⟨out, rfl, le_rfl, hout, fun h => absurd h (Nat.lt_irrefl 0)⟩
  | succ mlen ih =>
    rw [lzjbCopy]
    by_cases hlt : out.length < dLen
    · have hread : ∃ a, readBack fresh out cpy = .ok a := by
        unfold readBack
        cases hget : out[cpy]? with
        | some a => exact ⟨a, rfl⟩
        | none => exact hfresh cpy (by omega)
      obtain ⟨a, ha⟩ := hread
      have hlen : (out ++ [a]).length = out.length + 1 := List.length_append
      obtain ⟨out', hrun, hge, hle, -⟩ := ih (cpy + 1) (out ++ [a]) (by omega) (by omega)
      rw [if_pos hlt, ha, ok_bind, push_eq hlt, ok_bind]
      exact ⟨out', hrun, by omega, hle, fun _ _ => by omega⟩
    · rw [if_neg hlt]
      exact ⟨out, rfl, le_rfl, hout, fun _ h => absurd h hlt⟩

/-- After `t` items: each has written a byte and read two at most, and one for every eight. -/
structure Counted (dLen t : Nat) (st : LzjbDecState) : Prop where
  mask : st.copymask = 2 ^ ((t + 7) % 8)
  src : st.src ≤ 2 * t + (t + 7) / 8
  ge : t ≤ st.out.length
  le : st.out.length ≤ dLen

variable {st : LzjbDecState}

lemma lzjbUngroup_bounded {t : Nat} (h : Counted dLen t st) (ht : t < dLen) (hs : 2 * dLen + (dLen + 7) / 8 ≤ s.len) :
    ∃ st1, lzjbUngroup s st = .ok st1 ∧ st1.out = st.out ∧ st1.copymask = 2 ^ (t % 8) ∧ st1.src ≤ 2 * t + (t + 8) / 8 := by
  have hsrc := h.src
  unfold lzjbUngroup
  rw [h.mask]
  by_cases h8 : t % 8 = 0
  · rw [show (t + 7) % 8 = 7 by omega, if_pos (by decide), Block.read_eq (by omega), ok_bind, h8]
    exact ⟨_, rfl, rfl, rfl, by dsimp only; omega⟩
  · have hexp : (t + 7) % 8 + 1 = t % 8 := by omega
    have hpow : 2 ^ ((t + 7) % 8) * 2 = 2 ^ (t % 8) := by rw [← pow_succ, hexp]
    have hne : 2 ^ (t % 8) ≠ 256 := by
      intro heq
      have : t % 8 = 8 := Nat.pow_right_injective (le_refl 2) (show 2 ^ (t % 8) = 2 ^ 8 from heq)
      omega
    rw [hpow, if_neg hne]
    exact ⟨_, rfl, rfl, rfl, by dsimp only; omega⟩

lemma lzjbUnitem_bounded (hfresh : ∀ i < dLen, ∃ a, fresh i = .ok a) (hsrc : st.src + 2 ≤ s.len)
    (hout : st.out.length < dLen) : lzjbUnitem fresh s dLen st = .ok none ∨
    ∃ st', lzjbUnitem fresh s dLen st = .ok (some st') ∧ st'.copymask = st.copymask ∧ st'.src ≤ st.src + 2 ∧
      st.out.length < st'.out.length ∧ st'.out.length ≤ dLen := by
  unfold lzjbUnitem
  split_ifs with hbit
  · rw [Block.read_eq (by omega), ok_bind, Block.read_eq (by omega), ok_bind]
    dsimp only
    split_ifs with hoff
    · exact .inl rfl
    · obtain ⟨out', hrun, -, hle, hlt⟩ := lzjbCopy_bounded hfresh (((s.cell st.src).toNat >>> 2) + matchMin)
        (st.out.length - (((s.cell st.src).toNat <<< 8 ||| (s.cell (st.src + 1)).toNat) &&& offsetMask)) st.out
        (Nat.sub_le _ _) hout.le
      rw [hrun, ok_bind]
      exact .inr ⟨_, rfl, rfl, le_rfl, hlt (Nat.succ_pos _) hout, hle⟩
  · rw [Block.read_eq (by omega), ok_bind, push_eq hout, ok_bind]
    have hlen : (st.out ++ [s.cell st.src]).length = st.out.length + 1 := List.length_append
    exact .inr ⟨_, rfl, rfl, by dsimp only; omega, by dsimp only; omega, by dsimp only; omega⟩

lemma lzjbDecompressLoop_bounded (hfresh : ∀ i < dLen, ∃ a, fresh i = .ok a) (hs : 2 * dLen + (dLen + 7) / 8 ≤ s.len)
    (fuel t : Nat) (st : LzjbDecState) (h : Counted dLen t st) (hfuel : dLen ≤ t + fuel) :
    ∃ r out, lzjbDecompressLoop fresh s dLen fuel st = .ok (r, out) ∧ out.length ≤ dLen ∧ (r = 0 ↔ out.length = dLen) := by
  have hge := h.ge
  have hle := h.le
  induction fuel generalizing t st with
  | zero =>
    rw [lzjbDecompressLoop, if_neg (by omega)]
    exact ⟨_, _, rfl, hle, ⟨fun _ => by omega, fun _ => rfl⟩⟩
  | succ fuel ih =>
    rw [lzjbDecompressLoop]
    by_cases hlt : st.out.length < dLen
    swap
    · rw [if_neg hlt]
      exact ⟨_, _, rfl, hle, ⟨fun _ => by omega, fun _ => rfl⟩⟩
    obtain ⟨st1, hrun1, hout1, hmask1, hsrc1⟩ := lzjbUngroup_bounded h (by omega) hs
    rw [if_pos hlt, hrun1, ok_bind]
    rw [← hout1] at hlt hge
    have hroom : st1.src + 2 ≤ s.len := by omega
    rcases lzjbUnitem_bounded hfresh hroom hlt with hnone | ⟨st', hrun', hmask', hsrc', hgt', hle'⟩
    · rw [hnone]
      exact ⟨_, _, rfl, hlt.le, ⟨fun h0 => absurd h0 (by decide), fun heq => absurd heq hlt.ne⟩⟩
    · rw [hrun']
      have hnext : Counted dLen (t + 1) st' := by
        refine ⟨?_, by omega, by omega, hle'⟩
        rw [hmask', hmask1]
        congr 1
        omega
      exact ih (t + 1) st' hnext (by omega) hnext.ge hnext.le

end

/-! ## ZLE -/

section
variable {n : Nat} {s : Block Uchar} {limit : Nat}

lemma zleCopy_bounded (len src : Nat) (out : List Uchar) (hsrc : src + len ≤ s.len) (hout : out.length + len ≤ limit) :
    ∃ out', zleCopy s limit len src out = .ok (src + len, out') ∧ out'.length = out.length + len := by
  induction len generalizing src out with
  | zero => exact ⟨out, rfl, rfl⟩
  | succ len ih =>
    have hlen : (out ++ [s.cell src]).length = out.length + 1 := List.length_append
    obtain ⟨out', hrun, hlen'⟩ := ih (src + 1) (out ++ [s.cell src]) (by omega) (by omega)
    rw [zleCopy, Block.read_eq (by omega), ok_bind, push_eq (by omega), ok_bind, hrun]
    exact ⟨out', by rw [Nat.add_assoc, Nat.add_comm 1], by omega⟩

/-- A round stays in buffers with 256 bytes to spare. -/
lemma zleExpand_bounded (src : Nat) (out : List Uchar) (hsrc : src + 257 ≤ s.len) (hout : out.length + 256 ≤ limit) :
    ∃ src' out', zleExpand n s limit src out = .ok (src', out') ∧ src < src' ∧ out'.length ≤ out.length + 256 := by
  have hb := (s.cell src).isLt
  rw [zleExpand, Block.read_eq (by omega), ok_bind]
  split_ifs with hlit
  · have hroom : out.length + (1 + (s.cell src).toNat) ≤ limit := by omega
    have hread : src + 1 + (1 + (s.cell src).toNat) ≤ s.len := by omega
    obtain ⟨out', hrun, hlen⟩ := zleCopy_bounded _ _ out hread hroom
    exact ⟨_, _, hrun, by omega, by omega⟩
  · rw [zleFill_eq _ _ (by omega), ok_bind]
    exact ⟨_, _, rfl, Nat.lt_succ_self _, by rw [List.length_append, List.length_replicate]; omega⟩

lemma zleDecompressLoop_bounded {sLen dLen : Nat} (hs : sLen + 256 ≤ s.len) (hd : dLen + 256 ≤ limit) (fuel src : Nat)
    (out : List Uchar) (hfuel : sLen ≤ src + fuel) (hout : out.length ≤ dLen + 256) :
    ∃ out', zleDecompressLoop n s limit sLen dLen fuel src out = .ok out' ∧ out'.length ≤ dLen + 256 := by
  induction fuel generalizing src out with
  | zero =>
    rw [zleDecompressLoop, if_neg (by omega)]
    exact ⟨out, rfl, hout⟩
  | succ fuel ih =>
    rw [zleDecompressLoop]
    by_cases hgo : src < sLen ∧ out.length < dLen
    · obtain ⟨src', out1, hrun, hlt, hlen⟩ := zleExpand_bounded (n := n) src out (show src + 257 ≤ s.len by omega)
        (show out.length + 256 ≤ limit by omega)
      rw [if_pos hgo, hrun, ok_bind]
      exact ih src' out1 (by omega) (by omega)
    · rw [if_neg hgo]
      exact ⟨out, rfl, hout⟩

end

/-- **Arbitrary bytes.** Both decompressors stop. `lzjb_decompress` stays in the destination and reads at most `2 *
d_len + ⌈d_len / 8⌉` bytes; `zle_decompress` goes at most 256 bytes past either end. -/
theorem decompress_bounded (s : Block Uchar) (init : Nat → Uchar) (n limit sLen dLen : Nat)
    (hlzjb : 2 * dLen + (dLen + 7) / 8 ≤ s.len) (hzle : sLen + 256 ≤ s.len) (hlimit : dLen + 256 ≤ limit) :
    (∃ r out, lzjbDecompress (fun i => if i < dLen then .ok (init i) else .error .bounds) s dLen = .ok (r, out) ∧
      out.length ≤ dLen ∧ (r = 0 ↔ out.length = dLen)) ∧
    ∃ r out, zleDecompress n s limit sLen dLen = .ok (r, out) ∧ out.length ≤ dLen + 256 ∧ (r = 0 ↔ out.length = dLen) := by
  constructor
  · refine lzjbDecompressLoop_bounded (fun i hi => ⟨init i, if_pos hi⟩) hlzjb dLen 0 _ ?_ (by omega)
    exact ⟨rfl, Nat.zero_le _, le_rfl, Nat.zero_le _⟩
  · obtain ⟨out, hrun, hlen⟩ := zleDecompressLoop_bounded (n := n) hzle hlimit sLen 0 [] (by omega) (Nat.zero_le _)
    refine ⟨_, out, by rw [zleDecompress, hrun, ok_bind], hlen, ?_⟩
    split_ifs with hfull
    · exact ⟨fun _ => hfull, fun _ => rfl⟩
    · exact ⟨fun h => absurd h (by decide), fun h => absurd h hfull⟩

/-! ## Buffers without memory behind them -/

section
variable {dLen k : Nat} {st : LzjbDecState}

end

section
variable {n limit : Nat}

/-- Chunks at the start of `l` that fit into the destination, of which `filled` bytes are written, and end with `l` or
fill it. -/
def ZleFits (n limit filled : Nat) (l : List Uchar) : Prop :=
  ∃ enc dec rest, l = enc ++ rest ∧ ZleStream n enc dec ∧ filled + dec.length ≤ limit ∧ (rest = [] ∨ filled + dec.length = limit)

lemma ZleFits.chunk {filled : Nat} {c d l : List Uchar} (hc : ZleChunk n c d) (h : ZleFits n limit (filled + d.length) l) :
    ZleFits n limit filled (c ++ l) := by
  obtain ⟨enc, dec, rest, rfl, ⟨cs, hcs, rfl, rfl⟩, hle, hrest⟩ := h
  refine ⟨c ++ (cs.map Prod.fst).flatten, d ++ (cs.map Prod.snd).flatten, rest, (List.append_assoc ..).symm,
    ⟨(c, d) :: cs, fun x hx => ?_, rfl, rfl⟩, ?_, ?_⟩
  · rcases List.mem_cons.1 hx with rfl | hx
    · exact hc
    · exact hcs x hx
  · rwa [List.length_append, ← Nat.add_assoc]
  · rwa [List.length_append, ← Nat.add_assoc]

/-- Chunks that fit are expanded. -/
lemma ZleFits.run {l : List Uchar} (hn : 1 ≤ n ∧ n ≤ 255) (h : ZleFits n limit 0 l) :
    ∃ out, zleDecompressLoop n (.ofList l) limit l.length limit l.length 0 [] = .ok out ∧ out.length ≤ limit := by
  obtain ⟨enc, dec, rest, rfl, ⟨cs, hcs, rfl, rfl⟩, hle, hrest⟩ := h
  have hfuel : cs.length ≤ ((cs.map Prod.fst).flatten ++ rest).length := by
    rw [List.length_append]
    exact (length_le_flatten cs hcs).trans (Nat.le_add_right _ _)
  have hloop := zleDecompressLoop_stream hn cs hcs _ [] [] rest hfuel hle hrest
  rw [List.nil_append, List.length_nil, Nat.zero_add, List.nil_append] at hloop
  exact ⟨_, hloop, by rwa [Nat.zero_add] at hle⟩

end

end Unleashed.Zfs
