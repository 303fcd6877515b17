import Unleashed.Lib.Block

/-!
# Zero-length encoding (`zle.c`)

A chunk of compressed data begins with a length byte `b`. If `b < n` then `b + 1` literal bytes
follow; otherwise the chunk stands for `b - n + 1` zeros. The compressor moves through the source
and the destination with pointers, which are positions here.
-/

namespace Unleashed.Zfs

open Lib List Block Nat Prod

abbrev Uchar := BitVec 8

/-! ## `zle_compress` -/

/-- `while (src < MIN(last, s_end) && src[0] == 0) src++`; `k` bytes are left. -/
def zleZeros (s : Block Uchar) : (k src : Nat) → Except Fault Nat
  | 0, src => .ok src
  | k + 1, src => do
    let a ← s.read src
    if a = 0 then zleZeros s k (src + 1) else .ok src

/-- `while (src < MIN(last, s_end) - 1 && (src[0] | src[1])) *dst++ = *src++`. -/
def zleLiterals (s : Block Uchar) (dLen : Nat) : (k src : Nat) → List Uchar → Except Fault (Nat × List Uchar)
  | 0, src, out => .ok (src, out)
  | k + 1, src, out => do
    let a ← s.read src
    let b ← s.read (src + 1)
    if a ||| b ≠ 0 then do
      let out ← push dLen out a
      zleLiterals s dLen k (src + 1) out
    else .ok (src, out)

/-- `if (src[0]) *dst++ = *src++`. -/
def zleLastLiteral (s : Block Uchar) (dLen src : Nat) (out : List Uchar) : Except Fault (Nat × List Uchar) := do
  let a ← s.read src
  if a ≠ 0 then do
    let out ← push dLen out a
    .ok (src + 1, out)
  else .ok (src, out)

/-- The body of the loop; `none` is the `break`. The length byte is reserved first. -/
def zleChunk (n : Nat) (s : Block Uchar) (dLen first : Nat) (out : List Uchar) : Except Fault (Option (Nat × List Uchar)) := do
  let len := out.length
  let out ← push dLen out 0
  let a ← s.read first
  if a = 0 then do
    let src ← zleZeros s (min (first + (256 - n)) s.len - first) first
    .ok (some (src, out.set len (BitVec.ofNat 8 (src - first - 1 + n))))
  else if dLen - out.length < n then .ok none
  else do
    let (src, out) ← zleLiterals s dLen (min (first + n) s.len - 1 - first) first out
    let (src, out) ← zleLastLiteral s dLen src out
    .ok (some (src, out.set len (BitVec.ofNat 8 (src - first - 1))))

/-- The loop, for at most `fuel` chunks. -/
def zleCompressLoop (n : Nat) (s : Block Uchar) (dLen : Nat) : (fuel src : Nat) → List Uchar → Except Fault (Nat × List Uchar)
  | 0, src, out => if src < s.len ∧ out.length + 1 < dLen then .error .fuel else .ok (src, out)
  | fuel + 1, src, out =>
    if src < s.len ∧ out.length + 1 < dLen then do
      match ← zleChunk n s dLen src out with
      | none => .ok (src, out)
      | some (src, out) => zleCompressLoop n s dLen fuel src out
    else .ok (src, out)

/-- `zle_compress`: the bytes consumed, those written, and the return value. -/
def zleCompress (n : Nat) (s : Block Uchar) (dLen : Nat) : Except Fault (Nat × List Uchar × Nat) := do
  let (src, out) ← zleCompressLoop n s dLen s.len 0 []
  .ok (src, out, if src = s.len then out.length else s.len)

/-! ## `zle_decompress` -/

/-- `while (len-- != 0) *dst++ = *src++`. -/
def zleCopy (s : Block Uchar) (limit : Nat) : (len src : Nat) → List Uchar → Except Fault (Nat × List Uchar)
  | 0, src, out => .ok (src, out)
  | len + 1, src, out => do
    let a ← s.read src
    let out ← push limit out a
    zleCopy s limit len (src + 1) out

/-- `while (len-- != 0) *dst++ = 0`. -/
def zleFill (limit : Nat) : (len : Nat) → List Uchar → Except Fault (List Uchar)
  | 0, out => .ok out
  | len + 1, out => do
    let out ← push limit out 0
    zleFill limit len out

/-- The body of the loop. -/
def zleExpand (n : Nat) (s : Block Uchar) (limit src : Nat) (out : List Uchar) : Except Fault (Nat × List Uchar) := do
  let b ← s.read src
  if 1 + b.toNat ≤ n then zleCopy s limit (1 + b.toNat) (src + 1) out
  else do
    let out ← zleFill limit (1 + b.toNat - n) out
    .ok (src + 1, out)

/-- The loop, for at most `fuel` chunks, in a destination of `limit` bytes. -/
def zleDecompressLoop (n : Nat) (s : Block Uchar) (limit sLen dLen : Nat) :
    (fuel src : Nat) → List Uchar → Except Fault (List Uchar)
  | 0, src, out => if src < sLen ∧ out.length < dLen then .error .fuel else .ok out
  | fuel + 1, src, out =>
    if src < sLen ∧ out.length < dLen then do
      let (src, out) ← zleExpand n s limit src out
      zleDecompressLoop n s limit sLen dLen fuel src out
    else .ok out

/-- `zle_decompress`: the return value and what was written. -/
def zleDecompress (n : Nat) (s : Block Uchar) (limit sLen dLen : Nat) : Except Fault (Int × List Uchar) := do
  let out ← zleDecompressLoop n s limit sLen dLen sLen 0 []
  .ok (if out.length = dLen then 0 else -1, out)

/-! ## Chunks -/

/-- A chunk of compressed data, and the data that it stands for. -/
inductive ZleChunk (n : Nat) : List Uchar → List Uchar → Prop
  | literals {l : List Uchar} (pos : 0 < l.length) (le : l.length ≤ n) : ZleChunk n (BitVec.ofNat 8 (l.length - 1) :: l) l
  | zeros {k : Nat} (pos : 0 < k) (le : k + n ≤ 256) : ZleChunk n [BitVec.ofNat 8 (k - 1 + n)] (replicate k 0)

section
variable {n : Nat} (s : Block Uchar) (dLen : Nat)

lemma zleZeros_spec (k src : Nat) (h : src + k ≤ s.len) :
    ∃ m ≤ k, zleZeros s k src = .ok (src + m) ∧ s.take (src + m) = s.take src ++ replicate m 0 ∧
      (0 < k → s.cell src = 0 → 0 < m) := by
  induction k generalizing src with
  | zero => exact ⟨0, le_rfl, rfl, by simp, fun hk => absurd hk (Nat.lt_irrefl 0)⟩
  | succ k ih =>
    rw [zleZeros, Block.read_eq (by omega), ok_bind]
    by_cases ha : s.cell src = 0
    · obtain ⟨m, hm, hrun, htake, -⟩ := ih (src + 1) (by omega)
      refine ⟨m + 1, by omega, ?_, ?_, fun _ _ => Nat.succ_pos m⟩
      · rw [if_pos ha, hrun, Nat.add_assoc, Nat.add_comm 1]
      · rw [← Nat.add_assoc, Nat.add_right_comm, htake, Block.take_succ, ha, append_assoc, replicate_succ]
        rfl
    · exact ⟨0, Nat.zero_le _, if_neg ha, by simp, fun _ h0 => absurd h0 ha⟩

lemma zleLiterals_spec (k src : Nat) (out : List Uchar) (h : src + k < s.len) (hroom : out.length + k ≤ dLen) :
    ∃ m ≤ k, ∃ l : List Uchar, l.length = m ∧ zleLiterals s dLen k src out = .ok (src + m, out ++ l) ∧
      s.take (src + m) = s.take src ++ l ∧ (s.cell src ≠ 0 → 0 < m ∨ k = 0) := by
  induction k generalizing src out with
  | zero => exact ⟨0, le_rfl, [], rfl, by simp [zleLiterals], by simp, fun _ => .inr rfl⟩
  | succ k ih =>
    rw [zleLiterals, Block.read_eq (by omega), ok_bind, Block.read_eq (by omega), ok_bind]
    by_cases hor : s.cell src ||| s.cell (src + 1) ≠ 0
    · obtain ⟨m, hm, l, hl, hrun, htake, -⟩ := ih (src + 1) (out ++ [s.cell src]) (by omega)
        (by rw [length_append, length_singleton]; omega)
      refine ⟨m + 1, by omega, s.cell src :: l, by rw [length_cons, hl], ?_, ?_, fun _ => .inl (Nat.succ_pos m)⟩
      · rw [if_pos hor, push_eq (by omega), ok_bind, hrun, Nat.add_assoc, Nat.add_comm 1, append_assoc]
        rfl
      · rw [← Nat.add_assoc, Nat.add_right_comm, htake, Block.take_succ, append_assoc]
        rfl
    · refine ⟨0, Nat.zero_le _, [], rfl, ?_, by simp, fun hne => ?_⟩
      · rw [if_neg hor, append_nil]
        rfl
      · exact absurd (BitVec.or_eq_zero_iff.1 (not_not.1 hor)).1 hne

lemma zleLastLiteral_spec (src : Nat) (out : List Uchar) (h : src < s.len) (hroom : out.length < dLen) :
    ∃ l : List Uchar, l.length ≤ 1 ∧ zleLastLiteral s dLen src out = .ok (src + l.length, out ++ l) ∧
      s.take (src + l.length) = s.take src ++ l ∧ (s.cell src ≠ 0 → 0 < l.length) := by
  rw [zleLastLiteral, read_eq h, ok_bind]
  by_cases ha : s.cell src ≠ 0
  · rw [if_pos ha, push_eq hroom]
    exact ⟨[s.cell src], le_rfl, rfl, take_succ s src, fun _ => one_pos⟩
  · rw [if_neg ha]
    exact ⟨[], zero_le _, by simp, by simp, fun hne => absurd hne ha⟩

lemma set_reserved (out l : List Uchar) (v : Uchar) : (out ++ [0] ++ l).set out.length v = out ++ v :: l := by
  rw [append_assoc, set_append_right _ _ le_rfl, Nat.sub_self]
  rfl

/-- **Step.** A round appends a chunk for the data it consumes. -/
theorem zleChunk_spec (hn : 1 ≤ n ∧ n ≤ 255) {src : Nat} (hsrc : src < s.len) {out : List Uchar} (hroom : out.length + 1 < dLen) :
    zleChunk n s dLen src out = .ok none ∨
    ∃ (m : Nat) (c d : List Uchar), zleChunk n s dLen src out = .ok (some (src + m, out ++ c)) ∧ 0 < m ∧ src + m ≤ s.len ∧
      (out ++ c).length ≤ dLen ∧ ZleChunk n c d ∧ s.take (src + m) = s.take src ++ d := by
  have hlen : (out ++ [(0 : Uchar)]).length = out.length + 1 := length_append
  rw [zleChunk, push_eq (by omega), ok_bind, Block.read_eq hsrc, ok_bind]
  by_cases ha : s.cell src = 0
  · obtain ⟨m, hm, hrun, htake, hpos⟩ := zleZeros_spec s (min (src + (256 - n)) s.len - src) src (by omega)
    have hm0 := hpos (by omega) ha
    refine .inr ⟨m, [BitVec.ofNat 8 (m - 1 + n)], _, ?_, hm0, by omega, ?_, .zeros hm0 (by omega), htake⟩
    · have hset := set_reserved out [] (BitVec.ofNat 8 (m - 1 + n))
      rw [append_nil] at hset
      rw [if_pos ha, hrun, ok_bind, Nat.add_sub_cancel_left, hset]
    · rw [length_append, length_singleton]
      omega
  · rw [if_neg ha, hlen]
    by_cases hfull : dLen - (out.length + 1) < n
    · exact .inl (if_pos hfull)
    obtain ⟨m, hm, l, hl, hrun, htake, hpos⟩ := zleLiterals_spec s dLen (min (src + n) s.len - 1 - src) src
      (out ++ [0]) (by omega) (by omega)
    obtain ⟨l', hl', hrun', htake', hpos'⟩ := zleLastLiteral_spec s dLen (src + m) (out ++ [0] ++ l) (by omega)
      (by rw [length_append]; omega)
    have hall : (l ++ l').length = m + l'.length := by rw [length_append, hl]
    -- the first byte is a literal, whichever of the two loops copies it
    have hsome : 0 < m + l'.length := by
      rcases hpos ha with h0 | h0
      · omega
      · obtain rfl : m = 0 := by omega
        have := hpos' ha
        omega
    refine .inr ⟨m + l'.length, BitVec.ofNat 8 ((l ++ l').length - 1) :: (l ++ l'), l ++ l', ?_, hsome, by omega, ?_,
      .literals (by omega) (by omega), ?_⟩
    · rw [if_neg hfull, hrun, ok_bind]
      dsimp only
      rw [hrun', ok_bind]
      dsimp only
      rw [append_assoc (out ++ [0]), set_reserved, Nat.add_assoc, Nat.add_sub_cancel_left, hall]
    · rw [length_append, length_cons, hall]
      omega
    · rw [← Nat.add_assoc, htake', htake, append_assoc]

end

/-! ## Streams of chunks -/

/-- Chunks one after the other, and what they stand for. -/
def ZleStream (n : Nat) (enc dec : List Uchar) : Prop :=
  ∃ cs : List (List Uchar × List Uchar), (∀ c ∈ cs, ZleChunk n c.1 c.2) ∧
    enc = (cs.map fst).flatten ∧ dec = (cs.map snd).flatten

lemma ZleStream.nil {n : Nat} : ZleStream n [] [] := ⟨[], fun _ h => absurd h not_mem_nil, rfl, rfl⟩

variable {c d : List Uchar}

lemma ZleStream.snoc {n : Nat} {enc dec : List Uchar} (h : ZleStream n enc dec) (hc : ZleChunk n c d) :
    ZleStream n (enc ++ c) (dec ++ d) := by
  obtain ⟨cs, hcs, rfl, rfl⟩ := h
  refine ⟨cs ++ [(c, d)], fun x hx => ?_, by simp, by simp⟩
  rcases mem_append.1 hx with hx | hx
  · exact hcs x hx
  · obtain rfl := mem_singleton.1 hx
    exact hc

/-- **Run.** What is written is a stream for what is consumed. -/
theorem zleCompressLoop_spec {n : Nat} (hn : 1 ≤ n ∧ n ≤ 255) (s : Block Uchar) (dLen fuel src : Nat) (out : List Uchar)
    (hfuel : s.len ≤ src + fuel) (hsrc : src ≤ s.len) (hout : out.length ≤ dLen) (h : ZleStream n out (s.take src)) :
    ∃ src' out', zleCompressLoop n s dLen fuel src out = .ok (src', out') ∧ src' ≤ s.len ∧ out'.length ≤ dLen ∧
      ZleStream n out' (s.take src') := by
  induction fuel generalizing src out with
  | zero =>
    rw [zleCompressLoop, if_neg (by omega)]
    exact ⟨src, out, rfl, hsrc, hout, h⟩
  | succ fuel ih =>
    rw [zleCompressLoop]
    by_cases hgo : src < s.len ∧ out.length + 1 < dLen
    · rw [if_pos hgo]
      rcases zleChunk_spec s dLen hn hgo.1 hgo.2 with hbreak | ⟨m, c, d, hchunk, hm, hle, hroom, hc, htake⟩
      · rw [hbreak]
        exact ⟨src, out, rfl, hsrc, hout, h⟩
      · rw [hchunk]
        exact ih _ _ (by omega) hle hroom (htake ▸ h.snoc hc)
    · rw [if_neg hgo]
      exact ⟨src, out, rfl, hsrc, hout, h⟩

/-! ## Decompression of a stream -/

section
variable {n limit : Nat}

lemma zleCopy_literals (pre l rest out : List Uchar) (h : out.length + l.length ≤ limit) :
    zleCopy (Block.ofList (pre ++ (l ++ rest))) limit l.length pre.length out = .ok (pre.length + l.length, out ++ l) := by
  induction l generalizing pre out with
  | nil => simp [zleCopy]
  | cons a l ih =>
    rw [length_cons] at h
    have hread : (Block.ofList (pre ++ (a :: l ++ rest))).read pre.length = .ok a :=
      Block.read_ofList (by rw [getElem?_append_right le_rfl, Nat.sub_self]; rfl)
    rw [length_cons, zleCopy, hread, ok_bind, push_eq (by omega), ok_bind]
    have hnext := ih (pre ++ [a]) (out ++ [a]) (by rw [length_append, length_singleton]; omega)
    rw [length_append, length_singleton, append_assoc, append_assoc out] at hnext
    rw [Nat.add_comm l.length, ← Nat.add_assoc]
    exact hnext

lemma zleFill_eq (k : Nat) (out : List Uchar) (h : out.length + k ≤ limit) :
    zleFill limit k out = .ok (out ++ replicate k 0) := by
  induction k generalizing out with
  | zero => simp [zleFill]
  | succ k ih =>
    rw [zleFill, push_eq (by omega), ok_bind, ih _ (by rw [length_append, length_singleton]; omega),
      append_assoc, replicate_succ]
    rfl

lemma zleExpand_chunk (hn : 1 ≤ n ∧ n ≤ 255) (hc : ZleChunk n c d) (pre rest out : List Uchar)
    (h : out.length + d.length ≤ limit) :
    zleExpand n (Block.ofList (pre ++ (c ++ rest))) limit pre.length out = .ok (pre.length + c.length, out ++ d) := by
  cases hc with
  | literals pos le =>
    have hread : (Block.ofList (pre ++ (BitVec.ofNat 8 (d.length - 1) :: d ++ rest))).read pre.length =
        .ok (BitVec.ofNat 8 (d.length - 1)) :=
      Block.read_ofList (by rw [getElem?_append_right le_rfl, Nat.sub_self]; rfl)
    have hval : 1 + (BitVec.ofNat 8 (d.length - 1)).toNat = d.length := by
      rw [BitVec.toNat_ofNat, Nat.mod_eq_of_lt (by omega)]
      omega
    have hcopy := zleCopy_literals (pre ++ [BitVec.ofNat 8 (d.length - 1)]) d rest out h
    rw [append_assoc, length_append, length_singleton] at hcopy
    rw [zleExpand, hread, ok_bind, hval, if_pos le, length_cons, Nat.add_comm d.length, ← Nat.add_assoc]
    exact hcopy
  | zeros pos le =>
    rename_i k
    have hread : (Block.ofList (pre ++ ([BitVec.ofNat 8 (k - 1 + n)] ++ rest))).read pre.length =
        .ok (BitVec.ofNat 8 (k - 1 + n)) :=
      Block.read_ofList (by rw [getElem?_append_right le_rfl, Nat.sub_self]; rfl)
    have hval : 1 + (BitVec.ofNat 8 (k - 1 + n)).toNat = k + n := by
      rw [BitVec.toNat_ofNat, Nat.mod_eq_of_lt (by omega)]
      omega
    rw [length_replicate] at h
    rw [zleExpand, hread, ok_bind, hval, if_neg (by omega), Nat.add_sub_cancel, zleFill_eq k out h, ok_bind]
    rfl

lemma ZleChunk.data_pos (h : ZleChunk n c d) : 0 < c.length ∧ 0 < d.length := by
  cases h with
  | literals pos le => exact ⟨succ_pos _, pos⟩
  | zeros pos le => exact ⟨one_pos, by rwa [length_replicate]⟩

lemma length_le_flatten (cs : List (List Uchar × List Uchar)) (hcs : ∀ c ∈ cs, ZleChunk n c.1 c.2) :
    cs.length ≤ ((cs.map fst).flatten).length := by
  induction cs with
  | nil => exact le_rfl
  | cons c cs ih =>
    have hpos := (hcs c mem_cons_self).data_pos.1
    have := ih fun x hx => hcs x (mem_cons_of_mem c hx)
    rw [map_cons, flatten_cons, length_append, length_cons]
    omega

/-- Chunks that fit are expanded one after the other; what follows them is not read if the destination is full. -/
lemma zleDecompressLoop_stream (hn : 1 ≤ n ∧ n ≤ 255) (cs : List (List Uchar × List Uchar)) (hcs : ∀ c ∈ cs, ZleChunk n c.1 c.2)
    (fuel : Nat) (pre out rest : List Uchar) (hfuel : cs.length ≤ fuel)
    (hlimit : out.length + ((cs.map snd).flatten).length ≤ limit)
    (hrest : rest = [] ∨ out.length + ((cs.map snd).flatten).length = limit) :
    zleDecompressLoop n (Block.ofList (pre ++ ((cs.map fst).flatten ++ rest))) limit
      (pre.length + ((cs.map fst).flatten ++ rest).length) limit fuel pre.length out = .ok (out ++ (cs.map snd).flatten) := by
  induction cs generalizing fuel pre out with
  | nil =>
    have hstop : ¬ (pre.length < pre.length + rest.length ∧ out.length < limit) := by
      rintro ⟨hsrc, hdst⟩
      rcases hrest with rfl | heq
      · exact absurd hsrc (Nat.lt_irrefl _)
      · exact absurd heq hdst.ne
    cases fuel <;> exact (if_neg hstop).trans (by rw [map_nil, flatten_nil, append_nil])
  | cons c cs ih =>
    obtain ⟨fuel, rfl⟩ : ∃ k, fuel = k + 1 := ⟨fuel - 1, by rw [length_cons] at hfuel; omega⟩
    have hc := hcs c mem_cons_self
    obtain ⟨hcpos, hdpos⟩ := hc.data_pos
    have hlen : (c.1 ++ ((cs.map fst).flatten ++ rest)).length = c.1.length + ((cs.map fst).flatten ++ rest).length := length_append
    rw [map_cons, flatten_cons, length_append, ← Nat.add_assoc] at hlimit hrest
    rw [map_cons, flatten_cons, map_cons, flatten_cons, append_assoc, hlen, zleDecompressLoop,
      if_pos ⟨by omega, by omega⟩, zleExpand_chunk hn hc pre _ out (by omega), ok_bind]
    dsimp only
    have hnext := ih (fun x hx => hcs x (mem_cons_of_mem c hx)) fuel (pre ++ c.1) (out ++ c.2)
      (by rw [length_cons] at hfuel; omega) (by rwa [length_append]) (by rwa [length_append])
    rw [length_append, append_assoc, Nat.add_assoc, append_assoc] at hnext
    exact hnext

end

/-- **Round trip.** `zle_compress` stays in the destination, and its output for the whole source is
decompressed to it. -/
theorem zle_round_trip (n : Nat) (hn : 1 ≤ n ∧ n ≤ 255) (s : Block Uchar) (dLen : Nat) :
    ∃ src out c, zleCompress n s dLen = .ok (src, out, c) ∧ out.length ≤ dLen ∧
      (src = s.len → c = out.length ∧ zleDecompress n (Block.ofList out) s.len c s.len = .ok (0, s.toList)) := by
  obtain ⟨src, out, hrun, hsrc, hout, hstream⟩ := zleCompressLoop_spec hn s dLen s.len 0 [] (by omega)
    (Nat.zero_le _) (Nat.zero_le _) ZleStream.nil
  refine ⟨src, out, _, by rw [zleCompress, hrun, ok_bind], hout, fun hall => ?_⟩
  subst hall
  refine ⟨if_pos rfl, ?_⟩
  obtain ⟨cs, hcs, henc, hdec⟩ := hstream
  have hlen : ((cs.map snd).flatten).length = s.len := by rw [← hdec, Block.length_take]
  have hfuel : cs.length ≤ out.length := by
    rw [henc]
    exact length_le_flatten cs hcs
  have hlimit : ([] : List Uchar).length + ((cs.map snd).flatten).length ≤ s.len := by
    rw [hlen]
    exact (Nat.zero_add _).le
  have hloop := zleDecompressLoop_stream hn cs hcs out.length [] [] [] hfuel hlimit (.inl rfl)
  rw [nil_append, append_nil, length_nil, Nat.zero_add, nil_append, ← henc, ← hdec] at hloop
  rw [if_pos rfl, zleDecompress, hloop, ok_bind, Block.length_take, if_pos rfl]
  rfl

/-- Three literals and two zeros, with room for 80 bytes. -/
theorem zle_round_trip_five :
    zleCompress 64 ⟨5, fun i => if i < 3 then 7 else 0⟩ 80 = .ok (5, [2, 7, 7, 7, 65], 5) ∧
      zleDecompress 64 (ofList [2, 7, 7, 7, 65]) 5 5 5 = .ok (0, [7, 7, 7, 0, 0]) := by
  obtain ⟨src, out, c, hrun, -, hall⟩ := zle_round_trip 64 (by decide) ⟨5, fun i => if i < 3 then 7 else 0⟩ 80
  have heq : zleCompress 64 ⟨5, fun i => if i < 3 then 7 else 0⟩ 80 = .ok (5, [2, 7, 7, 7, 65], 5) := rfl
  obtain ⟨rfl, rfl, rfl⟩ : 5 = src ∧ [2, 7, 7, 7, 65] = out ∧ 5 = c := by
    simpa only [Except.ok.injEq, Prod.mk.injEq] using heq.symm.trans hrun
  exact ⟨heq, (hall rfl).2⟩

end Unleashed.Zfs
