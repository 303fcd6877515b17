import Unleashed.Zfs.Compress.Lzjb

/-!
# LZJB gives back what it was given

The control byte of a group is only complete when the group is, so what has been written cannot
be decompressed before the end. The proof goes backwards: from any state of the compressor, the
decompressor that has come to the same place in the finished output goes on to the end of the
source.
-/

namespace Unleashed.Zfs

open Lib List Block Nat

/-! ## What an item writes -/

/-- The two bytes of a match. -/
def matchBytes (mlen offset : Nat) : List Uchar :=
  [BitVec.ofNat 8 ((mlen - matchMin) <<< 2 ||| offset >>> 8), BitVec.ofNat 8 offset]

/-- An item: a literal, or a match whose bytes have been compared. -/
inductive Emitted (s : Block Uchar) (st : LzjbState) (m : Uchar) : LzjbState → Prop
  | literal (lempel : Nat → Nat) : Emitted s st m ⟨st.src + 1, st.out ++ [s.cell st.src], st.copymap, st.copymask, lempel⟩
  | back (lempel : Nat → Nat) {offset mlen : Nat} (pos : 0 < offset) (le : offset ≤ st.src) (lt : offset < 1024)
      (min : 3 ≤ mlen) (max : mlen ≤ 66) (fits : st.src + mlen ≤ s.len)
      (same : ∀ i < mlen, s.cell (st.src - offset + i) = s.cell (st.src + i)) :
      Emitted s st m ⟨st.src + mlen, st.out.set st.copymap (m ||| BitVec.ofNat 8 st.copymask) ++ matchBytes mlen offset,
        st.copymap, st.copymask, lempel⟩

variable {src offset : Nat}

section
variable (addr : Nat) {s : Block Uchar} {dLen : Nat} {st : LzjbState} {m : Uchar}

lemma Emitted.ofLempel {lempel : Nat → Nat} {st' : LzjbState} (h : Emitted s { st with lempel := lempel } m st') :
    Emitted s st m st' := by
  cases h with
  | literal l => exact .literal l
  | back l pos le lt min max fits same => exact .back l pos le lt min max fits same

lemma lzjbOffset_lt (src hp : Nat) : lzjbOffset addr src hp < 1024 := by
  have h : (((addr + src : Nat) : Int) - hp).emod (offsetMask + 1) = (((addr + src : Nat) : Int) - hp) % 1024 := rfl
  rw [lzjbOffset, h]
  omega

lemma lzjbFound_spec (s : Block Uchar) (offset : Nat) (h : src + 3 ≤ s.len) :
    ∃ found, lzjbFound s src offset (s.cell src) (s.cell (src + 1)) (s.cell (src + 2)) = .ok found ∧
      (found = true → 0 < offset ∧ offset ≤ src ∧ ∀ i < 3, s.cell (src - offset + i) = s.cell (src + i)) := by
  unfold lzjbFound
  split_ifs with hoff
  · rw [read_eq (by omega), ok_bind, read_eq (by omega), ok_bind, read_eq (by omega), ok_bind]
    refine ⟨_, rfl, fun hfound => ?_⟩
    obtain ⟨h0, h1, h2⟩ := of_decide_eq_true hfound
    refine ⟨pos_of_ne_zero hoff.2, hoff.1, fun i hi => ?_⟩
    match i, hi with
    | 0, _ => exact h0.symm
    | 1, _ => exact h1.symm
    | 2, _ => exact h2.symm
  · exact ⟨false, rfl, fun h => absurd h (by simp)⟩

lemma lzjbMatchLen_spec {cpy : Nat} (hcpy : cpy ≤ src) (k mlen : Nat) (h : src + mlen + k ≤ s.len)
    (hsame : ∀ i < mlen, s.cell (cpy + i) = s.cell (src + i)) :
    ∃ mlen', lzjbMatchLen s src cpy k mlen = .ok mlen' ∧ mlen ≤ mlen' ∧ mlen' ≤ mlen + k ∧
      ∀ i < mlen', s.cell (cpy + i) = s.cell (src + i) := by
  induction k generalizing mlen with
  | zero => exact ⟨mlen, rfl, le_rfl, le_rfl, hsame⟩
  | succ k ih =>
    rw [lzjbMatchLen, Block.read_eq (by omega), ok_bind, Block.read_eq (by omega), ok_bind]
    by_cases heq : s.cell (src + mlen) = s.cell (cpy + mlen)
    · obtain ⟨mlen', hrun, hge, hle, hsame'⟩ := ih (mlen + 1) (by omega) fun i hi => by
        rcases Nat.lt_succ_iff_lt_or_eq.1 hi with hi | rfl
        · exact hsame i hi
        · exact heq.symm
      exact ⟨mlen', by rw [if_neg (not_not.2 heq), hrun], by omega, by omega, hsame'⟩
    · exact ⟨mlen, if_pos heq, le_rfl, by omega, hsame⟩

lemma lzjbLiteral_spec (st : LzjbState) (m : Uchar) (hsrc : st.src < s.len) (hroom : st.out.length < dLen) :
    ∃ st', lzjbLiteral s dLen st = .ok st' ∧ Emitted s st m st' := by
  rw [lzjbLiteral, read_eq hsrc, ok_bind, push_eq hroom, ok_bind]
  exact ⟨_, rfl, .literal st.lempel⟩

lemma lzjbMatch_spec (st : LzjbState) (hlt : offset < 1024) (hsrc : st.src + 66 ≤ s.len) (hroom : st.out.length + 1 < dLen)
    (hmap : st.out[st.copymap]? = some m) (hpos : 0 < offset) (hle : offset ≤ st.src)
    (hsame : ∀ i < 3, s.cell (st.src - offset + i) = s.cell (st.src + i)) :
    ∃ st', lzjbMatch s dLen offset st = .ok st' ∧ Emitted s st m st' := by
  obtain ⟨mlen, hlen, hge, hmax, hsame'⟩ := lzjbMatchLen_spec (s := s) (Nat.sub_le st.src offset) 63 3 (by omega) hsame
  have hlen' : lzjbMatchLen s st.src (st.src - offset) (matchMax - matchMin) matchMin = .ok mlen := hlen
  have hmark : lzjbMark st = .ok (st.out.set st.copymap (m ||| BitVec.ofNat 8 st.copymask)) := by
    rw [lzjbMark, hmap]
  rw [lzjbMatch, hmark, ok_bind, hlen', ok_bind, push_eq (by rw [length_set]; omega), ok_bind,
    push_eq (by rw [length_append, length_set, length_singleton]; omega), ok_bind]
  refine ⟨_, rfl, ?_⟩
  rw [append_assoc]
  exact .back st.lempel hpos hle hlt hge hmax (by omega) hsame'

/-- **Step.** -/
theorem lzjbItem_spec (hsrc : st.src < s.len) (hroom : st.out.length + 1 < dLen) (hmap : st.out[st.copymap]? = some m) :
    ∃ st', lzjbItem addr s dLen st = .ok st' ∧ Emitted s st m st' := by
  unfold lzjbItem
  split_ifs with htail
  · exact lzjbLiteral_spec st m hsrc (by omega)
  · have hlen : st.src + 66 ≤ s.len := by
      have hmax : matchMax = 66 := rfl
      omega
    rw [read_eq hsrc, ok_bind, read_eq (by omega), ok_bind, read_eq (by omega), ok_bind]
    dsimp only
    generalize hoff : lzjbOffset addr st.src (st.lempel (lzjbHash (s.cell st.src) (s.cell (st.src + 1)) (s.cell (st.src + 2)))) = offset
    generalize Function.update st.lempel _ ((addr + st.src) % 2 ^ 16) = lempel
    obtain ⟨found, hfound, hmatch⟩ := lzjbFound_spec s offset (show st.src + 3 ≤ s.len by omega)
    rw [hfound, ok_bind]
    cases found with
    | false =>
      obtain ⟨st', hrun, hemit⟩ := lzjbLiteral_spec { st with lempel := lempel } m hsrc (lt_of_succ_lt hroom)
      exact ⟨st', hrun, hemit.ofLempel⟩
    | true =>
      obtain ⟨hpos, hle, hsame⟩ := hmatch rfl
      have hlt : offset < 1024 := hoff ▸ lzjbOffset_lt addr _ _
      obtain ⟨st', hrun, hemit⟩ := lzjbMatch_spec { st with lempel := lempel } hlt hlen hroom hmap hpos hle hsame
      exact ⟨st', hrun, hemit.ofLempel⟩

end

/-! ## What an item means -/

section

/-- The bytes of a match give its length and its offset. -/
lemma matchBytes_decode {mlen : Nat} (hmin : 3 ≤ mlen) (hmax : mlen ≤ 66) (hlt : offset < 1024) :
    ((BitVec.ofNat 8 ((mlen - matchMin) <<< 2 ||| offset >>> 8)).toNat >>> 2) + matchMin = mlen ∧
    (((BitVec.ofNat 8 ((mlen - matchMin) <<< 2 ||| offset >>> 8)).toNat <<< 8) ||| (BitVec.ofNat 8 offset).toNat) &&& offsetMask =
      offset := by
  have h3 : matchMin = 3 := rfl
  have hsum : (mlen - matchMin) <<< 2 ||| offset >>> 8 = (mlen - 3) * 4 + offset / 256 := by
    rw [← Nat.shiftLeft_add_eq_or_of_lt (by rw [Nat.shiftRight_eq_div_pow]; omega), Nat.shiftLeft_eq, Nat.shiftRight_eq_div_pow, h3]
  have hfirst : (BitVec.ofNat 8 ((mlen - matchMin) <<< 2 ||| offset >>> 8)).toNat = (mlen - 3) * 4 + offset / 256 := by
    rw [hsum, BitVec.toNat_ofNat, Nat.mod_eq_of_lt (by omega)]
  have hsecond : (BitVec.ofNat 8 offset).toNat = offset % 256 := BitVec.toNat_ofNat offset 8
  rw [hfirst, hsecond]
  constructor
  · rw [Nat.shiftRight_eq_div_pow, h3]
    omega
  · rw [← Nat.shiftLeft_add_eq_or_of_lt (by omega), Nat.shiftLeft_eq, offsetMask,
      show 1023 = 2 ^ 10 - 1 from rfl, Nat.and_two_pow_sub_one_eq_mod]
    omega

lemma lzjbCopy_spec {s : Block Uchar} (fresh : Nat → Except Fault Uchar) (hpos : 0 < offset) (hle : offset ≤ src)
    (mlen i : Nat) (hfits : src + i + mlen ≤ s.len) (hsame : ∀ j < i + mlen, s.cell (src - offset + j) = s.cell (src + j)) :
    lzjbCopy fresh s.len mlen (src - offset + i) (s.take (src + i)) = .ok (s.take (src + i + mlen)) := by
  induction mlen generalizing i with
  | zero => rfl
  | succ mlen ih =>
    have hread : readBack fresh (s.take (src + i)) (src - offset + i) = .ok (s.cell (src - offset + i)) := by
      rw [readBack, Block.getElem?_take s (by omega)]
    have hlen : (s.take (src + i)).length < s.len := by
      rw [Block.length_take]
      omega
    have hnext := ih (i + 1) (by omega) fun j hj => hsame j (by omega)
    rw [lzjbCopy, if_pos hlen, hread, ok_bind, push_eq hlen, ok_bind, hsame i (by omega), ← Block.take_succ]
    rw [← Nat.add_assoc, ← Nat.add_assoc, Nat.add_right_comm _ 1] at hnext
    exact hnext

end

/-! ## Runs -/

/-- Between two items, with bit `k` of the control byte used last. -/
structure Between (s : Block Uchar) (dLen k : Nat) (st : LzjbState) : Prop where
  mask : st.copymask = 2 ^ k
  bit : k ≤ 7
  src : st.src ≤ s.len
  out : st.out.length ≤ dLen
  room : k < 7 → st.out.length + 2 * (7 - k) < dLen
  map : k < 7 → ∃ m : Uchar, st.out[st.copymap]? = some m ∧ m.toNat < 2 ^ (k + 1)

/-- Before an item whose bit in the control byte `m` is `k`. -/
structure Ready (s : Block Uchar) (dLen k : Nat) (m : Uchar) (st : LzjbState) : Prop where
  mask : st.copymask = 2 ^ k
  bit : k ≤ 7
  src : st.src < s.len
  room : st.out.length + 2 * (7 - k) + 2 < dLen
  map : st.out[st.copymap]? = some m
  clear : m.toNat < 2 ^ k

/-- The final output has what was written, but for later control bits. -/
structure Extends (k : Nat) (st : LzjbState) (fin : List Uchar) : Prop where
  keep : ∀ j < st.out.length, j ≠ st.copymap ∨ k = 7 → fin[j]? = st.out[j]?
  bits : k < 7 → ∃ m m' : Uchar, st.out[st.copymap]? = some m ∧ fin[st.copymap]? = some m' ∧
    ∀ i ≤ k, m'.toNat.testBit i = m.toNat.testBit i

section
variable {s : Block Uchar} {dLen k : Nat} {st st' : LzjbState} {m : Uchar} {fin : List Uchar}

/-- Only the last bit of the copymap is shifted out. -/
lemma mask_ne (hk : k < 7) : 2 ^ k * 2 ≠ 256 := by
  intro heq
  have : k + 1 = 8 := Nat.pow_right_injective (le_refl 2) (show 2 ^ (k + 1) = 2 ^ 8 from heq)
  omega

lemma lzjbGroup_spec (h : Between s dLen k st) (hsrc : st.src < s.len) : lzjbGroup dLen st = .ok none ∨
    ∃ st1 k1 m, lzjbGroup dLen st = .ok (some st1) ∧ Ready s dLen k1 m st1 ∧ st1.src = st.src ∧
      ((k = 7 ∧ k1 = 0 ∧ st1.copymap = st.out.length ∧ st1.out = st.out ++ [0]) ∨
        (k1 = k + 1 ∧ st1.copymap = st.copymap ∧ st1.out = st.out)) := by
  unfold lzjbGroup
  rw [h.mask]
  by_cases hk : k = 7
  · subst hk
    rw [if_pos (by decide)]
    by_cases hfull : (st.out.length : Int) ≥ dLen - 1 - 2 * 8
    · exact .inl (if_pos hfull)
    · rw [if_neg hfull, push_eq (by omega), ok_bind]
      refine .inr ⟨_, 0, 0, rfl, ⟨rfl, Nat.zero_le 7, hsrc, ?_, ?_, by decide⟩, rfl, .inl ⟨rfl, rfl, rfl, rfl⟩⟩
      · rw [length_append, length_singleton]
        omega
      · rw [getElem?_append_right le_rfl, Nat.sub_self]
        rfl
  · have hlt : k < 7 := lt_of_le_of_ne h.bit hk
    obtain ⟨m, hm, hlow⟩ := h.map hlt
    have hroom := h.room hlt
    rw [if_neg (mask_ne (by omega))]
    exact .inr ⟨_, k + 1, m, rfl, ⟨(pow_succ 2 k).symm, hlt, hsrc, by dsimp only; omega, hm, hlow⟩, rfl, .inr ⟨rfl, rfl, rfl⟩⟩

lemma length_marked (out : List Uchar) (copymap : Nat) (m : Uchar) (mlen offset : Nat) :
    (out.set copymap m ++ matchBytes mlen offset).length = out.length + 2 := by
  rw [length_append, length_set]
  rfl

lemma Emitted.between (h : Emitted s st m st') (hr : Ready s dLen k m st) : Between s dLen k st' ∧ st.src < st'.src := by
  have hcm : st.copymap < st.out.length := (List.getElem?_eq_some_iff.1 hr.map).1
  have hroom := hr.room
  have hclear := hr.clear
  have hpow : 2 ^ (k + 1) = 2 ^ k * 2 := pow_succ 2 k
  cases h with
  | literal lempel =>
    have hlen : (st.out ++ [s.cell st.src]).length = st.out.length + 1 := length_append
    refine ⟨⟨hr.mask, hr.bit, hr.src, by dsimp only; omega, fun _ => by dsimp only; omega, fun _ => ⟨m, ?_, by omega⟩⟩,
      Nat.lt_succ_self _⟩
    dsimp only
    rw [getElem?_append_left hcm, hr.map]
  | back lempel pos le lt min max fits same =>
    rename_i offset mlen
    have hlen := length_marked st.out st.copymap (m ||| BitVec.ofNat 8 st.copymask) mlen offset
    refine ⟨⟨hr.mask, hr.bit, fits, by dsimp only; omega, fun _ => by dsimp only; omega,
      fun _ => ⟨m ||| BitVec.ofNat 8 st.copymask, ?_, ?_⟩⟩, by dsimp only; omega⟩
    · dsimp only
      rw [getElem?_append_left (by rwa [length_set]), getElem?_set_self hcm]
    · rw [BitVec.toNat_or]
      refine Nat.or_lt_two_pow (by omega) ((Nat.mod_le _ _).trans_lt ?_)
      rw [hr.mask, hpow]
      have := Nat.two_pow_pos k
      omega

/-- The control byte in the end has the bits that are set so far. -/
lemma Extends.control (h : Extends k st fin) (hk : k ≤ 7) (hm : st.out[st.copymap]? = some m) :
    ∃ m' : Uchar, fin[st.copymap]? = some m' ∧ ∀ i ≤ k, m'.toNat.testBit i = m.toNat.testBit i := by
  rcases lt_or_eq_of_le hk with hlt | h7
  · obtain ⟨m0, m', h0, hfin, hbits⟩ := h.bits hlt
    obtain rfl := Option.some.inj (h0.symm.trans hm)
    exact ⟨m', hfin, hbits⟩
  · exact ⟨m, (h.keep _ (List.getElem?_eq_some_iff.1 hm).1 (.inr h7)).trans hm, fun _ _ => rfl⟩

lemma testBit_mark (hr : Ready s dLen k m st) (i : Nat) :
    (m ||| BitVec.ofNat 8 st.copymask).toNat.testBit i = (m.toNat.testBit i || decide (k = i)) := by
  have hsmall : (BitVec.ofNat 8 st.copymask).toNat = 2 ^ k := by
    rw [hr.mask, BitVec.toNat_ofNat]
    exact Nat.mod_eq_of_lt (Nat.pow_lt_pow_right (by decide) (Nat.lt_succ_of_le hr.bit))
  rw [BitVec.toNat_or, Nat.testBit_or, hsmall, Nat.testBit_two_pow]

lemma Emitted.copymap_eq (h : Emitted s st m st') : st'.copymap = st.copymap := by
  cases h <;> rfl

/-- **Step of the decompressor**, which reads what the item wrote. -/
theorem Emitted.unitem (h : Emitted s st m st') (hr : Ready s dLen k m st) (he : Extends k st' fin)
    (fresh : Nat → Except Fault Uchar) : (∀ j < st.out.length, j ≠ st.copymap → fin[j]? = st.out[j]?) ∧
    ∃ m' : Uchar, fin[st.copymap]? = some m' ∧ (∀ i < k, m'.toNat.testBit i = m.toNat.testBit i) ∧
      lzjbUnitem fresh (Block.ofList fin) s.len ⟨st.out.length, s.take st.src, m', 2 ^ k⟩ =
        .ok (some ⟨st'.out.length, s.take st'.src, m', 2 ^ k⟩) := by
  have hcm : st.copymap < st.out.length := (List.getElem?_eq_some_iff.1 hr.map).1
  cases h with
  | literal lempel =>
    have hlen : (st.out ++ [s.cell st.src]).length = st.out.length + 1 := length_append
    have hkeep (j : Nat) (hj : j < st.out.length + 1) (hne : j ≠ st.copymap) : fin[j]? = (st.out ++ [s.cell st.src])[j]? :=
      he.keep j (by rw [hlen]; exact hj) (.inl hne)
    obtain ⟨m', hfin, hbits⟩ := he.control hr.bit (m := m) (by rw [getElem?_append_left hcm, hr.map])
    have hbit : m'.toNat &&& 2 ^ k = 0 := by
      rw [Nat.and_two_pow, hbits k le_rfl, Nat.testBit_lt_two_pow hr.clear]
      exact Nat.zero_mul _
    have hread : (Block.ofList fin).read st.out.length = .ok (s.cell st.src) := by
      refine Block.read_ofList ?_
      rw [hkeep _ (Nat.lt_succ_self _) (by omega), getElem?_append_right le_rfl, Nat.sub_self]
      rfl
    refine ⟨fun j hj hne => ?_, m', hfin, fun i hi => hbits i hi.le, ?_⟩
    · rw [hkeep j (by omega) hne, getElem?_append_left hj]
    · have hout : (s.take st.src).length < s.len := by
        rw [Block.length_take]
        exact hr.src
      rw [lzjbUnitem, if_neg (not_not.2 hbit)]
      dsimp only
      rw [hread, ok_bind, push_eq hout, ok_bind, ← Block.take_succ, hlen]
  | back lempel pos le lt min max fits same =>
    rename_i offset mlen
    have hlen := length_marked st.out st.copymap (m ||| BitVec.ofNat 8 st.copymask) mlen offset
    have hset : (st.out.set st.copymap (m ||| BitVec.ofNat 8 st.copymask)).length = st.out.length := length_set
    have hkeep (j : Nat) (hj : j < st.out.length + 2) (hne : j ≠ st.copymap) :
        fin[j]? = (st.out.set st.copymap (m ||| BitVec.ofNat 8 st.copymask) ++ matchBytes mlen offset)[j]? :=
      he.keep j (by rw [hlen]; exact hj) (.inl hne)
    obtain ⟨m', hfin, hbits⟩ := he.control hr.bit (m := m ||| BitVec.ofNat 8 st.copymask)
      (by dsimp only; rw [getElem?_append_left (by omega), getElem?_set_self hcm])
    have hbit : m'.toNat &&& 2 ^ k ≠ 0 := by
      have htrue : m'.toNat.testBit k = true := by
        rw [hbits k le_rfl, testBit_mark hr, decide_eq_true rfl, Bool.or_true]
      rw [Nat.and_two_pow, htrue, Bool.toNat_true, Nat.one_mul]
      exact (Nat.two_pow_pos k).ne'
    have hread (i : Nat) (hi : i < 2) (a : Uchar) (ha : (matchBytes mlen offset)[i]? = some a) :
        (Block.ofList fin).read (st.out.length + i) = .ok a := by
      refine Block.read_ofList ?_
      rw [hkeep _ (by omega) (by omega), getElem?_append_right (by omega), hset, Nat.add_sub_cancel_left, ha]
    refine ⟨fun j hj hne => ?_, m', hfin, fun i hi => ?_, ?_⟩
    · rw [hkeep j (by omega) hne, getElem?_append_left (by omega), getElem?_set_ne hne.symm]
    · rw [hbits i hi.le, testBit_mark hr, decide_eq_false hi.ne', Bool.or_false]
    · obtain ⟨hmlen, hoff⟩ := matchBytes_decode min max lt
      have hcopy := lzjbCopy_spec fresh pos le mlen 0 (by omega) fun j hj => same j (by omega)
      rw [Nat.add_zero, Nat.add_zero] at hcopy
      rw [lzjbUnitem, if_pos hbit]
      dsimp only
      rw [show st.out.length = st.out.length + 0 from rfl, hread 0 (by decide) _ rfl, ok_bind, Nat.add_zero,
        hread 1 (by decide) _ rfl, ok_bind, hmlen, hoff, Block.length_take, if_neg (by omega), hcopy, ok_bind, hlen]

variable {st1 : LzjbState} {k1 : Nat} {m' : Uchar}

section
variable (hr : Ready s dLen k1 m st1)
  (hgroup : (k = 7 ∧ k1 = 0 ∧ st1.copymap = st.out.length ∧ st1.out = st.out ++ [0]) ∨ (k1 = k + 1 ∧ st1.copymap = st.copymap ∧ st1.out = st.out))
include hr hgroup

/-- What the group step does, said of the output in the end. -/
lemma Extends.ofGroup (hkeep : ∀ j < st1.out.length, j ≠ st1.copymap → fin[j]? = st1.out[j]?)
    (hfin : fin[st1.copymap]? = some m') (hbits : ∀ i < k1, m'.toNat.testBit i = m.toNat.testBit i) : Extends k st fin := by
  rcases hgroup with ⟨rfl, -, hcm, hout⟩ | ⟨rfl, hcm, hout⟩
  · refine ⟨fun j hj _ => ?_, fun h7 => absurd h7 (lt_irrefl 7)⟩
    rw [hkeep j (by rw [hout, length_append, length_singleton]; omega) (by omega), hout, getElem?_append_left hj]
  · have hbit := hr.bit
    rw [hout, hcm] at hkeep
    refine ⟨fun j hj hne => hkeep j hj (hne.resolve_right (by omega)), fun _ => ⟨m, m', ?_, ?_, fun i hi => hbits i (by omega)⟩⟩
    · rw [← hcm, ← hout, hr.map]
    · rw [← hcm, hfin]

lemma lzjbUngroup_eq
    {m0 : Uchar} (hm0 : k < 7 → fin[st.copymap]? = some m0) (hfin : fin[st1.copymap]? = some m') (out : List Uchar) :
    lzjbUngroup (Block.ofList fin) ⟨st.out.length, out, m0, 2 ^ k⟩ = .ok ⟨st1.out.length, out, m', 2 ^ k1⟩ := by
  unfold lzjbUngroup
  rcases hgroup with ⟨rfl, rfl, hcm, hout⟩ | ⟨rfl, hcm, hout⟩
  · dsimp only
    rw [if_pos (by decide), Block.read_ofList (hcm ▸ hfin), ok_bind, hout, length_append, length_singleton]
    rfl
  · have hbit := hr.bit
    have hm := hm0 (by omega)
    rw [← hcm, hfin] at hm
    obtain rfl := Option.some.inj hm
    rw [if_neg (mask_ne (by omega)), hout]
    rfl

end

/-- From the place of the compressor on, the decompressor gives the source. -/
def Resumes (s : Block Uchar) (fresh : Nat → Except Fault Uchar) (k : Nat) (st : LzjbState) (fin : List Uchar) : Prop :=
  ∀ m₀ : Uchar, (k < 7 → fin[st.copymap]? = some m₀) → ∀ fuel, s.len ≤ st.src + fuel →
    lzjbDecompressLoop fresh (ofList fin) s.len fuel ⟨st.out.length, s.take st.src, m₀, 2 ^ k⟩ = .ok (0, s.toList)

lemma Between.finished (h : Between s dLen k st) (hend : ¬ st.src < s.len) (fresh : Nat → Except Fault Uchar) :
    Extends k st st.out ∧ Resumes s fresh k st st.out := by
  have heq : st.src = s.len := le_antisymm h.src (not_lt.1 hend)
  refine ⟨⟨fun _ _ _ => rfl, fun hk => ?_⟩, fun m0 _ fuel _ => ?_⟩
  · obtain ⟨m, hm, -⟩ := h.map hk
    exact ⟨m, m, hm, hm, fun _ _ => rfl⟩
  · have hstop : ¬ (s.take st.src).length < s.len := by rwa [Block.length_take]
    cases fuel with
    | zero =>
      rw [lzjbDecompressLoop, if_neg hstop, heq]
      rfl
    | succ fuel =>
      rw [lzjbDecompressLoop, if_neg hstop, heq]
      rfl

/-- **Run.** The compressor stops inside the destination, and the decompressor reads on to the end. -/
theorem lzjbCompressLoop_spec (addr : Nat) (fresh : Nat → Except Fault Uchar) (fuel : Nat) (h : Between s dLen k st)
    (hfuel : s.len ≤ st.src + fuel) : ∃ c fin, lzjbCompressLoop addr s dLen fuel st = .ok (c, fin) ∧ fin.length ≤ dLen ∧
      (c = s.len ∨ c = fin.length ∧ Extends k st fin ∧ Resumes s fresh k st fin) := by
  induction fuel generalizing st k with
  | zero =>
    have hend : ¬ st.src < s.len := by omega
    rw [lzjbCompressLoop, if_neg hend]
    exact ⟨_, _, rfl, h.out, .inr ⟨rfl, h.finished hend fresh⟩⟩
  | succ fuel ih =>
    rw [lzjbCompressLoop]
    by_cases hsrc : st.src < s.len
    swap
    · rw [if_neg hsrc]
      exact ⟨_, _, rfl, h.out, .inr ⟨rfl, h.finished hsrc fresh⟩⟩
    rw [if_pos hsrc]
    rcases lzjbGroup_spec h hsrc with hfull | ⟨st1, k1, m, hrun1, hr, hsame, hgroup⟩
    · rw [hfull]
      exact ⟨_, _, rfl, h.out, .inl rfl⟩
    have hroom : st1.out.length + 1 < dLen := by
      have := hr.room
      omega
    obtain ⟨st', hrun', hemit⟩ := lzjbItem_spec addr hr.src hroom hr.map
    obtain ⟨hb, hlt⟩ := hemit.between hr
    obtain ⟨c, fin, hloop, hlen, hend⟩ := ih hb (by omega)
    refine ⟨c, fin, ?_, hlen, ?_⟩
    · rw [hrun1, ok_bind]
      dsimp only
      rw [hrun', ok_bind, hloop]
    rcases hend with hgave | ⟨hc, he, hresume⟩
    · exact .inl hgave
    obtain ⟨hkeep, m', hfin, hbits, hunitem⟩ := hemit.unitem hr he fresh
    refine .inr ⟨hc, .ofGroup hr hgroup hkeep hfin hbits, fun m0 hm0 fuel' hfuel' => ?_⟩
    obtain ⟨fuel', rfl⟩ : ∃ n, fuel' = n + 1 := ⟨fuel' - 1, by omega⟩
    have hmore : (s.take st.src).length < s.len := by rwa [Block.length_take]
    rw [lzjbDecompressLoop, if_pos hmore, lzjbUngroup_eq hr hgroup hm0 hfin, ok_bind, ← hsame, hunitem, ok_bind]
    exact hresume m' (fun _ => by rw [hemit.copymap_eq, hfin]) fuel' (by omega)

end

/-- **Round trip.** `lzjb_compress` stays inside the destination, and what it wrote, if shorter than the source, is
decompressed to the source from those bytes alone. -/
theorem lzjb_round_trip (addr : Nat) (s : Block Uchar) (dLen : Nat) :
    ∃ c out, lzjbCompress addr s dLen = .ok (c, out) ∧ out.length ≤ dLen ∧ (c < s.len → c = out.length ∧
        lzjbDecompress (fun _ => .error .bounds) (ofList out) s.len = .ok (0, s.toList)) := by
  have hstart : Between s dLen 7 ⟨0, [], 0, 128, fun _ => 0⟩ :=
    ⟨rfl, le_rfl, zero_le _, zero_le _, fun h => absurd h (lt_irrefl 7), fun h => absurd h (lt_irrefl 7)⟩
  obtain ⟨c, out, hrun, hlen, hend⟩ := lzjbCompressLoop_spec addr (fun _ => .error .bounds) s.len hstart (by omega)
  refine ⟨c, out, hrun, hlen, fun hlt => ?_⟩
  rcases hend with hgave | ⟨hc, -, hresume⟩
  · omega
  · exact ⟨hc, hresume 0 (fun h => absurd h (lt_irrefl 7)) s.len (by omega)⟩

end Unleashed.Zfs
