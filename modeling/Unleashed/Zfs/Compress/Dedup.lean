import Unleashed.Zfs.Compress.Lzjb

/-!
# LZJB and the address of the source

The table of the compressor starts with zeros "to ensure deterministic results, so that identical
blocks can always be deduplicated". A slot that was never set is then an address like any other,
and whether it leads to a match depends on the address of the source modulo 1024. A block aligned
to 512 bytes has two of these.
-/

namespace Unleashed.Zfs

open Lib Function

/-! ## Addresses that are equal modulo 1024 -/

/-- The two tables give the same offsets. -/
def SameSlots (l l' : Nat → Nat) : Prop := ∀ h, l h % 1024 = l' h % 1024

/-- Two results that differ in the table only. -/
inductive Twin : Except Fault LzjbState → Except Fault LzjbState → Prop
  | ok {st : LzjbState} {l' : Nat → Nat} (same : SameSlots st.lempel l') : Twin (.ok st) (.ok { st with lempel := l' })
  | error (e : Fault) : Twin (.error e) (.error e)

section
variable {addr addr' : Nat} (s : Block Uchar) (dLen : Nat) {st : LzjbState} {l' : Nat → Nat}

lemma lzjbOffset_congr (haddr : addr % 1024 = addr' % 1024) (src : Nat) {hp hp' : Nat} (hhp : hp % 1024 = hp' % 1024) :
    lzjbOffset addr src hp = lzjbOffset addr' src hp' := by
  have h (a x : Nat) : (((a + src : Nat) : Int) - x).emod (offsetMask + 1) = (((a + src : Nat) : Int) - x) % 1024 := rfl
  unfold lzjbOffset
  rw [h, h]
  omega

lemma SameSlots.update (h : SameSlots st.lempel l') (haddr : addr % 1024 = addr' % 1024) (slot src : Nat) :
    SameSlots (update st.lempel slot ((addr + src) % 2 ^ 16)) (update l' slot ((addr' + src) % 2 ^ 16)) := by
  intro k
  by_cases hk : k = slot
  · subst hk
    rw [update_self, update_self]
    omega
  · rw [update_of_ne hk, update_of_ne hk]
    exact h k

lemma lzjbLiteral_twin (st : LzjbState) (h : SameSlots st.lempel l') : Twin (lzjbLiteral s dLen st) (lzjbLiteral s dLen { st with lempel := l' }) := by
  unfold lzjbLiteral
  cases s.read st.src with
  | error e => exact .error e
  | ok a =>
    rw [ok_bind, ok_bind]
    dsimp only
    cases push dLen st.out a with
    | error e => exact .error e
    | ok out =>
      have h' : SameSlots { st with src := st.src + 1, out := out }.lempel l' := h
      exact .ok h'

lemma lzjbMatch_twin (st : LzjbState) (h : SameSlots st.lempel l') (offset : Nat) :
    Twin (lzjbMatch s dLen offset st) (lzjbMatch s dLen offset { st with lempel := l' }) := by
  have hmark : lzjbMark { st with lempel := l' } = lzjbMark st := rfl
  unfold lzjbMatch
  rw [hmark]
  cases lzjbMark st with
  | error e => exact .error e
  | ok out =>
    rw [ok_bind, ok_bind]
    dsimp only
    cases lzjbMatchLen s st.src (st.src - offset) (matchMax - matchMin) matchMin with
    | error e => exact .error e
    | ok mlen =>
      rw [ok_bind, ok_bind]
      cases push dLen out (BitVec.ofNat 8 ((mlen - matchMin) <<< 2 ||| offset >>> 8)) with
      | error e => exact .error e
      | ok out =>
        rw [ok_bind, ok_bind]
        cases push dLen out (BitVec.ofNat 8 offset) with
        | error e => exact .error e
        | ok out =>
          have h' : SameSlots { st with src := st.src + mlen, out := out }.lempel l' := h
          exact .ok h'

lemma lzjbItem_twin (st : LzjbState) (haddr : addr % 1024 = addr' % 1024) (h : SameSlots st.lempel l') :
    Twin (lzjbItem addr s dLen st) (lzjbItem addr' s dLen { st with lempel := l' }) := by
  unfold lzjbItem
  dsimp only
  split_ifs with htail
  · exact lzjbLiteral_twin s dLen st h
  cases s.read st.src with
  | error e => exact .error e
  | ok a =>
    rw [ok_bind, ok_bind]
    cases s.read (st.src + 1) with
    | error e => exact .error e
    | ok b =>
      rw [ok_bind, ok_bind]
      cases s.read (st.src + 2) with
      | error e => exact .error e
      | ok c =>
        rw [ok_bind, ok_bind, lzjbOffset_congr haddr st.src (h (lzjbHash a b c))]
        have hslots := h.update haddr (lzjbHash a b c) st.src
        cases lzjbFound s st.src (lzjbOffset addr' st.src (l' (lzjbHash a b c))) a b c with
        | error e => exact .error e
        | ok found =>
          rw [ok_bind, ok_bind]
          cases found with
          | false => exact lzjbLiteral_twin s dLen { st with lempel := _ } hslots
          | true => exact lzjbMatch_twin s dLen { st with lempel := _ } hslots _

lemma lzjbGroup_lempel (l' : Nat → Nat) (st : LzjbState) :
    lzjbGroup dLen { st with lempel := l' } = (lzjbGroup dLen st).map (Option.map fun st => { st with lempel := l' }) ∧
    ∀ st1, lzjbGroup dLen st = .ok (some st1) → st1.lempel = st.lempel := by
  unfold lzjbGroup
  dsimp only
  split_ifs with hmask hfull
  · exact ⟨rfl, fun st1 h => absurd (Except.ok.inj h) (by simp)⟩
  · cases push dLen st.out (0 : Uchar) with
    | error e => exact ⟨rfl, fun st1 h => absurd h (by simp [Bind.bind, Except.bind])⟩
    | ok out =>
      refine ⟨rfl, fun st1 h => ?_⟩
      obtain rfl := Option.some.inj (Except.ok.inj h)
      rfl
  · refine ⟨rfl, fun st1 h => ?_⟩
    obtain rfl := Option.some.inj (Except.ok.inj h)
    rfl

/-- **Run.** -/
theorem lzjbCompressLoop_congr (haddr : addr % 1024 = addr' % 1024) (fuel : Nat) (h : SameSlots st.lempel l') :
    lzjbCompressLoop addr s dLen fuel st = lzjbCompressLoop addr' s dLen fuel { st with lempel := l' } := by
  induction fuel generalizing st l' with
  | zero => rfl
  | succ fuel ih =>
    rw [lzjbCompressLoop, lzjbCompressLoop]
    dsimp only
    split_ifs with hsrc
    swap
    · rfl
    obtain ⟨hgroup, hkeep⟩ := lzjbGroup_lempel dLen l' st
    rw [hgroup]
    cases hrun : lzjbGroup dLen st with
    | error e =>
      -- each side on its own: comparing the two continuations is slow
      show (Except.error e : Except Fault (Nat × List Uchar)) = .error e
      rfl
    | ok r =>
      cases r with
      | none =>
        show (Except.ok (s.len, st.out) : Except Fault (Nat × List Uchar)) = .ok (s.len, st.out)
        rfl
      | some st1 =>
        have hslots : SameSlots st1.lempel l' := by
          rw [hkeep st1 hrun]
          exact h
        have hitem := lzjbItem_twin s dLen st1 haddr hslots
        show (lzjbItem addr s dLen st1 >>= lzjbCompressLoop addr s dLen fuel) =
          (lzjbItem addr' s dLen { st1 with lempel := l' } >>= lzjbCompressLoop addr' s dLen fuel)
        generalize lzjbItem addr s dLen st1 = r at hitem ⊢
        generalize lzjbItem addr' s dLen { st1 with lempel := l' } = r' at hitem ⊢
        cases hitem with
        | ok same => exact ih same
        | error e =>
          show (Except.error e : Except Fault (Nat × List Uchar)) = .error e
          rfl

end

lemma lzjbCompress_congr {addr addr' : Nat} (haddr : addr % 1024 = addr' % 1024) (s : Block Uchar) (dLen : Nat) :
    lzjbCompress addr s dLen = lzjbCompress addr' s dLen :=
  lzjbCompressLoop_congr s dLen haddr s.len fun _ => rfl

/-! ## Addresses that are not -/

/-- Zeros to position 512, the end of a match, then 1, 2, 0, 1, 2: the bytes at 512 are never hashed, and come again
at 515. -/
def skippedBlock : Block Uchar :=
  ⟨581, fun i => if i = 513 ∨ i = 516 then 1 else if i = 514 ∨ i = 517 then 2 else 0⟩

lemma lzjbCompress_skippedBlock : (lzjbCompress 0 skippedBlock 581).toOption.map Prod.fst = some 95 ∧
    (lzjbCompress 512 skippedBlock 581).toOption.map Prod.fst = some 93 := by
  constructor <;> decide +kernel

/-- Two addresses of one block, both multiples of 512, and two lengths. -/
theorem identical_blocks_differ : (lzjbCompress 0xffffff0000001000 skippedBlock 581).toOption.map Prod.fst = some 95 ∧
    (lzjbCompress 0xffffff0000001200 skippedBlock 581).toOption.map Prod.fst = some 93 := by
  constructor <;> decide +kernel

/-- **Deduplication.** For addresses that are multiples of 512, identical blocks give identical data exactly if the
addresses are equal modulo 1024. -/
theorem lzjb_deterministic_iff (addr addr' : Nat) (h : 512 ∣ addr) (h' : 512 ∣ addr') :
    (∀ (s : Block Uchar) (dLen : Nat), lzjbCompress addr s dLen = lzjbCompress addr' s dLen) ↔ addr % 1024 = addr' % 1024 := by
  constructor
  · intro hall
    have hclass (a : Nat) (ha : 512 ∣ a) : a % 1024 = 0 % 1024 ∨ a % 1024 = 512 % 1024 := by omega
    obtain ⟨h95, h93⟩ := lzjbCompress_skippedBlock
    have hsame := hall skippedBlock 581
    rcases hclass addr h with h0 | h0 <;> rcases hclass addr' h' with h1 | h1
    · exact h0.trans h1.symm
    · rw [lzjbCompress_congr h0, lzjbCompress_congr h1] at hsame
      rw [hsame, h93] at h95
      exact absurd h95 (by decide)
    · rw [lzjbCompress_congr h0, lzjbCompress_congr h1] at hsame
      rw [← hsame, h93] at h95
      exact absurd h95 (by decide)
    · exact h0.trans h1.symm
  · intro heq s dLen
    exact lzjbCompress_congr heq s dLen

theorem lzjb_deterministic_pages :
    (∀ (s : Block Uchar) (dLen : Nat), lzjbCompress 4096 s dLen = lzjbCompress 8192 s dLen) ↔ 4096 % 1024 = 8192 % 1024 :=
  lzjb_deterministic_iff 4096 8192 (by decide) (by decide)

end Unleashed.Zfs
