import Unleashed.Zfs.SpaceMap.Log

/-!
# Reading a space map

`space_map_iterate` walks the object block by block; on words that decode it is the fold of the callback over the
entries, because no entry straddles a block.
-/

namespace Unleashed.Zfs

open Lib List Nat

/-- The callback applied to entries in order, until it returns an error. -/
def foldCallback {σ : Type} (callback : σ → SpaceMapEntry → Except Fault (σ × Nat)) :
    List SpaceMapEntry → σ → Except Fault (σ × Nat)
  | [], arg => .ok (arg, 0)
  | e :: es, arg => do
    let (arg, error) ← callback arg e
    if error = 0 then foldCallback callback es arg else .ok (arg, error)

/-- The first `n` bytes of the object read as the entries `es`. -/
def SpaceMap.LogTo (sm : SpaceMap) (n : Nat) (es : List SpaceMapEntry) : Prop :=
  ∃ ws, 8 * ws.length = n ∧ WordsAt sm.words 0 ws ∧ Decodes sm.toSpaceMapRegion sm.blockWords 0 ws es

variable {words : Nat → Nat} {i w : Nat} {ws : List Nat}

lemma WordsAt.head (h : WordsAt words i (w :: ws)) : words i = w := h 0 (succ_pos _)

lemma WordsAt.tail (h : WordsAt words i (w :: ws)) : WordsAt words (i + 1) ws := by
  intro j hj
  have := h (j + 1) (by simpa using hj)
  rw [add_assoc, add_comm 1]
  simpa using this

lemma wordsAt_append {ws' : List Nat} :
    WordsAt words i (ws ++ ws') ↔ WordsAt words i ws ∧ WordsAt words (i + ws.length) ws' := by
  induction ws generalizing i with
  | nil =>
    simp only [nil_append, length_nil, add_zero]
    exact ⟨fun h => ⟨fun j hj => by simp at hj, h⟩, fun h => h.2⟩
  | cons w ws ih =>
    have hlen : i + (w :: ws).length = i + 1 + ws.length := by simp; omega
    rw [hlen]
    constructor
    · intro h
      obtain ⟨h1, h2⟩ := ih.1 h.tail
      refine ⟨fun j hj => ?_, h2⟩
      cases j with
      | zero => simpa using h.head
      | succ j =>
        have := h1 j (by simpa using hj)
        rw [add_assoc, add_comm 1] at this
        simpa using this
    · rintro ⟨h1, h2⟩
      have ht := ih.2 ⟨h1.tail, h2⟩
      intro j hj
      cases j with
      | zero => simpa using h1.head
      | succ j =>
        have := ht j (by simpa using hj)
        rw [add_assoc, add_comm 1] at this
        simpa using this

variable {pos : Nat} {es : List SpaceMapEntry}

lemma Decodes.split {r : SpaceMapRegion} {b : Nat}
    (h : Decodes r b pos ws es) : ∀ q, pos ≤ q → q ≤ pos + ws.length → q % b = 0 →
      ∃ ws1 ws2 es1 es2, ws = ws1 ++ ws2 ∧ es = es1 ++ es2 ∧ pos + ws1.length = q ∧
        Decodes r b pos ws1 es1 ∧ Decodes r b q ws2 es2 := by
  induction h with
  | nil pos =>
    intro q h1 h2 _
    obtain rfl : pos = q := by simp at h2; omega
    exact ⟨[], [], [], [], rfl, rfl, rfl, .nil _, .nil _⟩
  | @debug pos w ws es hw hrest ih =>
    intro q h1 h2 hb
    by_cases hq : pos = q
    · subst hq; exact ⟨[], w :: ws, [], es, rfl, rfl, rfl, .nil _, .debug hw hrest⟩
    · obtain ⟨ws1, ws2, es1, es2, rfl, rfl, hp, hd, hd'⟩ := ih q (by omega) (by simp at h2; omega) hb
      exact ⟨w :: ws1, ws2, es1, es2, rfl, rfl, by simp; omega, .debug hw hd, hd'⟩
  | @single pos w ws e es hd hw he hrest ih =>
    intro q h1 h2 hb
    by_cases hq : pos = q
    · subst hq; exact ⟨[], w :: ws, [], e :: es, rfl, rfl, rfl, .nil _, .single hd hw he hrest⟩
    · obtain ⟨ws1, ws2, es1, es2, rfl, rfl, hp, hd1, hd'⟩ := ih q (by omega) (by simp at h2; omega) hb
      exact ⟨w :: ws1, ws2, e :: es1, es2, rfl, rfl, by simp; omega, .single hd hw he hd1, hd'⟩
  | @double pos w w' ws e es hd hs hw hne he hrest ih =>
    intro q h1 h2 hb
    by_cases hq : pos = q
    · subst hq
      exact ⟨[], w :: w' :: ws, [], e :: es, rfl, rfl, rfl, .nil _, .double hd hs hw hne he hrest⟩
    · -- the boundary is not between the two words
      have hq' : q ≠ pos + 1 := fun h => hne (h ▸ hb)
      obtain ⟨ws1, ws2, es1, es2, rfl, rfl, hp, hd1, hd'⟩ := ih q (by omega) (by simp at h2; omega) hb
      exact ⟨w :: w' :: ws1, ws2, e :: es1, es2, rfl, rfl, by simp; omega, .double hd hs hw hne he hd1, hd'⟩

section
variable {σ : Type} {sm : SpaceMap} (callback : σ → SpaceMapEntry → Except Fault (σ × Nat))

lemma foldCallback_append (es es' : List SpaceMapEntry) (arg : σ) : foldCallback callback (es ++ es') arg = (do
      let (arg, error) ← foldCallback callback es arg
      if error = 0 then foldCallback callback es' arg else .ok (arg, error)) := by
  induction es generalizing arg with
  | nil => rfl
  | cons e es ih =>
    simp only [cons_append, foldCallback]
    cases callback arg e with
    | error f => rfl
    | ok p =>
      obtain ⟨arg, error⟩ := p
      by_cases h : error = 0
      · simp only [ok_bind, h, if_true]; exact ih arg
      · simp [ok_bind, h]

/-- Within one block the reader is the fold over the entries of the block. -/
lemma iterateBlock_eq {base blockEnd : Nat} (hend : blockEnd ≤ sm.blockWords)
    (h : Decodes sm.toSpaceMapRegion sm.blockWords pos ws es) (fuel cursor : Nat) (arg : σ) (hpos : pos = base / 8 + cursor)
    (hlen : cursor + ws.length = blockEnd) (hfuel : ws.length ≤ fuel) (hat : WordsAt sm.words pos ws) :
    iterateBlock sm callback base blockEnd fuel cursor arg = foldCallback callback es arg := by
  induction h generalizing fuel cursor arg with
  | nil pos =>
    have hc : ¬ cursor < blockEnd := by simp at hlen; omega
    cases fuel <;> simp [iterateBlock, hc, foldCallback]
  | @debug pos w ws es hw _ ih =>
    simp only [length_cons] at hlen hfuel
    obtain ⟨fuel, rfl⟩ : ∃ k, fuel = k + 1 := ⟨fuel - 1, by omega⟩
    have hc : cursor < blockEnd := by omega
    rw [iterateBlock, if_pos hc, ← hpos, hat.head, if_pos hw]
    exact ih fuel (cursor + 1) arg (by omega) (by omega) (by omega) hat.tail
  | @single pos w ws e es hd hw he _ ih =>
    simp only [length_cons] at hlen hfuel
    obtain ⟨fuel, rfl⟩ : ∃ k, fuel = k + 1 := ⟨fuel - 1, by omega⟩
    have hc : cursor < blockEnd := by omega
    have hcont := fun arg => ih fuel (cursor + 1) arg (by omega) (by omega) (by omega) hat.tail
    rw [iterateBlock, if_pos hc, ← hpos, hat.head]
    simp only [hd, hw, Bool.false_eq_true, if_false, if_true, he, ok_bind, foldCallback, hcont]
  | @double pos w w' ws e es hd hs hw _ he _ ih =>
    simp only [length_cons] at hlen hfuel
    obtain ⟨fuel, rfl⟩ : ∃ k, fuel = k + 1 := ⟨fuel - 1, by omega⟩
    have hc : cursor < blockEnd := by omega
    have hnext : ¬ sm.blockWords ≤ cursor + 1 := by omega
    have hcont := fun arg => ih fuel (cursor + 2) arg (by omega) (by omega) (by omega) hat.tail.tail
    rw [iterateBlock, if_pos hc, ← hpos, hat.head,
      show base / 8 + (cursor + 1) = pos + 1 by omega, hat.tail.head]
    simp only [hd, hs, Bool.false_eq_true, if_false]
    rw [ASSERT_bind hw, if_neg hnext]
    rw [VERIFY_bind (by omega)]
    simp only [he, ok_bind, foldCallback, hcont]

variable {hold : Nat → Nat}

/-- From a block boundary on, the reader is the fold over the remaining entries. -/
lemma iterateBlocks_eq (hhold : ∀ base, hold base = 0) (fuel : Nat) :
    ∀ (k : Nat) (ws : List Nat) (es : List SpaceMapEntry) (arg : σ),
      k * sm.smBlksz + 8 * ws.length = max sm.smLength (k * sm.smBlksz) →
      ws.length ≤ fuel * sm.blockWords → WordsAt sm.words (k * sm.blockWords) ws →
      Decodes sm.toSpaceMapRegion sm.blockWords (k * sm.blockWords) ws es →
      iterateBlocks sm callback hold fuel (k * sm.smBlksz) arg = foldCallback callback es arg := by
  have hbw := blockWords_mul sm
  have h2 := two_le_blockWords sm
  induction fuel with
  | zero =>
    intro k ws es arg hlen hfuel _ hdec
    obtain rfl : ws = [] := by simpa using hfuel
    cases hdec
    rw [iterateBlocks, if_neg (by simp at hlen; omega)]
    rfl
  | succ fuel ih =>
    intro k ws es arg hlen hfuel hat hdec
    rw [iterateBlocks]
    by_cases hlt : k * sm.smBlksz < sm.smLength
    · have hbase : k * sm.smBlksz / 8 = k * sm.blockWords := by
        rw [← hbw, Nat.mul_left_comm, Nat.mul_div_cancel_left _ (by norm_num)]
      have hrem : sm.smLength - k * sm.smBlksz = 8 * ws.length := by omega
      have hbl : min (sm.smLength - k * sm.smBlksz) sm.smBlksz = 8 * min ws.length sm.blockWords := by
        omega
      -- the entries of this block, and the rest at the next block boundary
      obtain ⟨ws1, ws2, es1, es2, rfl, rfl, hl, hd1, hd2, hnext⟩ : ∃ ws1 ws2 es1 es2, ws = ws1 ++ ws2 ∧
          es = es1 ++ es2 ∧ ws1.length = min ws.length sm.blockWords ∧
          Decodes sm.toSpaceMapRegion sm.blockWords (k * sm.blockWords) ws1 es1 ∧
          Decodes sm.toSpaceMapRegion sm.blockWords ((k + 1) * sm.blockWords) ws2 es2 ∧
          (ws2 ≠ [] → ws1.length = sm.blockWords) := by
        by_cases hfull : sm.blockWords ≤ ws.length
        · obtain ⟨ws1, ws2, es1, es2, rfl, rfl, hp, hd1, hd2⟩ := hdec.split ((k + 1) * sm.blockWords)
            (by rw [Nat.succ_mul]; omega) (by rw [Nat.succ_mul]; omega) (Nat.mul_mod_left _ _)
          rw [Nat.succ_mul] at hp
          exact ⟨ws1, ws2, es1, es2, rfl, rfl, by omega, hd1, hd2, fun _ => by omega⟩
        · exact ⟨ws, [], es, [], by simp, by simp, by omega, hdec, .nil _, by simp⟩
      obtain ⟨hat1, hat2⟩ := wordsAt_append.1 hat
      have hpos : 0 < ws1.length := by
        rw [hl]
        have : 0 < 8 * (ws1 ++ ws2).length := by omega
        omega
      rw [if_pos hlt, if_neg (by simp [hhold])]
      dsimp only
      rw [hbl, VERIFY_bind (by rw [show (8 : Nat) = 1 <<< 3 from rfl, BitField.phase_eq]; omega),
        VERIFY_bind (by omega), Nat.mul_div_cancel_left _ (by norm_num : 0 < 8), ← hl,
        iterateBlock_eq callback (by omega) hd1 ws1.length 0 arg (by omega) (by omega) le_rfl hat1,
        foldCallback_append]
      congr 1
      funext p
      obtain ⟨arg, error⟩ := p
      by_cases herr : error = 0
      · simp only [herr, if_true]
        rw [show k * sm.smBlksz + sm.smBlksz = (k + 1) * sm.smBlksz by rw [Nat.succ_mul]]
        simp only [List.length_append] at hlen hfuel
        rw [Nat.succ_mul] at hfuel
        refine ih (k + 1) ws2 es2 arg ?_ ?_ ?_ hd2
        · rw [Nat.succ_mul]
          by_cases hw : ws2 = []
          · subst hw; simp at hlen ⊢; omega
          · have := hnext hw; omega
        · by_cases hw : ws2 = []
          · subst hw; simp
          · have := hnext hw; omega
        · by_cases hw : ws2 = []
          · subst hw; intro j hj; simp at hj
          · rw [Nat.succ_mul]; exact hnext hw ▸ hat2
      · simp [herr]
    · obtain rfl : ws = [] := List.length_eq_zero_iff.1 (by omega)
      cases hdec
      rw [if_neg hlt]
      rfl

/-- **`space_map_iterate`** on words that decode is the fold of the callback. -/
theorem spaceMapIterate_eq (hhold : ∀ base, hold base = 0) (h : sm.LogTo sm.smLength es) (arg : σ) :
    spaceMapIterate sm callback hold arg = foldCallback callback es arg := by
  obtain ⟨ws, hlen, hat, hdec⟩ := h
  have hbw := blockWords_mul sm
  have h2 := two_le_blockWords sm
  have := iterateBlocks_eq callback hhold (sm.smLength / sm.smBlksz + 1) 0 ws es arg (by simp; omega) (by
      have h1 := Nat.lt_mul_div_succ sm.smLength (show 0 < sm.smBlksz by omega)
      rw [← hlen, ← hbw, Nat.mul_div_mul_left _ _ (by norm_num : 0 < 8), Nat.mul_assoc] at h1
      rw [← hlen, ← hbw, Nat.mul_div_mul_left _ _ (by norm_num : 0 < 8), Nat.mul_comm]
      omega)
    (by simpa using hat) (by simpa using hdec)
  simpa [spaceMapIterate] using this

end

end Unleashed.Zfs
