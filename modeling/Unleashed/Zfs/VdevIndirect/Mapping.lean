import Unleashed.Lib.Fault

/-!
# The mapping of a removed vdev

When a vdev is removed, an array of entries by source offset says where each range went.
`vdev_indirect_mapping_entry_for_offset` finds the entry of an offset by binary search.
-/

namespace Unleashed.Zfs

open Lib List

/-- `vdev_indirect_mapping_entry_phys_t`: `asize` bytes at `srcOffset` are at `dstOffset` of `dstVdev`. -/
structure VimEntry where
  (srcOffset dstVdev dstOffset asize : Nat)
deriving DecidableEq, Repr

/-- The entry maps the offset. -/
def VimEntry.Maps (e : VimEntry) (offset : Nat) : Prop :=
  e.srcOffset ≤ offset ∧ offset < e.srcOffset + e.asize

instance (e : VimEntry) (offset : Nat) : Decidable (e.Maps offset) :=
  inferInstanceAs (Decidable (_ ∧ _))

/-- `vdev_indirect_mapping_t` with its `vdev_indirect_mapping_phys_t` and its obsolete counts. -/
structure VdevIndirectMapping where
  vimHavecounts : Bool
  vimEntries : List VimEntry
  vimpCounts : List Nat
  (vimpMaxOffset vimpBytesMapped : Nat)
deriving DecidableEq, Repr

def VdevIndirectMapping.numEntries (vim : VdevIndirectMapping) : Nat :=
  vim.vimEntries.length

/-- A mapping whose source ranges are sorted and disjoint. -/
structure SortedMapping extends VdevIndirectMapping where
  sorted : vimEntries.Pairwise fun e f => e.srcOffset + e.asize ≤ f.srcOffset
  end_le_max : ∀ e ∈ vimEntries, e.srcOffset + e.asize ≤ vimpMaxOffset
  max_lt : vimpMaxOffset < 2 ^ 64
  inMemory : 24 * vimEntries.length < 2 ^ 64

/-- `vdev_indirect_mapping_verify`, its check of the last entry. -/
def vdevIndirectMappingVerify (vim : VdevIndirectMapping) : Except Fault Unit :=
  match vim.vimEntries.getLast? with
  | none => .ok ()
  | some e => ASSERT (vim.vimpMaxOffset ≥ (e.srcOffset + e.asize) % 2 ^ 64)

/-- `vim_entries[i]`. -/
def VdevIndirectMapping.entryAt (vim : VdevIndirectMapping) (i : Nat) : Except Fault VimEntry :=
  match vim.vimEntries[i]? with
  | none => .error .bounds
  | some e => .ok e

def dvaMappingOverlapCompare (key : Nat) (e : VimEntry) : Int :=
  if key < e.srcOffset then -1
  else if key < (e.srcOffset + e.asize) % 2 ^ 64 then 0
  else 1

/-- The variables of the search. -/
structure VimSearch where
  (base last mid : Nat)
  result : Int
deriving DecidableEq, Repr

/-- The `while` loop of the search, on unsigned indices: `mid - 1` of 0 wraps. -/
def searchLoop (vim : VdevIndirectMapping) (offset : Nat) : Nat → VimSearch → Except Fault (Option Nat × VimSearch)
  | 0, _ => .error .fuel
  | fuel + 1, s =>
    if s.last ≥ s.base then do
      let mid := s.base + (s.last - s.base) / 2
      let e ← vim.entryAt mid
      let result := dvaMappingOverlapCompare offset e
      if result = 0 then .ok (some mid, ⟨s.base, s.last, mid, result⟩)
      else if result < 0 then searchLoop vim offset fuel ⟨s.base, (mid + (2 ^ 64 - 1)) % 2 ^ 64, mid, result⟩
      else searchLoop vim offset fuel ⟨(mid + 1) % 2 ^ 64, s.last, mid, result⟩
    else .ok (none, s)

/-- The offset is in no entry: the entry after it. -/
def nextEntry (vim : VdevIndirectMapping) (offset : Nat) (s : VimSearch) : Except Fault (Option Nat) := do
  ASSERT (s.base = (s.last + 1) % 2 ^ 64)
  ASSERT (s.mid = s.base ∨ s.mid = s.last)
  ASSERT (s.result ≠ 0)
  let index := if s.result < 0 then s.mid else (s.mid + 1) % 2 ^ 64
  ASSERT (index ≤ vim.numEntries)
  if index = vim.numEntries then do
    let prev ← vim.entryAt (index - 1)
    ASSERT (dvaMappingOverlapCompare offset prev > 0)
    .ok none
  else do
    let next ← vim.entryAt index
    ASSERT (dvaMappingOverlapCompare offset next < 0)
    if index ≥ 1 then do
      let prev ← vim.entryAt (index - 1)
      ASSERT (dvaMappingOverlapCompare offset prev > 0)
      .ok (some index)
    else .ok (some index)

/-- The result is the index of the entry. -/
def vdevIndirectMappingEntryForOffsetImpl (vim : VdevIndirectMapping) (offset : Nat) (nextIfMissing : Bool) :
    Except Fault (Option Nat) := do
  vdevIndirectMappingVerify vim
  ASSERT (vim.numEntries > 0)
  let r ← searchLoop vim offset (vim.numEntries + 1) ⟨0, vim.numEntries - 1, 0, 0⟩
  if r.1 = none ∧ nextIfMissing then nextEntry vim offset r.2 else .ok r.1

def vdevIndirectMappingEntryForOffset (vim : VdevIndirectMapping) (offset : Nat) : Except Fault (Option Nat) :=
  vdevIndirectMappingEntryForOffsetImpl vim offset false

def vdevIndirectMappingEntryForOffsetOrNext (vim : VdevIndirectMapping) (offset : Nat) : Except Fault (Option Nat) :=
  vdevIndirectMappingEntryForOffsetImpl vim offset true

section
variable {vim : SortedMapping} {offset i j : Nat} {e f : VimEntry}

lemma entryAt_some {vim : VdevIndirectMapping} (h : vim.vimEntries[i]? = some e) : vim.entryAt i = .ok e := by
  rw [VdevIndirectMapping.entryAt, h]

lemma SortedMapping.end_lt (h : e ∈ vim.vimEntries) : e.srcOffset + e.asize < 2 ^ 64 :=
  (vim.end_le_max e h).trans_lt vim.max_lt

lemma SortedMapping.end_le_src (hi : vim.vimEntries[i]? = some e) (hj : vim.vimEntries[j]? = some f) (hij : i < j) :
    e.srcOffset + e.asize ≤ f.srcOffset := by
  obtain ⟨hi', rfl⟩ := List.getElem?_eq_some_iff.1 hi
  obtain ⟨hj', rfl⟩ := List.getElem?_eq_some_iff.1 hj
  exact pairwise_iff_getElem.1 vim.sorted i j hi' hj' hij

lemma SortedMapping.index_unique (hi : vim.vimEntries[i]? = some e) (hj : vim.vimEntries[j]? = some f) (he : e.Maps offset)
    (hf : f.Maps offset) : j = i := by
  obtain ⟨_, _⟩ := he
  obtain ⟨_, _⟩ := hf
  rcases Nat.lt_trichotomy i j with hij | hij | hij
  · have := vim.end_le_src hi hj hij
    omega
  · exact hij.symm
  · have := vim.end_le_src hj hi hij
    omega

lemma SortedMapping.verify (vim : SortedMapping) : vdevIndirectMappingVerify vim.toVdevIndirectMapping = .ok () := by
  rw [vdevIndirectMappingVerify]
  cases h : vim.vimEntries.getLast? with
  | none => rfl
  | some e =>
    have he : e ∈ vim.vimEntries := mem_of_getLast? h
    exact ASSERT_eq_ok.2 ((Nat.mod_le ..).trans (vim.end_le_max e he))

lemma compare_cases (offset : Nat) (he : e ∈ vim.vimEntries) :
    dvaMappingOverlapCompare offset e = -1 ∧ offset < e.srcOffset ∨ dvaMappingOverlapCompare offset e = 0 ∧ e.Maps offset ∨
      dvaMappingOverlapCompare offset e = 1 ∧ e.srcOffset + e.asize ≤ offset := by
  unfold dvaMappingOverlapCompare VimEntry.Maps
  rw [Nat.mod_eq_of_lt (vim.end_lt he)]
  split
  · exact .inl ⟨rfl, by assumption⟩
  · split
    · exact .inr (.inl ⟨rfl, by omega, by assumption⟩)
    · exact .inr (.inr ⟨rfl, by omega⟩)

lemma compare_low (h : offset < e.srcOffset) : dvaMappingOverlapCompare offset e = -1 :=
  if_pos h

lemma compare_high (he : e ∈ vim.vimEntries) (h : e.srcOffset + e.asize ≤ offset) : dvaMappingOverlapCompare offset e = 1 := by
  rw [dvaMappingOverlapCompare, if_neg (by omega), if_neg (by rw [Nat.mod_eq_of_lt (vim.end_lt he)]; omega)]

end

section
variable {vim : SortedMapping} {offset : Nat}

/-- The entries before `lo` end by the offset; those from `hi` on start after it. -/
structure Splits (vim : SortedMapping) (offset lo hi : Nat) : Prop where
  below : ∀ j e, vim.vimEntries[j]? = some e → j < lo → e.srcOffset + e.asize ≤ offset
  above : ∀ j e, vim.vimEntries[j]? = some e → hi ≤ j → offset < e.srcOffset

/-- Invariant of the search: the last comparison is next to the range left. -/
structure Searching (vim : SortedMapping) (offset : Nat) (s : VimSearch) : Prop where
  range : s.base ≤ s.last + 1
  last_lt : s.last < vim.numEntries
  splits : Splits vim offset s.base (s.last + 1)
  compared : s.base ≤ s.last ∨ s.result = 1 ∧ s.mid + 1 = s.base ∨ s.result = -1 ∧ s.mid = s.last + 1

/-- What the loop finds: the entry of the offset, or the place between two entries. -/
def SearchEnds (vim : SortedMapping) (offset : Nat) : Option Nat × VimSearch → Prop
  | (some i, _) => ∃ e, vim.vimEntries[i]? = some e ∧ e.Maps offset
  | (none, s) => Searching vim offset s ∧ s.base = s.last + 1

/-- **The loop**, if the first entry is not above the offset. -/
theorem searchLoop_spec (hfirst : ∀ e, vim.vimEntries[0]? = some e → e.srcOffset ≤ offset) :
    ∀ (fuel : Nat) (s : VimSearch), Searching vim offset s → s.last + 1 - s.base < fuel →
      ∃ r, searchLoop vim.toVdevIndirectMapping offset fuel s = .ok r ∧ SearchEnds vim offset r := by
  intro fuel
  induction fuel with
  | zero => exact fun s _ hf => absurd hf (Nat.not_lt_zero _)
  | succ fuel ih =>
    intro s hs hf
    have hmem := vim.inMemory
    have hlast : s.last < vim.vimEntries.length := hs.last_lt
    rw [searchLoop]
    by_cases hle : s.last ≥ s.base
    · rw [if_pos hle]
      dsimp only
      generalize hmid : s.base + (s.last - s.base) / 2 = mid
      obtain ⟨e, he⟩ : ∃ e, vim.vimEntries[mid]? = some e := ⟨_, getElem?_eq_getElem (by omega)⟩
      rw [entryAt_some he, ok_bind]
      rcases compare_cases offset (mem_of_getElem? he) with ⟨hc, hlow⟩ | ⟨hc, hin⟩ | ⟨hc, hhigh⟩
      · -- the entry starts after the offset, so it is not the first one
        have hpos : 0 < mid := by
          rcases Nat.eq_zero_or_pos mid with h0 | h0
          · rw [h0] at he
            have := hfirst e he
            omega
          · exact h0
        rw [if_neg (by rw [hc]; decide), if_pos (by rw [hc]; decide)]
        have hwrap : (mid + (2 ^ 64 - 1)) % 2 ^ 64 = mid - 1 := by omega
        rw [hwrap]
        refine ih _ ⟨by dsimp only; omega, by show mid - 1 < vim.vimEntries.length; omega, ⟨hs.splits.below, ?_⟩, ?_⟩ (by dsimp only; omega)
        · intro j f hf' hj
          dsimp only at hj
          rcases Nat.lt_or_ge mid j with hj' | hj'
          · have := vim.end_le_src he hf' hj'
            omega
          · obtain rfl : j = mid := by omega
            rw [he] at hf'
            cases hf'
            exact hlow
        · exact .inr (.inr ⟨hc, by dsimp only; omega⟩)
      · rw [if_pos hc]
        exact ⟨_, rfl, e, he, hin⟩
      · rw [if_neg (by rw [hc]; decide), if_neg (by rw [hc]; decide)]
        have hwrap : (mid + 1) % 2 ^ 64 = mid + 1 := by omega
        rw [hwrap]
        refine ih _ ⟨by dsimp only; omega, hs.last_lt, ⟨?_, hs.splits.above⟩, ?_⟩ (by dsimp only; omega)
        · intro j f hf' hj
          dsimp only at hj
          rcases Nat.lt_or_ge j mid with hj' | hj'
          · have := vim.end_le_src hf' he hj'
            omega
          · obtain rfl : j = mid := by omega
            rw [he] at hf'
            cases hf'
            exact hhigh
        · exact .inr (.inl ⟨hc, rfl⟩)
    · rw [if_neg hle]
      have := hs.range
      exact ⟨_, rfl, hs, by omega⟩

/-- Below the first entry the search leaves the array: `last` wraps. -/
lemma searchLoop_low {vim : VdevIndirectMapping} (hlow : ∀ e ∈ vim.vimEntries, offset < e.srcOffset) :
    ∀ (fuel : Nat) (s : VimSearch), s.base = 0 → ∃ f, searchLoop vim offset fuel s = .error f := by
  intro fuel
  induction fuel with
  | zero => exact fun _ _ => ⟨.fuel, rfl⟩
  | succ fuel ih =>
    intro s hbase
    rw [searchLoop, if_pos (by omega)]
    dsimp only
    generalize s.base + (s.last - s.base) / 2 = mid
    cases he : vim.vimEntries[mid]? with
    | none =>
      rw [VdevIndirectMapping.entryAt, he]
      exact ⟨.bounds, rfl⟩
    | some e =>
      have hc := compare_low (hlow e (mem_of_getElem? he))
      rw [entryAt_some he, ok_bind]
      rw [if_neg (by rw [hc]; decide), if_pos (by rw [hc]; decide)]
      exact ih _ hbase

lemma nextEntry_spec {s : VimSearch} (hs : Searching vim offset s) (hend : s.base = s.last + 1) :
    nextEntry vim.toVdevIndirectMapping offset s = .ok (if s.base = vim.numEntries then none else some s.base) := by
  have hmem := vim.inMemory
  have hlast : s.last < vim.vimEntries.length := hs.last_lt
  have hn : vim.numEntries = vim.vimEntries.length := rfl
  have hindex : (if s.result < 0 then s.mid else (s.mid + 1) % 2 ^ 64) = s.base := by
    rcases hs.compared with h | ⟨hr, hm⟩ | ⟨hr, hm⟩
    · omega
    · rw [if_neg (by rw [hr]; decide)]
      omega
    · rw [if_pos (by rw [hr]; decide)]
      omega
  have hprev : ∀ e, vim.vimEntries[s.base - 1]? = some e → dvaMappingOverlapCompare offset e > 0 := by
    intro e he
    rw [compare_high (mem_of_getElem? he) (hs.splits.below _ _ he (by omega))]
    decide
  obtain ⟨prev, hp⟩ : ∃ e, vim.vimEntries[s.base - 1]? = some e := ⟨_, getElem?_eq_getElem (by omega)⟩
  rw [nextEntry, ASSERT_bind (by omega), ASSERT_bind (by rcases hs.compared with h | ⟨_, h⟩ | ⟨_, h⟩ <;> omega),
    ASSERT_bind (by rcases hs.compared with h | ⟨h, _⟩ | ⟨h, _⟩ <;> omega)]
  rw [hindex, ASSERT_bind (by omega)]
  by_cases heq : s.base = vim.numEntries
  · rw [if_pos heq, if_pos heq, entryAt_some hp, ok_bind, ASSERT_bind (hprev prev hp)]
  · obtain ⟨next, hnext⟩ : ∃ e, vim.vimEntries[s.base]? = some e := ⟨_, getElem?_eq_getElem (by omega)⟩
    have hc : dvaMappingOverlapCompare offset next < 0 := by
      rw [compare_low (hs.splits.above _ _ hnext (by omega))]
      decide
    rw [if_neg heq, if_neg heq, entryAt_some hnext, ok_bind, ASSERT_bind hc, if_pos (by omega), entryAt_some hp, ok_bind,
      ASSERT_bind (hprev prev hp)]

end

section
variable {vim : SortedMapping} {offset : Nat}

/-- The result of a search for the entry that maps the offset. -/
def FoundAt (vim : SortedMapping) (offset : Nat) : Option Nat → Prop
  | some i => ∃ e, vim.vimEntries[i]? = some e ∧ e.Maps offset ∧ ∀ j f, vim.vimEntries[j]? = some f → f.Maps offset → j = i
  | none => ∀ e ∈ vim.vimEntries, ¬ e.Maps offset

/-- The entry that maps the offset, or else the first one after it. -/
def FoundOrNextAt (vim : SortedMapping) (offset : Nat) : Option Nat → Prop
  | some i => FoundAt vim offset (some i) ∨ FoundAt vim offset none ∧
      ∃ e, vim.vimEntries[i]? = some e ∧ offset < e.srcOffset ∧ ∀ j f, vim.vimEntries[j]? = some f → j < i → f.srcOffset ≤ offset
  | none => FoundAt vim offset none ∧ ∀ e ∈ vim.vimEntries, e.srcOffset ≤ offset

lemma Splits.not_maps {k : Nat} (h : Splits vim offset k k) : FoundAt vim offset none := by
  rintro e he ⟨hlo, hhi⟩
  obtain ⟨j, hj⟩ := mem_iff_getElem?.1 he
  rcases Nat.lt_or_ge j k with hk | hk
  · have := h.below j e hj hk
    omega
  · have := h.above j e hj hk
    omega

/-- **The search**, at or after the first entry. -/
theorem entryForOffset_spec (hn : vim.vimEntries ≠ []) (hfirst : ∀ e, vim.vimEntries[0]? = some e → e.srcOffset ≤ offset) :
    (∃ r, vdevIndirectMappingEntryForOffset vim.toVdevIndirectMapping offset = .ok r ∧ FoundAt vim offset r) ∧
      ∃ r, vdevIndirectMappingEntryForOffsetOrNext vim.toVdevIndirectMapping offset = .ok r ∧ FoundOrNextAt vim offset r := by
  have hpos : 0 < vim.vimEntries.length := length_pos_of_ne_nil hn
  have hnum : vim.numEntries = vim.vimEntries.length := rfl
  have hstart : Searching vim offset ⟨0, vim.numEntries - 1, 0, 0⟩ := by
    refine ⟨by dsimp only; omega, by dsimp only; omega, ⟨fun j e _ hj => absurd hj (Nat.not_lt_zero j), ?_⟩, .inl (by dsimp only; omega)⟩
    intro j e hj hle
    obtain ⟨hlt, -⟩ := List.getElem?_eq_some_iff.1 hj
    dsimp only at hle
    omega
  obtain ⟨⟨o, s⟩, heq, hr⟩ := searchLoop_spec hfirst (vim.numEntries + 1) _ hstart (by dsimp only; omega)
  have himpl : ∀ next, vdevIndirectMappingEntryForOffsetImpl vim.toVdevIndirectMapping offset next =
      if o = none ∧ next then nextEntry vim.toVdevIndirectMapping offset s else .ok o := by
    intro next
    rw [vdevIndirectMappingEntryForOffsetImpl, vim.verify, ok_bind, ASSERT_bind (by omega), heq, ok_bind]
  rw [vdevIndirectMappingEntryForOffset, vdevIndirectMappingEntryForOffsetOrNext, himpl, himpl, if_neg (by simp)]
  cases o with
  | some i =>
    obtain ⟨e, he, hmaps⟩ := hr
    have hfound : FoundAt vim offset (some i) := ⟨e, he, hmaps, fun j f hj hf => vim.index_unique he hj hmaps hf⟩
    exact ⟨⟨_, rfl, hfound⟩, _, if_neg (by simp), .inl hfound⟩
  | none =>
    obtain ⟨hs, hend⟩ := hr
    have hsplit : Splits vim offset s.base s.base := ⟨hs.splits.below, hend ▸ hs.splits.above⟩
    refine ⟨⟨_, rfl, hsplit.not_maps⟩, ?_⟩
    rw [if_pos ⟨rfl, rfl⟩, nextEntry_spec hs hend]
    refine ⟨_, rfl, ?_⟩
    by_cases hb : s.base = vim.numEntries
    · rw [if_pos hb]
      refine ⟨hsplit.not_maps, fun e he => ?_⟩
      obtain ⟨j, hj⟩ := List.mem_iff_getElem?.1 he
      obtain ⟨hlt, -⟩ := List.getElem?_eq_some_iff.1 hj
      have := hsplit.below j e hj (by omega)
      omega
    · rw [if_neg hb]
      have hlast := hs.last_lt
      obtain ⟨e, he⟩ : ∃ e, vim.vimEntries[s.base]? = some e := ⟨_, getElem?_eq_getElem (by omega)⟩
      refine .inr ⟨hsplit.not_maps, e, he, hsplit.above _ _ he (Nat.le_refl _), fun j f hj hlt => ?_⟩
      have := hsplit.below j f hj hlt
      omega

/-- **The lookups** are right if and only if the offset is not below the first entry. -/
theorem entry_for_offset_iff (vim : SortedMapping) (first : VimEntry) (hfirst : vim.vimEntries.head? = some first) (offset : Nat) :
    ((∃ r, vdevIndirectMappingEntryForOffset vim.toVdevIndirectMapping offset = .ok r ∧ FoundAt vim offset r) ∧
      ∃ r, vdevIndirectMappingEntryForOffsetOrNext vim.toVdevIndirectMapping offset = .ok r ∧ FoundOrNextAt vim offset r) ↔
    first.srcOffset ≤ offset := by
  rw [List.head?_eq_getElem?] at hfirst
  have hpos := (List.getElem?_eq_some_iff.1 hfirst).1
  constructor
  · rintro ⟨⟨r, hr, -⟩, -⟩
    by_contra hlow
    have hall : ∀ e ∈ vim.vimEntries, offset < e.srcOffset := by
      intro e he
      obtain ⟨j, hj⟩ := mem_iff_getElem?.1 he
      rcases Nat.eq_zero_or_pos j with rfl | hj0
      · rw [hfirst] at hj
        cases hj
        omega
      · have := vim.end_le_src hfirst hj hj0
        omega
    obtain ⟨f, hf⟩ := searchLoop_low hall (vim.numEntries + 1) ⟨0, vim.numEntries - 1, 0, 0⟩ rfl
    rw [vdevIndirectMappingEntryForOffset, vdevIndirectMappingEntryForOffsetImpl, vim.verify, ok_bind, ASSERT_bind (show vim.numEntries > 0 from hpos), hf] at hr
    cases hr
  · intro hle
    refine entryForOffset_spec (ne_nil_of_length_pos hpos) fun e he => ?_
    rw [hfirst] at he
    cases he
    exact hle

/-- Two entries with a gap between them, from offset 1024 on. -/
def gapMapping : SortedMapping where
  vimHavecounts := false
  vimEntries := [⟨1024, 1, 0, 512⟩, ⟨2048, 1, 512, 1024⟩]
  vimpCounts := []
  vimpMaxOffset := 3072
  vimpBytesMapped := 1536
  sorted := by decide
  end_le_max := by decide
  max_lt := by decide
  inMemory := by decide

theorem entry_for_offset_gap : gapMapping.vimEntries.head? = some ⟨1024, 1, 0, 512⟩ ∧
    (∃ r, vdevIndirectMappingEntryForOffset gapMapping.toVdevIndirectMapping 1536 = .ok r ∧ FoundAt gapMapping 1536 r) ∧
    ∃ r, vdevIndirectMappingEntryForOffsetOrNext gapMapping.toVdevIndirectMapping 1536 = .ok r ∧ FoundOrNextAt gapMapping 1536 r :=
  ⟨rfl, (entry_for_offset_iff gapMapping ⟨1024, 1, 0, 512⟩ rfl 1536).2 (by decide)⟩

/-- Below the first entry both lookups read the entry before the array. -/
theorem entry_for_offset_below_first : gapMapping.vimEntries ≠ [] ∧
    vdevIndirectMappingEntryForOffset gapMapping.toVdevIndirectMapping 0 = .error .bounds ∧
    vdevIndirectMappingEntryForOffsetOrNext gapMapping.toVdevIndirectMapping 0 = .error .bounds := by
  decide +kernel

end

end Unleashed.Zfs
