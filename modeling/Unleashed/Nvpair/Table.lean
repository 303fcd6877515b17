import Unleashed.Nvpair.Basic

/-!
# The table of an nvlist

What the functions on the hash table of an nvlist do to the entries it holds. Resizing keeps
them and reverses the order of the pairs of a name in their bucket; a removal takes out the first
entry of the bucket that matches, whichever pair was meant.
-/

namespace Unleashed.Nvpair

open Lib Multiset List Nat Option Bool

variable {V : Type} {nvl nvl' : Nvlist V} {s : Multiset (NvPair V)} {nvp : NvPair V}

lemma nvtIndex_lt (k : Nat) (name : NvName) : nvtIndex (2 ^ k) name < 2 ^ k := by
  unfold nvtIndex
  rw [Nat.and_two_pow_sub_one_eq_mod]
  exact Nat.mod_lt _ (Nat.two_pow_pos k)

/-- The table holds the entries `s`. -/
structure TableOk (nvl : Nvlist V) (s : Multiset (NvPair V)) : Prop where
  table : ∃ tab, nvl.nvpHashtable = some tab ∧ Buckets (fun e => nvtIndex nvl.nvpNbuckets e.name) nvl.nvpNbuckets tab s
  size : ∃ k, 4 ≤ k ∧ k ≤ 31 ∧ nvl.nvpNbuckets = 2 ^ k
  count : nvl.nvpNentries = s.card
  bound : s.card < 2 ^ 32

/-- The table holds the entries `s`, or it is not there yet. -/
def TableHolds (nvl : Nvlist V) (s : Multiset (NvPair V)) : Prop :=
  nvl.nvpHashtable = none ∧ nvl.nvpNbuckets = 0 ∧ nvl.nvpNentries = 0 ∧ s = 0 ∨ TableOk nvl s

/-- Only the table is another one. -/
structure SameList (nvl nvl' : Nvlist V) : Prop where
  list : nvl'.nvpList = nvl.nvpList
  flag : nvl'.nvlNvflag = nvl.nvlNvflag

lemma SameList.refl (nvl : Nvlist V) : SameList nvl nvl := ⟨rfl, rfl⟩

lemma SameList.trans {nvl'' : Nvlist V} (h : SameList nvl nvl') (h' : SameList nvl' nvl'') : SameList nvl nvl'' :=
  ⟨h'.list.trans h.list, h'.flag.trans h.flag⟩

lemma TableOk.index_lt (h : TableOk nvl s) (name : NvName) : nvtIndex nvl.nvpNbuckets name < nvl.nvpNbuckets := by
  obtain ⟨k, -, -, hk⟩ := h.size
  rw [hk]
  exact nvtIndex_lt k name

lemma TableOk.nbuckets_ge (h : TableOk nvl s) : nvlistHashtableInitSize ≤ nvl.nvpNbuckets := by
  obtain ⟨k, hk4, -, hk⟩ := h.size
  rw [hk]
  exact (Nat.pow_le_pow_right (by decide) hk4 : 2 ^ 4 ≤ 2 ^ k)

/-- The pairs of a name, in the order of their bucket. -/
def Nvlist.sameName (nvl : Nvlist V) (name : NvName) : List (NvPair V) :=
  match nvl.nvpHashtable with
  | none => []
  | some tab => (tab (nvtIndex nvl.nvpNbuckets name)).filter fun e => decide (e.name = name)

/-- A removal halves the table first. -/
def Nvlist.Shrinks (nvl : Nvlist V) : Prop :=
  nvl.nvpNbuckets ≠ nvlistHashtableInitSize ∧ nvl.nvpNentries ≤ nvl.nvpNbuckets >>> 2

instance (nvl : Nvlist V) : Decidable nvl.Shrinks := inferInstanceAs (Decidable (_ ∧ _))

section

lemma foldl_nvtMigrate (newSize : Nat) (l : List (NvPair V)) :
    ∀ (tab : Nat → List (NvPair V)) (n : Nat), n + l.length < 2 ^ 32 →
      l.foldl (nvtMigrate newSize) (tab, n) = (l.foldl (pushBucket fun e => nvtIndex newSize e.name) tab, n + l.length) := by
  induction l with
  | nil => exact fun _ _ _ => rfl
  | cons e l ih =>
    intro tab n hn
    rw [length_cons] at hn
    have hstep : nvtMigrate newSize (tab, n) e = (pushBucket (fun e => nvtIndex newSize e.name) tab e, n + 1) := by
      unfold nvtMigrate uint32
      rw [Nat.mod_eq_of_lt (by dsimp only; omega)]
    rw [List.foldl_cons, hstep, ih _ _ (by omega), List.foldl_cons, List.length_cons, Nat.add_right_comm, Nat.add_assoc]

/-- All entries of a name are those of its bucket. -/
lemma TableOk.sameName_eq (h : TableOk nvl s) {tab : Nat → List (NvPair V)} (htab : nvl.nvpHashtable = some tab)
    (hb : Buckets (fun e => nvtIndex nvl.nvpNbuckets e.name) nvl.nvpNbuckets tab s) (name : NvName) :
    ((List.range nvl.nvpNbuckets).flatMap tab).filter (fun e => decide (e.name = name)) = nvl.sameName name := by
  have hname : ∀ e : NvPair V, decide (e.name = name) = true → nvtIndex nvl.nvpNbuckets e.name = nvtIndex nvl.nvpNbuckets name :=
    fun e he => by rw [of_decide_eq_true he]
  rw [hb.filter_flatMap (h.index_lt name) hname, Nvlist.sameName, htab]

/-- **`nvt_resize`** keeps the entries, and reverses those of a name. -/
theorem nvtResize_spec (h : TableOk nvl s) {k : Nat} (hk4 : 4 ≤ k) (hk31 : k ≤ 31) (alloc : Bool) :
    ∃ nvl' err, nvtResize nvl (2 ^ k) alloc = .ok (nvl', err) ∧ TableOk nvl' s ∧ SameList nvl nvl' ∧
      (err = none ∧ (∀ name, nvl'.sameName name = (nvl.sameName name).reverse) ∧ alloc = true ∨
        err = some .ENOMEM ∧ nvl' = nvl ∧ alloc = false) := by
  obtain ⟨tab, htab, hb⟩ := h.table
  have hp2 : 2 ^ k &&& (2 ^ k - 1) = 0 := by rw [and_two_pow_sub_one_eq_mod, mod_self]
  unfold nvtResize
  rw [htab]
  dsimp only
  rw [ASSERT_bind hp2]
  cases alloc with
  | false => exact ⟨nvl, some .ENOMEM, if_pos rfl, h, .refl nvl, .inr ⟨rfl, rfl, rfl⟩⟩
  | true =>
    have hlen : ((List.range nvl.nvpNbuckets).flatMap tab).length = s.card := by
      rw [← hb.flatMap_eq, coe_card]
    have hfold : (List.range nvl.nvpNbuckets).foldl (fun acc i => (tab i).foldl (nvtMigrate (2 ^ k)) acc) (fun _ => [], 0) =
        (((List.range nvl.nvpNbuckets).flatMap tab).foldl (pushBucket fun e => nvtIndex (2 ^ k) e.name) (fun _ => []), s.card) := by
      rw [← foldl_flatMap, foldl_nvtMigrate _ _ _ _ (by rw [hlen, zero_add]; exact h.bound), hlen, zero_add]
    rw [if_neg Bool.noConfusion, hfold]
    dsimp only
    rw [ASSERT_bind h.count.symm]
    have hpush := (Buckets.empty : Buckets (fun e : NvPair V => nvtIndex (2 ^ k) e.name) (2 ^ k) (fun _ => []) 0).foldl_push
      (l := (List.range nvl.nvpNbuckets).flatMap tab) fun e _ => nvtIndex_lt k e.name
    rw [hb.flatMap_eq, zero_add] at hpush
    refine ⟨_, none, rfl, ⟨⟨_, rfl, hpush⟩, ⟨k, hk4, hk31, rfl⟩, rfl, h.bound⟩, ⟨rfl, rfl⟩, .inl ⟨rfl, fun name => ?_, rfl⟩⟩
    -- a bucket of the new table has its entries in the opposite order, and those of the name are all there
    show (List.foldl (pushBucket fun e : NvPair V => nvtIndex (2 ^ k) e.name) (fun _ => []) _ (nvtIndex (2 ^ k) name)).filter _ = _
    rw [foldl_pushBucket_apply, append_nil, filter_reverse, List.filter_filter, ← h.sameName_eq htab hb]
    refine congrArg List.reverse (List.filter_congr fun e _ => ?_)
    by_cases hname : e.name = name
    · rw [hname, decide_eq_true rfl, decide_eq_true rfl]
      rfl
    · rw [decide_eq_false hname, Bool.false_and]

lemma nvtNeedsToshrink_eq (h : TableOk nvl s) : nvtNeedsToshrink nvl = .ok (decide nvl.Shrinks) := by
  unfold nvtNeedsToshrink
  rw [ASSERT_bind h.nbuckets_ge]
  split
  next heq => simp [Nvlist.Shrinks, heq]
  next hne => simp [Nvlist.Shrinks, hne]

lemma nvtShrinkFirst_spec (h : TableOk nvl s) (alloc : Bool) :
    ∃ nvl' err, nvtShrinkFirst nvl alloc = .ok (nvl', err) ∧ TableOk nvl' s ∧ SameList nvl nvl' ∧
      (err = none ∧ (nvl.Shrinks → alloc = true ∧ ∀ name, nvl'.sameName name = (nvl.sameName name).reverse) ∧
          (¬ nvl.Shrinks → nvl' = nvl) ∨
        err = some .ENOMEM ∧ nvl' = nvl ∧ alloc = false) := by
  unfold nvtShrinkFirst
  rw [nvtNeedsToshrink_eq h, ok_bind]
  split
  next hshrink =>
    obtain ⟨k, hk4, hk31, hk⟩ := h.size
    have hne : nvl.nvpNbuckets ≠ nvlistHashtableInitSize := (of_decide_eq_true hshrink).1
    have hk5 : 5 ≤ k := by
      rcases Nat.lt_or_ge k 5 with hlt | hge
      · obtain rfl : k = 4 := by omega
        exact absurd hk hne
      · exact hge
    have hhalf : nvl.nvpNbuckets >>> 1 = 2 ^ (k - 1) := by
      rw [hk, Nat.shiftRight_eq_div_pow, pow_one, ← Nat.pow_div (by omega) (by decide), pow_one]
    unfold nvtShrink
    rw [ASSERT_bind h.nbuckets_ge, hhalf]
    obtain ⟨nvl', err, heq, hok, hsame, hcase⟩ := nvtResize_spec h (k := k - 1) (by omega) (by omega) alloc
    refine ⟨nvl', err, heq, hok, hsame, hcase.imp_left fun ⟨hnone, hrev, halloc⟩ => ⟨hnone, fun _ => ⟨halloc, hrev⟩, fun hno => ?_⟩⟩
    exact absurd (of_decide_eq_true hshrink) hno
  next hshrink =>
    exact ⟨nvl, none, rfl, h, .refl nvl, .inl ⟨rfl, fun hyes => absurd (decide_eq_true hyes) hshrink, fun _ => rfl⟩⟩

end

section

lemma nvtLookupNameType_eq (h : TableOk nvl s) {tab : Nat → List (NvPair V)} (htab : nvl.nvpHashtable = some tab)
    (name : NvName) (type : Option DataType) : nvtLookupNameType nvl name type =
      .ok ((tab (nvtIndex nvl.nvpNbuckets name)).find? fun e => decide (e.name = name ∧ (type = none ∨ type = some e.type))) := by
  have hpos : nvl.nvpNbuckets ≠ 0 := by
    have := h.nbuckets_ge
    have : nvlistHashtableInitSize = 16 := rfl
    omega
  unfold nvtLookupNameType
  rw [htab]
  dsimp only
  rw [ASSERT_bind hpos, ASSERT_bind (h.index_lt name)]

/-- A lookup by name finds the first of the bucket. -/
lemma nvtLookupName_eq (h : TableOk nvl s) (name : NvName) : nvtLookupName nvl name = .ok (nvl.sameName name).head? := by
  obtain ⟨tab, htab, -⟩ := h.table
  rw [nvtLookupName, nvtLookupNameType_eq h htab, Nvlist.sameName, htab]
  dsimp only
  rw [head?_filter]
  simp

end

section

end

end Unleashed.Nvpair
