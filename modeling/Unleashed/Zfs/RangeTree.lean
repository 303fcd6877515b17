import Unleashed.Lib.Fault
import Unleashed.Lib.Segs

/-!
# Range trees (`range_tree.c`)

An AVL tree of disjoint segments with the total space and a histogram beside it. `RangeTreeRep` is the data of
`range_tree_t`, with `rt_root` as the list of segments by offset; `RangeTree` adds the invariant. Clients reason
through the set `RangeTree.cover` of its offsets.
-/

namespace Unleashed.Zfs

open Lib Lib.Segs Finset

/-- Position of the highest set bit, counted from 1. -/
def highbit64 (i : Nat) : Nat := if i = 0 then 0 else Nat.log2 i + 1

/-- The histogram bucket of a segment. -/
def histogramIdx (rs : Seg) : Nat := highbit64 (len rs) - 1

/-- The data of `range_tree_t`; a `range_seg_t` is `⟨rs_start, rs_end⟩`. -/
structure RangeTreeRep where
  rtRoot : List Seg
  rtSpace : Nat
  rtHistogram : Nat → Nat

/-- `range_tree_stat_incr` on the histogram. -/
def rangeTreeStatIncr (h : Nat → Nat) (rs : Seg) : Nat → Nat :=
  fun i => if i = histogramIdx rs then h i + 1 else h i

/-- `range_tree_stat_decr` on the histogram. -/
def rangeTreeStatDecr (h : Nat → Nat) (rs : Seg) : Nat → Nat :=
  fun i => if i = histogramIdx rs then h i - 1 else h i

/-- `range_tree_seg_compare`: overlapping segments compare equal. -/
def rangeTreeSegCompare (r1 r2 : Seg) : Ordering :=
  if r1.lo < r2.lo then
    if r1.hi > r2.lo then .eq else .lt
  else if r1.lo > r2.lo then
    if r1.lo < r2.hi then .eq else .gt
  else .eq

/-- `avl_find` on the offset-ordered tree. -/
def avlFind (root : List Seg) (rsearch : Seg) : Option Seg :=
  root.find? fun rs => rangeTreeSegCompare rsearch rs = .eq

/-- The segments before the place where `rsearch` would stand. -/
def avlBefore (root : List Seg) (rsearch : Seg) : List Seg :=
  root.takeWhile fun rs => rangeTreeSegCompare rsearch rs = .gt

/-- The segments from the place where `rsearch` would stand. -/
def avlAfter (root : List Seg) (rsearch : Seg) : List Seg :=
  root.dropWhile fun rs => rangeTreeSegCompare rsearch rs = .gt

/-- `range_tree_create`. -/
def RangeTreeRep.empty : RangeTreeRep := ⟨[], 0, fun _ => 0⟩

/-- `range_tree_add`. -/
def rangeTreeAddRep (rt : RangeTreeRep) (start size : Nat) : Except Fault RangeTreeRep := do
  VERIFY (size ≠ 0)
  let rsearch : Seg := ⟨start, start + size⟩
  match avlFind rt.rtRoot rsearch with
  | some rs =>
    -- "allocating allocated segment", or an overlap with a neighbour
    if rs.lo ≤ start ∧ start + size ≤ rs.hi then .error .recover else .error .verify
  | none =>
    let before := avlBefore rt.rtRoot rsearch
    let after := avlAfter rt.rtRoot rsearch
    let mergeBefore := before.getLast?.filter fun rs => rs.hi = start
    let mergeAfter := after.head?.filter fun rs => rs.lo = start + size
    let (root, rs, h) :=
      match mergeBefore, mergeAfter with
      | some b, some a =>
        (before.dropLast ++ ⟨b.lo, a.hi⟩ :: after.tail, ⟨b.lo, a.hi⟩, rangeTreeStatDecr (rangeTreeStatDecr rt.rtHistogram b) a)
      | some b, none =>
        (before.dropLast ++ ⟨b.lo, start + size⟩ :: after, ⟨b.lo, start + size⟩, rangeTreeStatDecr rt.rtHistogram b)
      | none, some a =>
        (before ++ ⟨start, a.hi⟩ :: after.tail, ⟨start, a.hi⟩, rangeTreeStatDecr rt.rtHistogram a)
      | none, none => (before ++ rsearch :: after, rsearch, rt.rtHistogram)
    .ok ⟨root, rt.rtSpace + size, rangeTreeStatIncr h rs⟩

/-- `range_tree_remove`. -/
def rangeTreeRemoveRep (rt : RangeTreeRep) (start size : Nat) : Except Fault RangeTreeRep := do
  VERIFY (size ≠ 0)
  VERIFY (size ≤ rt.rtSpace)
  let rsearch : Seg := ⟨start, start + size⟩
  match avlFind rt.rtRoot rsearch with
  | none => .error .recover -- "freeing free segment"
  | some rs =>
    VERIFY (rs.lo ≤ start)
    VERIFY (start + size ≤ rs.hi)
    let before := avlBefore rt.rtRoot rsearch
    let after := (avlAfter rt.rtRoot rsearch).tail
    let h := rangeTreeStatDecr rt.rtHistogram rs
    let left : Seg := ⟨rs.lo, start⟩
    let right : Seg := ⟨start + size, rs.hi⟩
    let (pieces, h) :=
      match decide (rs.lo ≠ start), decide (rs.hi ≠ start + size) with
      | true, true => ([left, right], rangeTreeStatIncr (rangeTreeStatIncr h right) left)
      | true, false => ([left], rangeTreeStatIncr h left)
      | false, true => ([right], rangeTreeStatIncr h right)
      | false, false => ([], h)
    .ok ⟨before ++ pieces ++ after, rt.rtSpace - size, h⟩

/-- What every range tree satisfies between operations. -/
structure RangeTreeRep.Consistent (rt : RangeTreeRep) : Prop where
  separated : Separated rt.rtRoot
  space : rt.rtSpace = total rt.rtRoot
  histogram : ∀ i, rt.rtHistogram i = rt.rtRoot.countP fun rs => histogramIdx rs = i

variable {s : Seg}

lemma compare_eq {r : Seg} (hr : r.lo < r.hi) (hs : s.lo < s.hi) :
    rangeTreeSegCompare r s = .eq ↔ r.lo < s.hi ∧ s.lo < r.hi := by
  unfold rangeTreeSegCompare
  split_ifs <;> simp <;> omega

lemma compare_gt {r : Seg} (hs : s.lo < s.hi) : rangeTreeSegCompare r s = .gt ↔ s.hi ≤ r.lo := by
  unfold rangeTreeSegCompare
  split_ifs <;> simp <;> omega

lemma before_append_after (root : List Seg) (r : Seg) :
    avlBefore root r ++ avlAfter root r = root := List.takeWhile_append_dropWhile

/-! ## Where a searched range stands -/

section
variable {root : List Seg} (hsep : Separated root) {r : Seg}
include hsep

lemma separated_before : Separated (avlBefore root r) :=
  (separated_append.1 (before_append_after root r ▸ hsep)).1

lemma separated_after : Separated (avlAfter root r) :=
  (separated_append.1 (before_append_after root r ▸ hsep)).2.1

/-- The segments before the searched one end at or below its start. -/
lemma mem_before (hs : s ∈ avlBefore root r) : s.hi ≤ r.lo := by
  have hmem : s ∈ root := (List.takeWhile_prefix _).subset hs
  have := List.mem_takeWhile_imp hs
  exact (compare_gt (hsep.pos s hmem)).1 (by simpa using this)

/-- The segments from the searched one on end above its start. -/
lemma mem_after (hs : s ∈ avlAfter root r) : r.lo < s.hi := by
  have hhead := List.head?_dropWhile_not (fun rs => decide (rangeTreeSegCompare r rs = .gt)) root
  have hafter := separated_after hsep (r := r)
  cases ha : avlAfter root r with
  | nil => simp [ha] at hs
  | cons t l =>
    rw [show root.dropWhile _ = t :: l from ha] at hhead
    rw [ha] at hs hafter
    obtain ⟨htp, htg, -⟩ := separated_cons.1 hafter
    have ht : r.lo < t.hi := by
      have := mt (compare_gt htp).2 (by simpa using hhead)
      omega
    rcases List.mem_cons.1 hs with rfl | hs
    · exact ht
    · have := htg s hs
      have := hafter.pos s (by simp [hs])
      omega

/-- The segments from the range's place on start past its end. -/
lemma mem_after_of_find_none (hr : r.lo < r.hi) (hf : avlFind root r = none) (hs : s ∈ avlAfter root r) : r.hi ≤ s.lo := by
  have hmem : s ∈ root := (List.dropWhile_suffix _).subset hs
  have hne := List.find?_eq_none.1 hf s hmem
  have h1 := mt (compare_eq hr (hsep.pos s hmem)).2 (by simpa using hne)
  have h2 := mem_after hsep hs
  omega

/-- The search fails exactly on the ranges that miss the tree. -/
lemma find_eq_none_iff (hr : r.lo < r.hi) : avlFind root r = none ↔ Disjoint (cover root) (Ico r.lo r.hi) := by
  constructor
  · intro hf
    refine disjoint_left.2 fun x hx hr' => ?_
    obtain ⟨s, hs, h1, h2⟩ := mem_cover.1 hx
    have hne := List.find?_eq_none.1 hf s hs
    have := mt (compare_eq hr (hsep.pos s hs)).2 (by simpa using hne)
    have := mem_Ico.1 hr'
    omega
  · intro hd
    refine List.find?_eq_none.2 fun s hs he => ?_
    have hpos := hsep.pos s hs
    have hov := (compare_eq hr hpos).1 (by simpa using he)
    have hx : max s.lo r.lo ∈ cover root := mem_cover.2 ⟨s, hs, by omega⟩
    exact disjoint_left.1 hd hx (mem_Ico.2 (by omega))

/-- What the search returns heads the segments from there on. -/
lemma after_of_find_some (hr : r.lo < r.hi) {rs : Seg} (hf : avlFind root r = some rs) : ∃ l, avlAfter root r = rs :: l := by
  have hmem := List.mem_of_find?_eq_some hf
  have hov := (compare_eq hr (hsep.pos rs hmem)).1 (by simpa using List.find?_some hf)
  rw [← before_append_after root r] at hf
  have hb : (avlBefore root r).find? (fun s => decide (rangeTreeSegCompare r s = .eq)) = none := by
    refine List.find?_eq_none.2 fun s hs he => ?_
    have hs' : s ∈ root := (List.takeWhile_prefix _).subset hs
    have := (compare_eq hr (hsep.pos s hs')).1 (by simpa using he)
    have := mem_before hsep hs
    omega
  unfold avlFind at hf
  rw [List.find?_append, hb, Option.none_or] at hf
  cases ha : avlAfter root r with
  | nil => simp [ha] at hf
  | cons t l =>
    have hsepa := separated_after hsep (r := r)
    rw [ha] at hf hsepa
    obtain ⟨htp, htg, hl⟩ := separated_cons.1 hsepa
    rcases List.mem_cons.1 (List.mem_of_find?_eq_some hf) with rfl | hrs
    · exact ⟨l, rfl⟩
    · -- `t` ends above the start of the range and starts below `rs`, so it overlaps too
      have h1 := mem_after hsep (r := r) (s := t) (by simp [ha])
      have h2 := htg rs hrs
      have : rangeTreeSegCompare r t = .eq := (compare_eq hr htp).2 (by omega)
      simp only [List.find?_cons, this, decide_true] at hf
      exact ⟨l, by rw [Option.some.inj hf]⟩

end

/-! ## The histogram -/

variable {h c : Nat → Nat}

lemma statIncr_foldl {add : List Seg} (hh : ∀ i, h i = c i) (i : Nat) :
    add.foldl rangeTreeStatIncr h i = c i + add.countP fun rs => histogramIdx rs = i := by
  induction add generalizing h c with
  | nil => simp [hh]
  | cons s l ih =>
    rw [List.foldl_cons, ih (c := rangeTreeStatIncr c s) (fun j => by simp [rangeTreeStatIncr, hh])]
    by_cases hi : i = histogramIdx s
    · simp [rangeTreeStatIncr, hi]; omega
    · simp [rangeTreeStatIncr, hi, Ne.symm hi]

lemma statDecr_foldl {del : List Seg} (hh : ∀ i, h i = c i + del.countP fun rs => histogramIdx rs = i) (i : Nat) :
    del.foldl rangeTreeStatDecr h i = c i := by
  induction del generalizing h with
  | nil => simpa using hh i
  | cons s l ih =>
    refine ih fun j => ?_
    have := hh j
    by_cases hj : j = histogramIdx s
    · simp [rangeTreeStatDecr, hj] at this ⊢; omega
    · simp [rangeTreeStatDecr, hj, Ne.symm hj] at this ⊢; omega

lemma statIncr_comm (h : Nat → Nat) (a b : Seg) :
    rangeTreeStatIncr (rangeTreeStatIncr h a) b = rangeTreeStatIncr (rangeTreeStatIncr h b) a := by
  funext i
  unfold rangeTreeStatIncr
  split_ifs <;> rfl

variable {l : List Seg}

/-- Replacing consecutive segments is consistent. -/
lemma RangeTreeRep.Consistent.replace {rt : RangeTreeRep} (hc : rt.Consistent)
    (del add : List Seg) (space : Nat) {r : List Seg} (hroot : rt.rtRoot = l ++ del ++ r)
    (hsep : Separated (l ++ add ++ r)) (hspace : space + total del = rt.rtSpace + total add) :
    Consistent ⟨l ++ add ++ r, space, add.foldl rangeTreeStatIncr (del.foldl rangeTreeStatDecr rt.rtHistogram)⟩ := by
  refine ⟨hsep, ?_, fun i => ?_⟩
  · have := hc.space
    simp only [hroot, total_append] at this ⊢
    omega
  · change add.foldl rangeTreeStatIncr _ i = _
    rw [statIncr_foldl (c := fun i => (l ++ r).countP fun rs => histogramIdx rs = i)]
    · simp only [List.countP_append]; omega
    · intro j
      refine statDecr_foldl (c := fun i => (l ++ r).countP fun rs => histogramIdx rs = i) (fun k => ?_) j
      rw [hc.histogram, hroot]
      simp only [List.countP_append]; omega

/-! ## Adding and removing -/

section
variable {rt rt' : RangeTreeRep} {start size x : Nat}

lemma of_getLast?_filter {b : Seg} (h : l.getLast?.filter (fun rs => rs.hi = x) = some b) :
    b.hi = x ∧ l = l.dropLast ++ [b] := by
  obtain ⟨h1, h2⟩ := Option.filter_eq_some_iff.1 h
  exact ⟨by simpa using h2, (List.dropLast_append_getLast? b h1).symm⟩

lemma of_head?_filter {a : Seg} (h : l.head?.filter (fun rs => rs.lo = x) = some a) : a.lo = x ∧ l = a :: l.tail := by
  obtain ⟨h1, h2⟩ := Option.filter_eq_some_iff.1 h
  exact ⟨by simpa using h2, (List.cons_head?_tail h1).symm⟩

section
variable (hc : rt.Consistent)
include hc

/-- Adding a range: the segments `del` that it touches and the range become `m`. -/
lemma RangeTreeRep.Consistent.join (del : List Seg) {r : List Seg} {m : Seg}
    (hroot : rt.rtRoot = l ++ del ++ r) (hm : m.lo < m.hi) (below : ∀ s ∈ l, s.hi < m.lo)
    (above : ∀ s ∈ r, m.hi < s.lo) (hlen : len m = total del + size)
    (hcov : Ico m.lo m.hi = cover del ∪ Ico start (start + size)) :
    Consistent ⟨l ++ m :: r, rt.rtSpace + size, rangeTreeStatIncr (del.foldl rangeTreeStatDecr rt.rtHistogram) m⟩ ∧
      cover (l ++ m :: r) = cover rt.rtRoot ∪ Ico start (start + size) := by
  obtain ⟨hld, hr, -⟩ := separated_append.1 (hroot ▸ hc.separated)
  have hsep := separated_insert (separated_append.1 hld).1 hr hm below above
  constructor
  · simpa using hc.replace del [m] (rt.rtSpace + size) hroot (by simpa using hsep) (by simp; omega)
  · rw [hroot]
    simp only [cover_append, cover_cons, hcov]
    grind

/-- A range that misses the tree is added, and nothing else changes. -/
lemma rangeTreeAddRep_of_disjoint (hsize : size ≠ 0) (hd : Disjoint (cover rt.rtRoot) (Ico start (start + size))) :
    ∃ rt', rangeTreeAddRep rt start size = .ok rt' ∧ rt'.Consistent ∧
      cover rt'.rtRoot = cover rt.rtRoot ∪ Ico start (start + size) := by
  have hr : (⟨start, start + size⟩ : Seg).lo < (⟨start, start + size⟩ : Seg).hi := by
    simp only; omega
  have hf := (find_eq_none_iff hc.separated hr).2 hd
  have hsplit := before_append_after rt.rtRoot ⟨start, start + size⟩
  have hsl := separated_before hc.separated (r := ⟨start, start + size⟩)
  have hsr := separated_after hc.separated (r := ⟨start, start + size⟩)
  have hle : ∀ s ∈ avlBefore rt.rtRoot ⟨start, start + size⟩, s.hi ≤ start :=
    fun s hs => mem_before hc.separated hs
  have hge : ∀ s ∈ avlAfter rt.rtRoot ⟨start, start + size⟩, start + size ≤ s.lo :=
    fun s hs => mem_after_of_find_none hc.separated hr hf hs
  unfold rangeTreeAddRep
  rw [VERIFY_bind hsize]
  simp only [hf]
  generalize avlBefore rt.rtRoot ⟨start, start + size⟩ = before at *
  generalize avlAfter rt.rtRoot ⟨start, start + size⟩ = after at *
  -- four cases, as the range touches the segment before it, the one after it, both or none
  cases hb : before.getLast?.filter (fun rs => rs.hi = start) with
  | none =>
    have hlt := hsl.hi_lt hle fun b hb' he => by simp [hb', he] at hb
    cases ha : after.head?.filter (fun rs => rs.lo = start + size) with
    | none =>
      have hgt := hsr.lo_gt hge fun a ha' he => by simp [ha', he] at ha
      exact ⟨_, rfl, hc.join [] (by simp [hsplit]) hr hlt hgt (by simp [len]) (by simp)⟩
    | some a =>
      obtain ⟨halo, hat⟩ := of_head?_filter ha
      rw [hat] at hsr hsplit
      obtain ⟨hapos, hgt, -⟩ := separated_cons.1 hsr
      refine ⟨_, rfl, hc.join [a] (by simp [← hsplit]) (by simp only; omega) hlt hgt ?_ ?_⟩
      · simp only [len, total_cons, total_nil]; omega
      · ext x; simp; omega
  | some b =>
    obtain ⟨hbhi, hbt⟩ := of_getLast?_filter hb
    rw [hbt] at hsl hsplit
    obtain ⟨-, hbpos, hlt⟩ := separated_append.1 hsl
    rw [separated_singleton] at hbpos
    have hlt' : ∀ s ∈ before.dropLast, s.hi < b.lo := fun s hs => hlt s hs b (by simp)
    cases ha : after.head?.filter (fun rs => rs.lo = start + size) with
    | none =>
      have hgt := hsr.lo_gt hge fun a ha' he => by simp [ha', he] at ha
      refine ⟨_, rfl, hc.join [b] hsplit.symm (by simp only; omega) hlt' hgt ?_ ?_⟩
      · simp only [len, total_cons, total_nil]; omega
      · ext x; simp; omega
    | some a =>
      obtain ⟨halo, hat⟩ := of_head?_filter ha
      rw [hat] at hsr hsplit
      obtain ⟨hapos, hgt, -⟩ := separated_cons.1 hsr
      refine ⟨_, rfl, hc.join [b, a] (by simp [← hsplit]) (by simp only; omega) hlt' hgt ?_ ?_⟩
      · simp only [len, total_cons, total_nil]; omega
      · ext x; simp; omega

lemma disjoint_of_rangeTreeAddRep (h : rangeTreeAddRep rt start size = .ok rt') :
    size ≠ 0 ∧ Disjoint (cover rt.rtRoot) (Ico start (start + size)) := by
  unfold rangeTreeAddRep at h
  obtain ⟨_, hv, h⟩ := bind_returns.1 h
  have hsize : size ≠ 0 := VERIFY_eq_ok.1 hv
  refine ⟨hsize, (find_eq_none_iff hc.separated (r := ⟨start, start + size⟩) ?_).1 ?_⟩
  · simp only; omega
  · cases hf : avlFind rt.rtRoot ⟨start, start + size⟩ with
    | none => rfl
    | some rs =>
      simp only [hf] at h
      split at h <;> cases h

/-- Removing a range: the segment `s` that holds it becomes the `pieces` beside it. -/
lemma RangeTreeRep.Consistent.carve (pieces : List Seg) {r : List Seg}
    (hroot : rt.rtRoot = l ++ [s] ++ r) (hp : Separated pieces)
    (hin : ∀ p ∈ pieces, s.lo ≤ p.lo ∧ p.hi ≤ s.hi) (hlen : total pieces + size = len s)
    (hlo : s.lo ≤ start) (hhi : start + size ≤ s.hi) (hcov : cover pieces = Ico s.lo s.hi \ Ico start (start + size)) :
    Consistent ⟨l ++ pieces ++ r, rt.rtSpace - size, pieces.foldl rangeTreeStatIncr (rangeTreeStatDecr rt.rtHistogram s)⟩ ∧
      cover (l ++ pieces ++ r) = cover rt.rtRoot \ Ico start (start + size) := by
  obtain ⟨hls, hr, habove⟩ := separated_append.1 (hroot ▸ hc.separated)
  obtain ⟨hl, -, hbelow⟩ := separated_append.1 hls
  have below : ∀ t ∈ l, t.hi < s.lo := fun t ht => hbelow t ht s (by simp)
  have above : ∀ t ∈ r, s.hi < t.lo := fun t ht => habove s (by simp) t ht
  constructor
  · refine hc.replace [s] pieces _ hroot ?_ ?_
    · refine separated_append.2 ⟨separated_append.2 ⟨hl, hp, fun t ht u hu => ?_⟩, hr, fun t ht u hu => ?_⟩
      · have := below t ht; have := hin u hu; omega
      · have := above u hu
        rcases List.mem_append.1 ht with ht | ht
        · have := below t ht; omega
        · have := hin t ht; omega
    · have hs := hc.space
      simp only [hroot, total_append, total_cons, total_nil] at hs ⊢
      omega
  · have h1 : Disjoint (cover l) (Ico start (start + size)) := by
      refine disjoint_left.2 fun x hx hx' => ?_
      obtain ⟨t, ht, -, h2⟩ := mem_cover.1 hx
      have := below t ht
      have := mem_Ico.1 hx'
      omega
    have h2 : Disjoint (cover r) (Ico start (start + size)) := by
      refine disjoint_left.2 fun x hx hx' => ?_
      have := cover_head_lt above hx
      have := mem_Ico.1 hx'
      omega
    rw [hroot]
    simp only [cover_append, cover_cons, cover_nil, hcov, union_empty]
    rw [union_sdiff_distrib, union_sdiff_distrib, sdiff_eq_self_of_disjoint h1, sdiff_eq_self_of_disjoint h2]

/-- A range inside the tree is removed, and nothing else changes. -/
lemma rangeTreeRemoveRep_of_subset (hsize : size ≠ 0) (hsub : Ico start (start + size) ⊆ cover rt.rtRoot) :
    ∃ rt', rangeTreeRemoveRep rt start size = .ok rt' ∧ rt'.Consistent ∧
      cover rt'.rtRoot = cover rt.rtRoot \ Ico start (start + size) := by
  have hr : (⟨start, start + size⟩ : Seg).lo < (⟨start, start + size⟩ : Seg).hi := by
    simp only; omega
  obtain ⟨s, hs, hlo, hhi⟩ := hc.separated.exists_of_subset hr hsub
  simp only at hlo hhi
  have hspace : size ≤ rt.rtSpace := by
    rw [hc.space, ← card_cover hc.separated]
    simpa using card_le_card hsub
  -- the search finds the segment that holds the range
  obtain ⟨rs, hf⟩ : ∃ rs, avlFind rt.rtRoot ⟨start, start + size⟩ = some rs := by
    refine Option.ne_none_iff_exists'.1 fun hn => ?_
    have := disjoint_left.1 ((find_eq_none_iff hc.separated hr).1 hn)
    exact this (mem_cover.2 ⟨s, hs, hlo, by omega⟩) (by simp; omega)
  have hrs := List.mem_of_find?_eq_some hf
  have hov := (compare_eq hr (hc.separated.pos rs hrs)).1 (by simpa using List.find?_some hf)
  have hpos := hc.separated.pos rs hrs
  simp only at hov
  obtain rfl : s = rs :=
    hc.separated.eq_of_mem hs hrs (x := max start rs.lo) (by omega) (by omega)
  obtain ⟨after, hafter⟩ := after_of_find_some hc.separated hr hf
  have hsplit := before_append_after rt.rtRoot ⟨start, start + size⟩
  unfold rangeTreeRemoveRep
  rw [VERIFY_bind hsize, VERIFY_bind hspace]
  simp only [hf]
  rw [VERIFY_bind hlo, VERIFY_bind hhi]
  rw [hafter] at hsplit
  simp only [hafter, List.tail_cons]
  generalize avlBefore rt.rtRoot ⟨start, start + size⟩ = before at *
  have hroot : rt.rtRoot = before ++ [s] ++ after := by simp [← hsplit]
  by_cases hl : s.lo = start <;> by_cases hh : s.hi = start + size
  · simp only [hl, hh, ne_eq, not_true_eq_false, decide_false]
    exact ⟨_, rfl, hc.carve [] hroot .nil (by simp) (by simp [len]; omega) hlo hhi (by simp [hl, hh])⟩
  · simp only [hl, hh, ne_eq, not_true_eq_false, decide_false, not_false_eq_true, decide_true]
    refine ⟨_, rfl, hc.carve [⟨start + size, s.hi⟩] hroot ?_ ?_ ?_ hlo hhi ?_⟩
    · rw [separated_singleton]; simp only; omega
    · simp; omega
    · simp [len]; omega
    · ext x; simp; omega
  · simp only [hl, hh, ne_eq, not_true_eq_false, decide_false, not_false_eq_true, decide_true]
    refine ⟨_, rfl, hc.carve [⟨s.lo, start⟩] hroot ?_ ?_ ?_ hlo hhi ?_⟩
    · rw [separated_singleton]; simp only; omega
    · simp; omega
    · simp [len]; omega
    · ext x; simp; omega
  · simp only [hl, hh, ne_eq, not_false_eq_true, decide_true]
    rw [statIncr_comm]
    refine ⟨_, rfl, hc.carve [⟨s.lo, start⟩, ⟨start + size, s.hi⟩] hroot ?_ ?_ ?_ hlo hhi ?_⟩
    · rw [separated_cons, separated_singleton]; simp; omega
    · simp; omega
    · simp [len]; omega
    · ext x; simp; omega

end

lemma subset_of_rangeTreeRemoveRep (h : rangeTreeRemoveRep rt start size = .ok rt') :
    size ≠ 0 ∧ Ico start (start + size) ⊆ cover rt.rtRoot := by
  unfold rangeTreeRemoveRep at h
  obtain ⟨_, hv, h⟩ := bind_returns.1 h
  obtain ⟨_, -, h⟩ := bind_returns.1 h
  refine ⟨VERIFY_eq_ok.1 hv, fun x hx => ?_⟩
  cases hf : avlFind rt.rtRoot ⟨start, start + size⟩ with
  | none => simp [hf] at h
  | some rs =>
    simp only [hf] at h
    obtain ⟨_, hlo, h⟩ := bind_returns.1 h
    obtain ⟨_, hhi, -⟩ := bind_returns.1 h
    rw [VERIFY_eq_ok] at hlo hhi
    have := mem_Ico.1 hx
    exact mem_cover.2 ⟨rs, List.mem_of_find?_eq_some hf, by omega⟩

end

/-! ## Consistent trees -/

/-- A `range_tree_t` as its clients see it between operations. -/
structure RangeTree extends RangeTreeRep where
  consistent : toRangeTreeRep.Consistent

namespace RangeTree

/-- The offsets in the tree. -/
def cover (rt : RangeTree) : Finset Nat := Segs.cover rt.rtRoot

/-- `range_tree_create`. -/
def create : RangeTree := ⟨.empty, .nil, rfl, fun _ => rfl⟩

/-- The tree of one segment. -/
def ofSeg (s : Seg) (h : s.lo < s.hi) : RangeTree where
  rtRoot := [s]
  rtSpace := len s
  rtHistogram := rangeTreeStatIncr (fun _ => 0) s
  consistent := ⟨separated_singleton.2 h, by simp, fun i => by
    simp [rangeTreeStatIncr, List.countP_cons, eq_comm]⟩

/-- Two range trees over the same offsets are the same tree. -/
lemma ext_cover {a b : RangeTree} (h : a.cover = b.cover) : a = b := by
  obtain ⟨⟨ra, sa, ha⟩, ca⟩ := a
  obtain ⟨⟨rb, sb, hb⟩, cb⟩ := b
  obtain rfl : ra = rb := ca.separated.ext cb.separated h
  obtain rfl : sa = sb := ca.space.trans cb.space.symm
  obtain rfl : ha = hb := funext fun i => (ca.histogram i).trans (cb.histogram i).symm
  rfl

@[simp] lemma cover_create : create.cover = ∅ := rfl

lemma space_eq_card (rt : RangeTree) : rt.rtSpace = rt.cover.card :=
  rt.consistent.space.trans (card_cover rt.consistent.separated).symm

lemma space_eq_zero {rt : RangeTree} : rt.rtSpace = 0 ↔ rt.cover = ∅ := by
  rw [space_eq_card, card_eq_zero]

end RangeTree

def rangeTreeAdd (rt : RangeTree) (start size : Nat) : Except Fault RangeTree :=
  match h : rangeTreeAddRep rt.toRangeTreeRep start size with
  | .error e => .error e
  | .ok rt' => .ok ⟨rt', by
      obtain ⟨hsize, hd⟩ := disjoint_of_rangeTreeAddRep rt.consistent h
      obtain ⟨_, he, hc', -⟩ := rangeTreeAddRep_of_disjoint rt.consistent hsize hd
      cases he.symm.trans h
      exact hc'⟩

def rangeTreeRemove (rt : RangeTree) (start size : Nat) : Except Fault RangeTree :=
  match h : rangeTreeRemoveRep rt.toRangeTreeRep start size with
  | .error e => .error e
  | .ok rt' => .ok ⟨rt', by
      obtain ⟨hsize, hd⟩ := subset_of_rangeTreeRemoveRep h
      obtain ⟨_, he, hc, -⟩ := rangeTreeRemoveRep_of_subset rt.consistent hsize hd
      cases he.symm.trans h
      exact hc⟩

def rangeTreeSpace (rt : RangeTree) : Nat := rt.rtSpace

def rangeTreeIsEmpty (rt : RangeTree) : Bool := rangeTreeSpace rt = 0

/-- `range_tree_walk`: call `func` on every segment, in offset order. -/
def rangeTreeWalk {σ : Type} (rt : RangeTree) (func : σ → Nat → Nat → Except Fault σ) (arg : σ) :
    Except Fault σ :=
  rt.rtRoot.foldlM (fun arg rs => func arg rs.lo (rs.hi - rs.lo)) arg

section
variable {rt rt' : RangeTree} {start size : Nat}

/-- An operation that is defined where `p` holds, through the one on what represents the tree. -/
lemma RangeTree.eq_ok_iff {x : Except Fault RangeTreeRep} {y : Except Fault RangeTree} {p : Prop} {c : Finset Nat}
    (hy : toRangeTreeRep <$> y = x) (hof : ∀ r, x = .ok r → p)
    (hto : p → ∃ r, x = .ok r ∧ r.Consistent ∧ Segs.cover r.rtRoot = c) : y = .ok rt' ↔ p ∧ rt'.cover = c := by
  constructor
  · rintro rfl
    have hp := hof _ hy.symm
    obtain ⟨r, hr, -, hcov⟩ := hto hp
    cases hy.trans hr
    exact ⟨hp, hcov⟩
  · rintro ⟨hp, hcov⟩
    obtain ⟨r, hr, -, hcov'⟩ := hto hp
    cases y with
    | error e => cases hy.trans hr
    | ok rt1 =>
      cases hy.trans hr
      exact congrArg _ (ext_cover (hcov'.trans hcov.symm))

/-- **Adding**: defined exactly on the non-empty ranges outside the tree. -/
theorem rangeTreeAdd_eq_ok : rangeTreeAdd rt start size = .ok rt' ↔
      size ≠ 0 ∧ Disjoint rt.cover (Ico start (start + size)) ∧
        rt'.cover = rt.cover ∪ Ico start (start + size) := by
  rw [← and_assoc]
  refine RangeTree.eq_ok_iff ?_ (fun _ => disjoint_of_rangeTreeAddRep rt.consistent)
    fun h => rangeTreeAddRep_of_disjoint rt.consistent h.1 h.2
  unfold rangeTreeAdd
  split <;> exact Eq.symm ‹_›

/-- **Removing**: defined exactly on the non-empty ranges inside the tree. -/
theorem rangeTreeRemove_eq_ok : rangeTreeRemove rt start size = .ok rt' ↔
      size ≠ 0 ∧ Ico start (start + size) ⊆ rt.cover ∧ rt'.cover = rt.cover \ Ico start (start + size) := by
  rw [← and_assoc]
  refine RangeTree.eq_ok_iff ?_ (fun _ => subset_of_rangeTreeRemoveRep)
    fun h => rangeTreeRemoveRep_of_subset rt.consistent h.1 h.2
  unfold rangeTreeRemove
  split <;> exact Eq.symm ‹_›

lemma rangeTreeAdd_of_disjoint (rt : RangeTree) (start : Nat) {size : Nat} (hsize : size ≠ 0)
    (hd : Disjoint rt.cover (Ico start (start + size))) : ∃ rt', rangeTreeAdd rt start size = .ok rt' ∧
      rt'.cover = rt.cover ∪ Ico start (start + size) := by
  obtain ⟨r, -, hc, hcov⟩ := rangeTreeAddRep_of_disjoint rt.consistent hsize hd
  exact ⟨⟨r, hc⟩, rangeTreeAdd_eq_ok.2 ⟨hsize, hd, hcov⟩, hcov⟩

lemma rangeTreeRemove_of_subset (rt : RangeTree) (start : Nat) {size : Nat} (hsize : size ≠ 0)
    (hd : Ico start (start + size) ⊆ rt.cover) : ∃ rt', rangeTreeRemove rt start size = .ok rt' ∧
      rt'.cover = rt.cover \ Ico start (start + size) := by
  obtain ⟨r, -, hc, hcov⟩ := rangeTreeRemoveRep_of_subset rt.consistent hsize hd
  exact ⟨⟨r, hc⟩, rangeTreeRemove_eq_ok.2 ⟨hsize, hd, hcov⟩, hcov⟩

end

end Unleashed.Zfs
