import Mathlib

/-!
# Lists of half-open segments

A list of segments `[lo, hi)` denotes the finite set of integers it covers. A list is
`Separated` when its segments are non-empty, in increasing order and never touch; then
the set determines the list, and its cardinality is the sum of the lengths.
-/

namespace Unleashed.Lib

open Finset List Nat

/-- The half-open segment `[lo, hi)`. -/
structure Seg where
  (lo hi : Nat)
deriving DecidableEq, Repr

namespace Segs

/-- The number of integers in a segment. -/
def len (s : Seg) : Nat := s.hi - s.lo

/-- The sum of the lengths. -/
def total (l : List Seg) : Nat := (l.map len).sum

/-- The integers covered by a list of segments. -/
def cover : List Seg → Finset Nat
  | [] => ∅
  | s :: l => Ico s.lo s.hi ∪ cover l

/-- Non-empty segments in increasing order, with a gap between neighbours. -/
structure Separated (l : List Seg) : Prop where
  pos : ∀ s ∈ l, s.lo < s.hi
  gap : l.Pairwise fun s t => s.hi < t.lo

@[simp] lemma cover_nil : cover [] = ∅ := rfl
@[simp] lemma cover_cons (s : Seg) (l : List Seg) : cover (s :: l) = Finset.Ico s.lo s.hi ∪ cover l := rfl

@[simp] lemma total_nil : total [] = 0 := rfl

@[simp] lemma total_cons (s : Seg) (l : List Seg) : total (s :: l) = len s + total l := by
  simp [total]

@[simp] lemma total_append (l r : List Seg) : total (l ++ r) = total l + total r := by
  simp [total]

@[simp] lemma cover_append (l r : List Seg) : cover (l ++ r) = cover l ∪ cover r := by
  induction l with
  | nil => simp
  | cons s l ih => simp [ih, union_assoc]

variable {l : List Seg} {x : Nat}

lemma mem_cover : x ∈ cover l ↔ ∃ s ∈ l, s.lo ≤ x ∧ x < s.hi := by
  induction l with
  | nil => simp
  | cons s l ih => simp [ih]

lemma Separated.nil : Separated [] := ⟨by simp, .nil⟩

variable {s : Seg}

lemma separated_cons : Separated (s :: l) ↔ s.lo < s.hi ∧ (∀ t ∈ l, s.hi < t.lo) ∧ Separated l := by
  constructor
  · rintro ⟨pos, gap⟩
    obtain ⟨g, gap⟩ := pairwise_cons.1 gap
    exact ⟨pos s (by simp), g, ⟨fun t ht => pos t (by simp [ht]), gap⟩⟩
  · rintro ⟨hs, g, pos, gap⟩
    refine ⟨fun t ht => ?_, pairwise_cons.2 ⟨g, gap⟩⟩
    rcases mem_cons.1 ht with rfl | ht
    · exact hs
    · exact pos t ht

variable {r : List Seg}

lemma separated_append : Separated (l ++ r) ↔ Separated l ∧ Separated r ∧ ∀ s ∈ l, ∀ t ∈ r, s.hi < t.lo := by
  constructor
  · rintro ⟨pos, gap⟩
    obtain ⟨gl, gr, g⟩ := pairwise_append.1 gap
    exact ⟨⟨fun s hs => pos s (by simp [hs]), gl⟩, ⟨fun s hs => pos s (by simp [hs]), gr⟩, g⟩
  · rintro ⟨⟨pl, gl⟩, ⟨pr, gr⟩, g⟩
    refine ⟨fun s hs => ?_, pairwise_append.2 ⟨gl, gr, g⟩⟩
    rcases mem_append.1 hs with hs | hs
    · exact pl s hs
    · exact pr s hs

lemma separated_singleton : Separated [s] ↔ s.lo < s.hi := by
  simp [separated_cons, Separated.nil]

/-- A segment strictly between two separated lists joins them. -/
lemma separated_insert {m : Seg} (hl : Separated l) (hr : Separated r)
    (hm : m.lo < m.hi) (below : ∀ s ∈ l, s.hi < m.lo) (above : ∀ s ∈ r, m.hi < s.lo) : Separated (l ++ m :: r) := by
  refine separated_append.2 ⟨hl, separated_cons.2 ⟨hm, above, hr⟩, fun s hs t ht => ?_⟩
  have := below s hs
  rcases mem_cons.1 ht with rfl | ht
  · exact this
  · have := above t ht
    omega

/-- If the last segment stops short of `x`, every segment does. -/
lemma Separated.hi_lt (h : Separated l) (le : ∀ s ∈ l, s.hi ≤ x)
    (last : ∀ b, l.getLast? = some b → b.hi ≠ x) : ∀ s ∈ l, s.hi < x := by
  intro s hs
  rcases List.eq_nil_or_concat l with rfl | ⟨l', b, rfl⟩
  · simp at hs
  · simp only [List.concat_eq_append] at *
    obtain ⟨-, hb, hlt⟩ := separated_append.1 h
    have hb' := le b (by simp)
    have hne := last b (by simp)
    rcases List.mem_append.1 hs with hs | hs
    · have := hlt s hs b (by simp)
      have := separated_singleton.1 hb
      omega
    · obtain rfl := List.mem_singleton.1 hs
      omega

/-- If the first segment starts past `x`, every segment does. -/
lemma Separated.lo_gt (h : Separated l) (le : ∀ s ∈ l, x ≤ s.lo)
    (first : ∀ a, l.head? = some a → a.lo ≠ x) : ∀ s ∈ l, x < s.lo := by
  intro s hs
  cases l with
  | nil => simp at hs
  | cons a l =>
    obtain ⟨ha, hgap, -⟩ := separated_cons.1 h
    have ha' := le a (by simp)
    have hne := first a (by simp)
    rcases mem_cons.1 hs with rfl | hs
    · omega
    · have := hgap s hs
      omega

/-- A segment covering `x` sits between the lists it separates. -/
lemma cover_head_lt (h : ∀ t ∈ l, s.hi < t.lo) (hx : x ∈ cover l) : s.hi < x := by
  obtain ⟨t, ht, h1, -⟩ := mem_cover.1 hx
  have := h t ht
  omega

variable {t : Seg}

/-- Two different segments of a separated list have a gap between them. -/
lemma Separated.apart (h : Separated l) (hs : s ∈ l) (ht : t ∈ l) (hne : s ≠ t) : s.hi < t.lo ∨ t.hi < s.lo := by
  have : Std.Symm fun s t : Seg => s.hi < t.lo ∨ t.hi < s.lo := ⟨fun _ _ h => h.symm⟩
  have hgap : l.Pairwise fun s t => s.hi < t.lo ∨ t.hi < s.lo := h.gap.imp fun h => Or.inl h
  exact hgap.forall hs ht hne

/-- A segment of a separated list stops at an uncovered integer. -/
lemma Separated.hi_notMem (h : Separated l) (hs : s ∈ l) : s.hi ∉ cover l := by
  intro hx
  obtain ⟨t, ht, h1, h2⟩ := mem_cover.1 hx
  by_cases hst : s = t
  · subst hst; omega
  · have := h.pos s hs
    have := h.apart hs ht hst
    omega

/-- Segments of a separated list that share an integer are the same. -/
lemma Separated.eq_of_mem (h : Separated l) (hs : s ∈ l) (ht : t ∈ l) (hsx : s.lo ≤ x ∧ x < s.hi) (htx : t.lo ≤ x ∧ x < t.hi) : s = t := by
  by_contra hne
  have := h.apart hs ht hne
  omega

variable {a b : Nat}

/-- A covered range lies in a single segment. -/
lemma Separated.exists_of_subset (h : Separated l) (hab : a < b)
    (hsub : Finset.Ico a b ⊆ cover l) : ∃ s ∈ l, s.lo ≤ a ∧ b ≤ s.hi := by
  obtain ⟨s, hs, h1, h2⟩ := mem_cover.1 (hsub (mem_Ico.2 ⟨le_refl a, hab⟩))
  refine ⟨s, hs, h1, ?_⟩
  by_contra hb
  exact h.hi_notMem hs (hsub (mem_Ico.2 (by omega)))

lemma card_cover (h : Separated l) : (cover l).card = total l := by
  induction l with
  | nil => rfl
  | cons s l ih =>
    obtain ⟨-, hgap, hl⟩ := separated_cons.1 h
    have hd : Disjoint (Finset.Ico s.lo s.hi) (cover l) := by
      refine disjoint_left.2 fun x hx hc => ?_
      have := cover_head_lt hgap hc
      have := (mem_Ico.1 hx).2
      omega
    rw [cover_cons, card_union_of_disjoint hd, card_Ico, ih hl, total_cons, len]

/-- A separated list covers nothing exactly when it is empty. -/
lemma cover_eq_empty (h : Separated l) : cover l = ∅ ↔ l = [] := by
  cases l with
  | nil => simp
  | cons s l =>
    have hs := (separated_cons.1 h).1
    have : s.lo ∈ cover (s :: l) := by simp [hs]
    constructor
    · intro he; rw [he] at this; simp at this
    · intro he; cases he

/-- The first segment starts at the least covered integer. -/
lemma Separated.lo_le (h : Separated (s :: l)) (hx : x ∈ cover (s :: l)) : s.lo ≤ x := by
  obtain ⟨hs, hgap, -⟩ := separated_cons.1 h
  rcases mem_union.1 hx with hx | hx
  · exact (mem_Ico.1 hx).1
  · have := cover_head_lt hgap hx
    omega

/-- A separated list is determined by the set it covers. -/
lemma Separated.ext (hl : Separated l) (hr : Separated r) (h : cover l = cover r) : l = r := by
  induction l generalizing r with
  | nil => exact ((cover_eq_empty hr).1 (h.symm.trans cover_nil)).symm
  | cons s l ih =>
    cases r with
    | nil => exact absurd ((cover_eq_empty hl).1 (h.trans cover_nil)) (by simp)
    | cons t r =>
      obtain ⟨hs, gs, hl'⟩ := separated_cons.1 hl
      obtain ⟨ht, gt, hr'⟩ := separated_cons.1 hr
      have hlo : s.lo = t.lo := by
        have h1 := hr.lo_le (x := s.lo) (h ▸ by simp [hs])
        have h2 := hl.lo_le (x := t.lo) (h ▸ by simp [ht])
        omega
      -- the end of the first segment is the least integer above its start left uncovered
      have hhi : s.hi = t.hi := by
        have h1 := hl.hi_notMem (s := s) (by simp)
        have h2 := hr.hi_notMem (s := t) (by simp)
        rw [h] at h1
        rw [← h] at h2
        simp only [cover_cons, mem_union, mem_Ico, not_or] at h1 h2
        omega
      have hst : s = t := by cases s; cases t; simp_all
      subst hst
      have hc : cover l = cover r := by
        ext x
        by_cases hx : s.hi < x
        · have := congrArg (x ∈ ·) h
          simpa [show ¬ x < s.hi by omega] using this
        · constructor
          · intro hm; exact absurd (cover_head_lt gs hm) hx
          · intro hm; exact absurd (cover_head_lt gt hm) hx
      rw [ih hl' hr' hc]

/-! ## Sets of whole units -/

/-- The set does not divide a unit `[k * u, (k + 1) * u)`. -/
def Whole (u : Nat) (S : Finset Nat) : Prop := ∀ x y, x / u = y / u → (x ∈ S ↔ y ∈ S)

variable {u : Nat} {S T : Finset Nat}

lemma Whole.union (hS : Whole u S) (hT : Whole u T) : Whole u (S ∪ T) := by
  intro x y h
  rw [mem_union, mem_union, hS x y h, hT x y h]

lemma Whole.sdiff (hS : Whole u S) (hT : Whole u T) : Whole u (S \ T) := by
  intro x y h
  rw [mem_sdiff, mem_sdiff, hS x y h, hT x y h]

lemma whole_empty (u : Nat) : Whole u ∅ := fun _ _ _ => by simp

lemma whole_Ico (hu : 0 < u) (ha : u ∣ a) (hb : u ∣ b) : Whole u (Ico a b) := by
  intro x y h
  obtain ⟨a, rfl⟩ := ha
  obtain ⟨b, rfl⟩ := hb
  have below : ∀ c z : Nat, z < u * c ↔ z / u < c := fun c z => by
    rw [div_lt_iff_lt_mul hu, mul_comm]
  simp only [mem_Ico, ← not_lt (a := x), ← not_lt (a := y), below, h]

/-- The segments of whole units have whole bounds. -/
lemma Separated.dvd_of_whole (h : Separated l) (hu : 0 < u) (hw : Whole u (cover l)) (hs : s ∈ l) : u ∣ s.lo ∧ u ∣ s.hi := by
  have hpos := h.pos s hs
  have hlo : s.lo ∈ cover l := mem_cover.2 ⟨s, hs, by omega⟩
  have hlast : s.hi - 1 ∈ cover l := mem_cover.2 ⟨s, hs, by omega⟩
  constructor
  · -- the first covered integer of the unit of `s.lo` is `s.lo` itself
    have hle := Nat.div_mul_le_self s.lo u
    have hmem := (hw _ (s.lo / u * u) (by rw [Nat.mul_div_cancel _ hu])).1 hlo
    obtain ⟨t, ht, h1, h2⟩ := mem_cover.1 hmem
    by_cases hst : s = t
    · subst hst
      exact ⟨s.lo / u, by rw [Nat.mul_comm]; omega⟩
    · -- another segment would end inside the unit
      have hgap := h.apart hs ht hst
      have hnot := h.hi_notMem ht
      refine absurd ((hw s.lo t.hi ?_).1 hlo) hnot
      refine le_antisymm ?_ (Nat.div_le_div_right (by omega))
      rw [Nat.le_div_iff_mul_le hu]
      omega
  · have hnot := h.hi_notMem hs
    have hne : (s.hi - 1) / u ≠ s.hi / u := fun he => hnot ((hw _ _ he).1 hlast)
    have := Nat.succ_div (a := s.hi - 1) (b := u)
    rw [Nat.sub_add_cancel (by omega)] at this
    by_contra hd
    rw [if_neg hd] at this
    omega

end Segs

end Unleashed.Lib
