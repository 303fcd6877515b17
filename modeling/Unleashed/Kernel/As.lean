import Mathlib

/-!
# The segments of an address space

The segment tree with its three cached segments. One of them, `a_lastgaphl`, places a new segment
without the test for overlap.
-/

namespace Unleashed.Kernel

open List Option

structure Seg where
  (sBase sSize : Nat)
deriving DecidableEq

def Seg.sEnd (seg : Seg) : Nat := seg.sBase + seg.sSize

def Seg.Holds (seg : Seg) (addr : Nat) : Prop := seg.sBase ≤ addr ∧ addr < seg.sEnd

instance (seg : Seg) (addr : Nat) : Decidable (seg.Holds addr) := inferInstanceAs (Decidable (_ ∧ _))

/-- `struct as`: the tree in the order of the bases, and the cached segments. -/
structure As where
  aSegtree : List Seg
  (aSeglast aLastgap aLastgaphl : Option Seg)

/-- `AVL_NEXT`, and `avl_nearest` after an address. -/
def segAfter (t : List Seg) (addr : Nat) : Option Seg := t.find? (addr < ·.sBase)

/-- `AVL_PREV`. -/
def segBefore (t : List Seg) (addr : Nat) : Option Seg := (t.filter (·.sBase < addr)).getLast?

/-- What `avl_find` finds at `addr`, else the first segment above it, else, with `tail`, the last one. -/
def segNear (t : List Seg) (addr : Nat) (tail : Bool) : Option Seg :=
  (t.find? (·.Holds addr)).or ((segAfter t addr).or (if tail then t.getLast? else none))

def asFindseg (as : As) (addr : Nat) (tail : Bool) : Option Seg × As :=
  if as.aSeglast.any (·.Holds addr) then (as.aSeglast, as)
  else (segNear as.aSegtree addr tail, { as with aSeglast := segNear as.aSegtree addr tail })

/-- The segment behind which `a_lastgaphl` places a new one. -/
def asHint (as : As) (newseg : Seg) : Option Seg :=
  as.aLastgaphl.bind fun gap =>
    (if gap.sBase > newseg.sBase then segBefore as.aSegtree gap.sBase else some gap).bind fun lseg =>
      (if gap.sBase > newseg.sBase then some gap else segAfter as.aSegtree gap.sBase).bind fun hseg =>
        if lseg.sBase < newseg.sBase ∧ hseg.sBase > newseg.sBase then some lseg else none

/-- `avl_insert` and `avl_insert_here`: behind the segments with bases up to `addr`. -/
def As.insert (as : As) (newseg : Seg) (addr : Nat) : As := { as with
  aSegtree := as.aSegtree.filter (·.sBase ≤ addr) ++ newseg :: as.aSegtree.filter (¬ ·.sBase ≤ addr)
  aLastgaphl := none
  aSeglast := some newseg }

/-- The test of `as_addseg` against the segment at or after the new one. -/
def Seg.meets (seg newseg : Seg) : Bool := seg.sEnd > newseg.sBase ∧ (newseg.sBase ≥ seg.sBase ∨ newseg.sEnd > seg.sBase)

def asAddseg (as : As) (newseg : Seg) : Int × As :=
  match asHint as newseg with
  | some lseg => (0, as.insert newseg lseg.sBase) -- without the test for overlap
  | none =>
    if (segNear as.aSegtree newseg.sBase true).any (·.meets newseg) then (-1, { as with aLastgaphl := none })
    else (0, as.insert newseg newseg.sBase)

def asRemoveseg (as : As) : Option Seg → As
  | none => as
  | some seg => { as with
    aSeglast := if as.aSeglast = some seg then none else as.aSeglast
    aLastgaphl := none
    aLastgap :=
      if as.aLastgap.any fun gap => seg = gap ∨ seg.sBase > gap.sBase then segAfter as.aSegtree seg.sBase else as.aLastgap
    aSegtree := as.aSegtree.erase seg }

/-- The arguments of `as_gap_aligned`. -/
structure AsGap where
  (minlen base len : Nat)
  (forward contain : Bool)
  (addr align redzone off : Nat)

/-- `valid_va_range_aligned`, which depends on the machine. -/
abbrev ValidVaRange := Nat → Nat → Nat → Bool → Nat → Nat → Nat → Option (Nat × Nat)

variable (valid : ValidVaRange)

/-- The part of the hole between `lseg` and `hseg` within the bounds, if it will do. -/
def asHole (g : AsGap) (minlen redzone hibound lo hi : Nat) : Option (Nat × Nat) :=
  let base := max lo g.base
  let len := (min hi hibound + 2 ^ 64 - base) % 2 ^ 64
  (if lo > hibound ∨ hi < g.base ∨ len < minlen then none
    else valid base len minlen g.forward g.align redzone g.off).filter fun r => ¬ g.contain ∨ r.1 ≤ g.addr ∧ (r.1 + r.2) % 2 ^ 64 > g.addr

/-- The loop over the holes: one turn more than there are segments. -/
def asGapLoop (t : List Seg) (g : AsGap) (minlen redzone hibound : Nat) :
    (fuel : Nat) → (lseg hseg : Option Seg) → Option ((Nat × Nat) × Option Seg × Option Seg)
  | 0, _, _ => none
  | fuel + 1, lseg, hseg =>
    let lo := lseg.elim 0 Seg.sEnd
    let hi := hseg.elim hibound Seg.sBase
    if g.forward ∧ lo > hibound ∨ ¬ g.forward ∧ hi < g.base then none
    else match asHole valid g minlen redzone hibound lo hi with
      | some r => some (r, lseg, hseg)
      | none =>
        if g.forward then hseg.bind fun seg => asGapLoop t g minlen redzone hibound fuel (some seg) (segAfter t seg.sBase)
        else lseg.bind fun seg => asGapLoop t g minlen redzone hibound fuel (segBefore t seg.sBase) (some seg)

/-- One pass; `hibound` may be lowered to the last gap, and stays so. -/
def asGapPass (as : As) (g : AsGap) (minlen redzone hibound : Nat) : Option (Nat × Nat) × As × Nat :=
  let hibound := (as.aLastgap.filter fun gap => ¬ g.forward ∧ minlen ≥ gap.sSize ∧ hibound ≥ gap.sBase).elim hibound Seg.sBase
  let found := asFindseg as (if g.forward then g.base else hibound) true
  let below := ¬ g.forward ∧ found.1.any (·.sEnd < hibound)
  match asGapLoop valid as.aSegtree g minlen redzone hibound (as.aSegtree.length + 1)
      (if below then found.1 else found.1.bind fun seg => segBefore as.aSegtree seg.sBase) (if below then none else found.1) with
  | some (r, lseg, hseg) =>
    (some r, { found.2 with aLastgap := if g.forward then as.aLastgap else hseg, aLastgaphl := hseg.or lseg }, hibound)
  | none => (none, found.2, hibound)

def asGapAligned (as : As) (g : AsGap) : Option (Nat × Nat) × As :=
  let minlen := (g.minlen + g.align + 2 * g.redzone) % 2 ^ 64
  if as.aSegtree = [] then (valid g.base g.len minlen g.forward g.align 0 g.off, as)
  else
    match asGapPass valid as g minlen 0 ((g.base + g.len) % 2 ^ 64) with
    | (some r, as, _) => (some r, as)
    | (none, as, hibound) =>
      if g.align ≠ 0 ∨ g.redzone ≠ 0 then
        let (r, as, _) := asGapPass valid as g g.minlen g.redzone hibound
        (r, as)
      else (none, as)

inductive AsCall
  | addseg (newseg : Seg)
  | removeseg (seg : Option Seg)
  | findseg (addr : Nat) (tail : Bool)
  | gap (g : AsGap)

def AsCall.run (as : As) : AsCall → As
  | addseg newseg => (asAddseg as newseg).2
  | removeseg seg => asRemoveseg as seg
  | findseg addr tail => (asFindseg as addr tail).2
  | gap g => (asGapAligned valid as g).2

/-! ## What should hold -/

def Seg.Overlaps (a b : Seg) : Prop := a.sBase < b.sEnd ∧ b.sBase < a.sEnd

/-- Disjoint segments in order, and cached segments that are among them. -/
structure As.Inv (as : As) : Prop where
  ordered : as.aSegtree.Pairwise fun a b => a.sEnd ≤ b.sBase
  pos : ∀ seg ∈ as.aSegtree, 0 < seg.sSize
  seglast : ∀ seg ∈ as.aSeglast, seg ∈ as.aSegtree
  lastgap : ∀ seg ∈ as.aLastgap, seg ∈ as.aSegtree
  lastgaphl : ∀ seg ∈ as.aLastgaphl, seg ∈ as.aSegtree

/-- What `as_findseg` should return. -/
structure Found (t : List Seg) (addr : Nat) (tail : Bool) (r : Option Seg) : Prop where
  holds : ∀ seg ∈ t, seg.Holds addr → r = some seg
  above : (∀ seg ∈ t, ¬ seg.Holds addr) → ∀ seg ∈ t, addr < seg.sBase → (∀ s ∈ t, addr < s.sBase → seg.sBase ≤ s.sBase) → r = some seg
  last : (∀ seg ∈ t, ¬ seg.Holds addr ∧ ¬ addr < seg.sBase) → r = if tail then t.getLast? else none

/-- A new segment is not empty and does not wrap around. -/
def AsCall.Legal (as : As) : AsCall → Prop
  | addseg newseg => 0 < newseg.sSize ∧ newseg.sEnd < 2 ^ 64
  | removeseg seg => ∀ s ∈ seg, s ∈ as.aSegtree
  | _ => True

def AsCall.Right (as : As) (call : AsCall) : Prop :=
  (call.run valid as).Inv ∧ match call with
  | addseg newseg => ((asAddseg as newseg).1 = -1 ↔ ∃ seg ∈ as.aSegtree, seg.Overlaps newseg) ∧
      ((asAddseg as newseg).1 = -1 → (asAddseg as newseg).2.aSegtree = as.aSegtree)
  | findseg addr tail => Found as.aSegtree addr tail (asFindseg as addr tail).1
  | _ => True

/-- The call does not place an overlapping segment by `a_lastgaphl`. -/
def AsCall.Clear (as : As) : AsCall → Prop
  | addseg newseg => (asHint as newseg).isSome → ∀ seg ∈ as.aSegtree, ¬ seg.Overlaps newseg
  | _ => True

/-- `P` at each call of a sequence. -/
def Calls (P : As → AsCall → Prop) : As → List AsCall → Prop
  | _, [] => True
  | as, call :: calls => P as call ∧ Calls P (call.run valid as) calls

section
variable {t : List Seg} {addr : Nat} {seg : Seg} {tail : Bool}

lemma segNear_mem (hseg : segNear t addr tail = some seg) : seg ∈ t := by
  rw [segNear, or_eq_some_iff, or_eq_some_iff] at hseg
  rcases hseg with hfind | ⟨-, hafter | ⟨-, hlast⟩⟩
  · exact mem_of_find?_eq_some hfind
  · exact mem_of_find?_eq_some hafter
  · split_ifs at hlast
    exact mem_of_getLast? hlast

variable (h : t.Pairwise fun a b => a.sEnd ≤ b.sBase)
include h

lemma segAfter_spec (hseg : segAfter t addr = some seg) :
    seg ∈ t ∧ addr < seg.sBase ∧ ∀ s ∈ t, addr < s.sBase → seg.sBase ≤ s.sBase := by
  obtain ⟨hlt, before, after, rfl, hbefore⟩ := find?_eq_some_iff_append.1 hseg
  rw [pairwise_append, pairwise_cons] at h
  unfold Seg.sEnd at h
  refine ⟨by simp, of_decide_eq_true hlt, fun s hs habove => ?_⟩
  grind

lemma segBefore_spec (hseg : segBefore t addr = some seg) :
    seg ∈ t ∧ seg.sBase < addr ∧ ∀ s ∈ t, s.sBase < addr → s.sBase ≤ seg.sBase := by
  obtain ⟨before, hfilter⟩ := getLast?_eq_some_iff.1 hseg
  have hmem : ∀ s, s ∈ before ++ [seg] ↔ s ∈ t ∧ s.sBase < addr := fun s => by rw [← hfilter]; simp
  have hle := (pairwise_append.1 (hfilter ▸ h.filter _)).2.2
  unfold Seg.sEnd at hle
  grind

lemma eq_of_holds : ∀ s ∈ t, ∀ s' ∈ t, s.Holds addr → s'.Holds addr → s = s' := by
  have hne : ∀ {a b : Seg}, a.sEnd ≤ b.sBase → a.Holds addr → b.Holds addr → False :=
    fun hle ha hb => absurd (ha.2.trans_le hle) (not_lt.2 hb.1)
  exact fun s hs s' hs' => Pairwise.forall_of_forall_of_flip (R := fun a b => a.Holds addr → b.Holds addr → a = b)
    (fun _ _ _ _ => rfl) (h.imp fun hle ha hb => (hne hle ha hb).elim) (h.imp fun hle ha hb => (hne hle hb ha).elim) hs hs'

lemma segNear_found (hpos : ∀ seg ∈ t, 0 < seg.sSize) : Found t addr tail (segNear t addr tail) := by
  have hnone : (∀ seg ∈ t, ¬ seg.Holds addr) → segNear t addr tail = (segAfter t addr).or (if tail then t.getLast? else none) := by
    intro hno
    rw [segNear, find?_eq_none.2 (by simpa using hno), none_or]
  refine ⟨fun seg hseg hholds => ?_, fun hno seg hseg hlt hmin => ?_, fun hno => ?_⟩
  · cases hfind : t.find? (·.Holds addr) with
    | none => exact absurd hholds (by simpa using find?_eq_none.1 hfind seg hseg)
    | some s =>
      rw [segNear, hfind, eq_of_holds h s (mem_of_find?_eq_some hfind) seg hseg (by simpa using find?_some hfind) hholds]
      rfl
  · rw [hnone hno]
    cases hafter : segAfter t addr with
    | none => exact absurd hlt (by simpa using find?_eq_none.1 hafter seg hseg)
    | some s =>
      obtain ⟨hs, hslt, hsmin⟩ := segAfter_spec h hafter
      have heq := le_antisymm (hsmin seg hseg hlt) (hmin s hs hslt)
      have hbase : ∀ s ∈ t, s.Holds s.sBase := fun s hs => ⟨le_rfl, Nat.lt_add_of_pos_right (hpos s hs)⟩
      rw [eq_of_holds h s hs seg hseg (hbase s hs) (heq ▸ hbase seg hseg)]
      rfl
  · rw [hnone fun seg hseg => (hno seg hseg).1, segAfter, find?_eq_none.2 (by simpa using fun seg hseg => (hno seg hseg).2), none_or]

end

section
variable {as : As} {newseg : Seg} (h : as.Inv) {valid}
include h

lemma asFindseg_spec (addr : Nat) (tail : Bool) :
    Found as.aSegtree addr tail (asFindseg as addr tail).1 ∧ (asFindseg as addr tail).2.Inv ∧
      (∀ seg ∈ (asFindseg as addr tail).1, seg ∈ as.aSegtree) ∧ (asFindseg as addr tail).2.aSegtree = as.aSegtree := by
  unfold asFindseg
  split_ifs with hcache
  · obtain ⟨seg, hlast, hholds⟩ := (any_eq_true _ _).1 hcache
    have huniq := fun s hs hs' => eq_of_holds h.ordered s hs seg (h.seglast seg hlast) hs' (of_decide_eq_true hholds)
    refine ⟨⟨fun s hs hs' => ?_, fun hno => absurd (of_decide_eq_true hholds) (hno seg (h.seglast seg hlast)),
      fun hno => absurd (of_decide_eq_true hholds) (hno seg (h.seglast seg hlast)).1⟩, h, h.seglast, rfl⟩
    rw [hlast, huniq s hs hs']
  · exact ⟨segNear_found h.ordered h.pos, { h with seglast := fun _ => segNear_mem }, fun _ => segNear_mem, rfl⟩

/-- A segment that overlaps none is put in its place. -/
lemma As.Inv.insert {addr : Nat} (hpos : 0 < newseg.sSize) (hno : ∀ seg ∈ as.aSegtree, ¬ seg.Overlaps newseg)
    (hplace : ∀ seg ∈ as.aSegtree, seg.sBase ≤ addr ↔ seg.sBase ≤ newseg.sBase) : (as.insert newseg addr).Inv := by
  have hmem : ∀ seg, seg ∈ (as.insert newseg addr).aSegtree ↔ seg = newseg ∨ seg ∈ as.aSegtree := by
    intro seg
    simp only [As.insert, mem_append, mem_cons, mem_filter, decide_eq_true_eq]
    tauto
  refine ⟨?_, fun seg hseg => ?_, fun seg hseg => ?_, fun seg hseg => (hmem seg).2 (.inr (h.lastgap seg hseg)), by simp [As.insert]⟩
  · have hs := h.pos
    unfold Seg.Overlaps Seg.sEnd at hno
    simp only [As.insert, pairwise_append, pairwise_cons, mem_filter, mem_cons, decide_eq_true_eq, Seg.sEnd]
    refine ⟨h.ordered.filter _, ⟨fun seg hseg => ?_, h.ordered.filter _⟩, fun seg hseg seg' hseg' => ?_⟩
    · grind
    · grind
  · rcases (hmem seg).1 hseg with rfl | hseg
    · exact hpos
    · exact h.pos seg hseg
  · exact (hmem seg).2 (.inl (some.inj hseg).symm)

/-- The place that `a_lastgaphl` gives is the right one. -/
lemma asHint_place {lseg : Seg} (hhint : asHint as newseg = some lseg) :
    ∀ seg ∈ as.aSegtree, seg.sBase ≤ lseg.sBase ↔ seg.sBase ≤ newseg.sBase := by
  simp only [asHint, bind_eq_some_iff] at hhint
  obtain ⟨gap, -, l, hl, hseg, hh, hlt⟩ := hhint
  intro seg hs
  split_ifs at hl hh hlt with hgap hbetween hbetween
  · obtain rfl := some.inj hlt
    obtain rfl := some.inj hh
    have := (segBefore_spec h.ordered hl).2.2 seg hs
    omega
  · obtain rfl := some.inj hlt
    obtain rfl := some.inj hl
    have := (segAfter_spec h.ordered hh).2.2 seg hs
    omega

lemma segNear_overlaps (hpos : 0 < newseg.sSize) :
    (segNear as.aSegtree newseg.sBase true).any (·.meets newseg) = true ↔ ∃ seg ∈ as.aSegtree, seg.Overlaps newseg := by
  have hfound : Found as.aSegtree newseg.sBase true _ := segNear_found h.ordered h.pos
  rw [Option.any_eq_true]
  constructor
  · rintro ⟨seg, hnear, hcond⟩
    have := of_decide_eq_true hcond
    refine ⟨seg, segNear_mem hnear, ?_⟩
    unfold Seg.Overlaps Seg.sEnd at *
    omega
  · rintro ⟨seg, hseg, hover⟩
    by_cases hholds : ∃ s ∈ as.aSegtree, s.Holds newseg.sBase
    · obtain ⟨s, hs, hs'⟩ := hholds
      exact ⟨s, hfound.holds s hs hs', decide_eq_true ⟨hs'.2, .inl hs'.1⟩⟩
    · push Not at hholds
      cases hafter : segAfter as.aSegtree newseg.sBase with
      | none =>
        have := find?_eq_none.1 hafter seg hseg
        have := hholds seg hseg
        unfold Seg.Overlaps Seg.Holds at *
        grind
      | some s =>
        obtain ⟨hs, hlt, hmin⟩ := segAfter_spec h.ordered hafter
        refine ⟨s, hfound.above hholds s hs hlt hmin, decide_eq_true ?_⟩
        have := hmin seg hseg
        have := hholds seg hseg
        have := h.pos s hs
        unfold Seg.Overlaps Seg.Holds Seg.sEnd at *
        omega

lemma asRemoveseg_inv {seg : Option Seg} : (asRemoveseg as seg).Inv := by
  cases seg with
  | none => exact h
  | some seg =>
    have hne : ∀ s ∈ as.aSegtree, s ≠ seg → s ∈ as.aSegtree.erase seg := fun s hs hne => (mem_erase_of_ne hne).2 hs
    refine ⟨h.ordered.sublist erase_sublist, fun s hs => h.pos s (mem_of_mem_erase hs), fun s hs => ?_, fun s hs => ?_, by simp [asRemoveseg]⟩
    · simp only [asRemoveseg] at hs ⊢
      split_ifs at hs with hlast
      · cases hs
      · exact hne s (h.seglast s hs) fun heq => hlast (heq ▸ hs)
    · simp only [asRemoveseg] at hs ⊢
      split_ifs at hs with hgap
      · obtain ⟨hs, hlt, -⟩ := segAfter_spec h.ordered hs
        exact hne s hs fun heq => absurd hlt (heq ▸ lt_irrefl _)
      · refine hne s (h.lastgap s hs) fun heq => hgap ?_
        rw [mem_def.1 hs, heq]
        simp

omit h in
lemma asGapLoop_mem {t : List Seg} {g : AsGap} {minlen redzone hibound fuel : Nat} {lseg hseg l r : Option Seg} {hole : Nat × Nat}
    (hl : ∀ s ∈ lseg, s ∈ t) (hh : ∀ s ∈ hseg, s ∈ t)
    (hrun : asGapLoop valid t g minlen redzone hibound fuel lseg hseg = some (hole, l, r)) : (∀ s ∈ l, s ∈ t) ∧ ∀ s ∈ r, s ∈ t := by
  induction fuel generalizing lseg hseg with
  | zero => cases hrun
  | succ fuel ih =>
    rw [asGapLoop] at hrun
    split at hrun
    · cases hrun
    split at hrun
    · cases hrun
      exact ⟨hl, hh⟩
    split at hrun
    · obtain ⟨seg, hseg, hrun⟩ := bind_eq_some_iff.1 hrun
      exact ih (fun s hs => hh s (hseg.trans hs)) (fun _ => mem_of_find?_eq_some) hrun
    · obtain ⟨seg, hseg, hrun⟩ := bind_eq_some_iff.1 hrun
      exact ih (fun _ hs => (mem_filter.1 (mem_of_getLast? hs)).1) (fun s hs => hl s (hseg.trans hs)) hrun

lemma asGapPass_inv {g : AsGap} {minlen redzone hibound : Nat} {r : Option (Nat × Nat) × As × Nat}
    (hpass : asGapPass valid as g minlen redzone hibound = r) : r.2.1.Inv := by
  rw [← hpass, asGapPass]
  dsimp only
  generalize (as.aLastgap.filter _).elim hibound Seg.sBase = hibound
  obtain ⟨-, hinv, hmem, htree⟩ := asFindseg_spec h (if g.forward then g.base else hibound) true
  generalize asFindseg as (if g.forward then g.base else hibound) true = found at *
  split
  next r l u hrun =>
    have hmem' : ∀ s ∈ found.1.bind fun seg => segBefore as.aSegtree seg.sBase, s ∈ as.aSegtree := by
      intro s hs
      obtain ⟨seg, -, hs⟩ := bind_eq_some_iff.1 hs
      exact (mem_filter.1 (mem_of_getLast? hs)).1
    obtain ⟨hl, hu⟩ := asGapLoop_mem (by split_ifs; exacts [hmem, hmem']) (by split_ifs; exacts [by simp, hmem]) hrun
    refine { hinv with lastgap := fun s hs => ?_, lastgaphl := fun s hs => ?_ }
    · rw [htree]
      split_ifs at hs
      · exact h.lastgap s hs
      · exact hu s hs
    · rw [htree]
      exact (or_eq_some_iff.1 hs).elim (hu s) fun hs => hl s hs.2
  exact hinv

lemma AsCall.right_iff_clear {call : AsCall} (hlegal : call.Legal as) : call.Right valid as ↔ call.Clear as := by
  cases call with
  | addseg newseg =>
    simp only [Right, Clear, run, asAddseg]
    have hover := segNear_overlaps h hlegal.1
    cases hhint : asHint as newseg with
    | some lseg =>
      simp only [isSome_some, true_implies]
      refine ⟨fun hr seg hseg hov => absurd (hr.2.1.2 ⟨seg, hseg, hov⟩) (by simp), fun hno => ?_⟩
      exact ⟨h.insert hlegal.1 hno (asHint_place h hhint), by simpa using hno, by simp⟩
    | none =>
      simp only [isSome_none, Bool.false_eq_true, false_implies, iff_true]
      split_ifs with hnear
      · exact ⟨{ h with lastgaphl := by simp }, by simpa using hover.1 hnear, fun _ => rfl⟩
      · have hno := mt hover.2 hnear
        push Not at hno
        exact ⟨h.insert hlegal.1 hno fun _ _ => Iff.rfl, by simpa using hno, by simp⟩
  | removeseg seg => exact ⟨fun _ => trivial, fun _ => ⟨asRemoveseg_inv h, trivial⟩⟩
  | findseg addr tail => exact ⟨fun _ => trivial, fun _ => ⟨(asFindseg_spec h addr tail).2.1, (asFindseg_spec h addr tail).1⟩⟩
  | gap g =>
    refine ⟨fun _ => trivial, fun _ => ⟨?_, trivial⟩⟩
    simp only [run, asGapAligned]
    split
    · exact h
    split
    · next hpass => exact asGapPass_inv h hpass
    · next hpass =>
      split
      · exact asGapPass_inv (asGapPass_inv h hpass) rfl
      · exact asGapPass_inv h hpass

end

variable {valid} in
lemma calls_right_iff (calls : List AsCall) : ∀ {as : As}, as.Inv → Calls valid AsCall.Legal as calls →
    (Calls valid (AsCall.Right valid) as calls ↔ Calls valid AsCall.Clear as calls) := by
  induction calls with
  | nil => exact fun _ _ => Iff.rfl
  | cons call calls ih =>
    rintro as h ⟨hlegal, hrest⟩
    have hstep : call.Right valid as ↔ call.Clear as := AsCall.right_iff_clear h hlegal
    constructor
    · exact fun hr => ⟨hstep.1 hr.1, (ih hr.1.1 hrest).1 hr.2⟩
    · exact fun hc => ⟨hstep.2 hc.1, (ih (hstep.2 hc.1).1 hrest).2 hc.2⟩

def asInit : As := ⟨[], none, none, none⟩

/-- **The segments of an address space** stay disjoint as long as `a_lastgaphl` places none over another one. -/
theorem as_segments_iff (calls : List AsCall) (hlegal : Calls valid AsCall.Legal asInit calls) :
    Calls valid (AsCall.Right valid) asInit calls ↔ Calls valid AsCall.Clear asInit calls :=
  calls_right_iff calls (by constructor <;> simp [asInit]) hlegal

/-- A machine that takes every hole as it is. -/
def wholeHole : ValidVaRange := fun base len _ _ _ _ _ => some (base, len)

/-- A hole is looked for, and a segment added over the end of the one before it. -/
def overlapCalls : List AsCall :=
  [.addseg ⟨0x1000, 0x2000⟩, .addseg ⟨0x5000, 0x1000⟩, .gap ⟨0x1000, 0x3000, 0x10000, true, false, 0, 0, 0, 0⟩, .addseg ⟨0x2000, 0x1000⟩]

theorem as_segments_overlap : Calls wholeHole AsCall.Legal asInit overlapCalls ∧
    ¬ Calls wholeHole (AsCall.Right wholeHole) asInit overlapCalls := by
  constructor
  · simp [Calls, overlapCalls, AsCall.Legal, Seg.sEnd]
  · rintro ⟨-, -, -, ⟨hinv, -⟩, -⟩
    exact absurd hinv.ordered (by decide)

theorem as_segments_iff_two :
    Calls wholeHole (AsCall.Right wholeHole) asInit [.addseg ⟨0x4000, 0x2000⟩, .addseg ⟨0x1000, 0x2000⟩] := by
  refine (as_segments_iff wholeHole [.addseg ⟨0x4000, 0x2000⟩, .addseg ⟨0x1000, 0x2000⟩] ?_).2 ?_
  · exact ⟨⟨by decide, by decide⟩, ⟨by decide, by decide⟩, trivial⟩
  · exact ⟨fun h => absurd h (by decide), fun h => absurd h (by decide), trivial⟩

end Unleashed.Kernel
