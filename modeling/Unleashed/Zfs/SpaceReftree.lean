import Unleashed.Zfs.RangeTree.Walk

/-!
# Space reference trees

A reference tree has a node at each end of every segment added to it. A sweep gives the offsets whose count reaches a
threshold. Nodes of one offset are ordered by address.
-/

namespace Unleashed.Zfs

open Lib Segs List

/-- A sum or a negation that is stored in an `int64_t`. -/
def int64 (x : Int) : Int := x.bmod (2 ^ 64)

lemma int64_eq {x : Int} (h : x.natAbs < 2 ^ 63) : int64 x = x :=
  Int.bmod_eq_of_le (by omega) (by omega)

/-- `space_ref_t` and its address. -/
structure SpaceRef where
  srOffset : Nat
  srRefcnt : Int
  address : Nat
deriving DecidableEq, Repr

def spaceReftreeCompare (sr1 sr2 : SpaceRef) : Ordering :=
  if sr1.srOffset < sr2.srOffset then .lt
  else if sr1.srOffset > sr2.srOffset then .gt
  else if sr1.address < sr2.address then .lt
  else if sr1.address > sr2.address then .gt
  else .eq

/-- `avl_add`, on the nodes in order. A second equal node is an error. -/
def reftreeAvlAdd : List SpaceRef → SpaceRef → Except Fault (List SpaceRef)
  | [], sr => .ok [sr]
  | x :: t, sr =>
    match spaceReftreeCompare sr x with
    | .lt => .ok (sr :: x :: t)
    | .gt => do
      let t ← reftreeAvlAdd t sr
      .ok (x :: t)
    | .eq => .error .assert

/-- A reference tree. `kmem_alloc` returns `addr next`. -/
structure SpaceReftree where
  nodes : List SpaceRef
  next : Nat
deriving DecidableEq, Repr

section
variable (addr : Nat → Nat)

def spaceReftreeAddNode (t : SpaceReftree) (offset : Nat) (refcnt : Int) : Except Fault SpaceReftree := do
  let nodes ← reftreeAvlAdd t.nodes ⟨offset, refcnt, addr t.next⟩
  .ok ⟨nodes, t.next + 1⟩

def spaceReftreeAddSeg (t : SpaceReftree) (start stop : Nat) (refcnt : Int) : Except Fault SpaceReftree := do
  let t ← spaceReftreeAddNode addr t start refcnt
  spaceReftreeAddNode addr t stop (int64 (-refcnt))

def spaceReftreeAddMap (t : SpaceReftree) (rt : RangeTree) (refcnt : Int) : Except Fault SpaceReftree :=
  rt.rtRoot.foldlM (fun t rs => spaceReftreeAddSeg addr t rs.lo rs.hi refcnt) t

/-- `-1ULL`: no range is open. -/
def noStart : Nat := 2 ^ 64 - 1

/-- The variables of the sweep. -/
structure Sweep where
  start : Nat
  refcnt : Int
  rt : RangeTree

/-- The end of a range whose count falls below the threshold. -/
def sweepAdd (rt : RangeTree) (start stop : Nat) : Except Fault RangeTree := do
  ASSERT (start ≤ stop)
  if stop > start then rangeTreeAdd rt start (stop - start) else .ok rt

/-- The body of the loop of `space_reftree_generate_map`. -/
def sweepStep (minref : Int) (s : Sweep) (sr : SpaceRef) : Except Fault Sweep :=
  let refcnt := int64 (s.refcnt + sr.srRefcnt)
  if refcnt ≥ minref then
    .ok ⟨if s.start = noStart then sr.srOffset else s.start, refcnt, s.rt⟩
  else if s.start ≠ noStart then do
    let rt ← sweepAdd s.rt s.start sr.srOffset
    .ok ⟨noStart, refcnt, rt⟩
  else .ok ⟨s.start, refcnt, s.rt⟩

def spaceReftreeGenerateMap (t : SpaceReftree) (rt : RangeTree) (minref : Int) : Except Fault RangeTree := do
  let vacated ← rangeTreeVacate rt (fun u _ _ => .ok u) ()
  let s ← t.nodes.foldlM (sweepStep minref) ⟨noStart, 0, vacated.1⟩
  ASSERT (s.refcnt = 0)
  ASSERT (s.start = noStart)
  .ok s.rt

/-- A segment with a count, in 64-bit offsets. -/
structure RefSeg where
  (lo hi : Nat)
  refcnt : Int
  le : lo ≤ hi
  hi_lt : hi < 2 ^ 64

/-- A call that adds to a reference tree. -/
inductive ReftreeAdd where
  | seg (s : RefSeg)
  | map (rt : RangeTree) (hi_lt : ∀ s ∈ rt.rtRoot, s.hi < 2 ^ 64) (refcnt : Int)

def ReftreeAdd.exec (t : SpaceReftree) : ReftreeAdd → Except Fault SpaceReftree
  | .seg s => spaceReftreeAddSeg addr t s.lo s.hi s.refcnt
  | .map rt _ refcnt => spaceReftreeAddMap addr t rt refcnt

/-- Any calls on a new tree. -/
def spaceReftreeAdds (adds : List ReftreeAdd) : Except Fault SpaceReftree :=
  adds.foldlM (ReftreeAdd.exec addr) ⟨[], 0⟩

end

section

/-- The count of the segment at an offset. -/
def RefSeg.countAt (x : Nat) (s : RefSeg) : Int :=
  if s.lo ≤ x ∧ x < s.hi then s.refcnt else 0

/-- The segments of the calls. -/
def ReftreeAdd.segs : ReftreeAdd → List RefSeg
  | .seg s => [s]
  | .map rt hi_lt refcnt => rt.rtRoot.attach.map fun s =>
      ⟨s.1.lo, s.1.hi, refcnt, le_of_lt (rt.consistent.separated.pos s.1 s.2), hi_lt s.1 s.2⟩

/-- The sum of the counts of the segments that contain the offset. -/
def refcntAt (segs : List RefSeg) (x : Nat) : Int :=
  (segs.map (RefSeg.countAt x)).sum

/-- The sum of the absolute counts, which bounds every intermediate sum of the sweep. -/
def refWeight (segs : List RefSeg) : Nat :=
  (segs.map (·.refcnt.natAbs)).sum

/-- The change at a node, seen from an offset. -/
def SpaceRef.changeAt (x : Nat) (sr : SpaceRef) : Int :=
  if sr.srOffset ≤ x then sr.srRefcnt else 0

/-- The sum of the changes up to an offset. -/
def changesAt (nodes : List SpaceRef) (x : Nat) : Int :=
  (nodes.map (SpaceRef.changeAt x)).sum

end

variable {t : SpaceReftree} {count : Nat → Int} {weight : Nat} {segs : List RefSeg}

section
variable {addr : Nat → Nat}

/-- The nodes of the tree are in order and count what the segments count, with absolute values that add up to
`weight`. -/
structure SpaceReftree.Counts (addr : Nat → Nat) (t : SpaceReftree) (count : Nat → Int) (weight : Nat) : Prop where
  sorted : t.nodes.Pairwise fun a b => a.srOffset ≤ b.srOffset
  lt : ∀ n ∈ t.nodes, n.srOffset < 2 ^ 64
  allocated : ∀ n ∈ t.nodes, ∃ k < t.next, n.address = addr k
  changes : ∀ x, changesAt t.nodes x = count x
  weighs : (t.nodes.map (·.srRefcnt.natAbs)).sum = weight

lemma reftreeAvlAdd_spec (sr : SpaceRef) (t : List SpaceRef) :
    (t.Pairwise fun a b => a.srOffset ≤ b.srOffset) → (∀ n ∈ t, n.address ≠ sr.address) →
      ∃ t', reftreeAvlAdd t sr = .ok t' ∧ t'.Perm (sr :: t) ∧ t'.Pairwise fun a b => a.srOffset ≤ b.srOffset := by
  induction t with
  | nil => exact fun _ _ => ⟨[sr], rfl, .refl _, pairwise_singleton ..⟩
  | cons x t ih =>
    intro hsorted hne
    obtain ⟨hx, ht⟩ := pairwise_cons.1 hsorted
    have hxne := hne x mem_cons_self
    rw [reftreeAvlAdd]
    cases hc : spaceReftreeCompare sr x with
    | lt =>
      have hle : sr.srOffset ≤ x.srOffset := by
        unfold spaceReftreeCompare at hc
        split_ifs at hc <;> omega
      refine ⟨_, rfl, .refl _, pairwise_cons.2 ⟨fun b hb => ?_, hsorted⟩⟩
      rcases mem_cons.1 hb with rfl | hb
      · exact hle
      · exact hle.trans (hx b hb)
    | gt =>
      have hle : x.srOffset ≤ sr.srOffset := by
        unfold spaceReftreeCompare at hc
        split_ifs at hc <;> omega
      obtain ⟨t', heq, hperm, hsorted'⟩ := ih ht fun n hn => hne n (mem_cons_of_mem x hn)
      dsimp only
      rw [heq]
      refine ⟨_, rfl, (hperm.cons x).trans (.swap ..), pairwise_cons.2 ⟨fun b hb => ?_, hsorted'⟩⟩
      rcases mem_cons.1 (hperm.mem_iff.1 hb) with rfl | hb
      · exact hle
      · exact hx b hb
    | eq =>
      unfold spaceReftreeCompare at hc
      split_ifs at hc
      omega

lemma changesAt_perm {l l' : List SpaceRef} (h : l.Perm l') (x : Nat) : changesAt l x = changesAt l' x :=
  (h.map _).sum_eq

lemma SpaceReftree.Counts.addNode (hinj : Function.Injective addr) (h : t.Counts addr count weight)
    {offset : Nat} (hlt : offset < 2 ^ 64) (refcnt : Int) : ∃ t', spaceReftreeAddNode addr t offset refcnt = .ok t' ∧
      t'.Counts addr (fun x => (if offset ≤ x then refcnt else 0) + count x) (refcnt.natAbs + weight) := by
  have hfresh : ∀ n ∈ t.nodes, n.address ≠ addr t.next := by
    intro n hn heq
    obtain ⟨k, hk, haddr⟩ := h.allocated n hn
    have := hinj (haddr.symm.trans heq)
    omega
  obtain ⟨nodes, heq, hperm, hsorted⟩ := reftreeAvlAdd_spec ⟨offset, refcnt, addr t.next⟩ t.nodes h.sorted hfresh
  rw [spaceReftreeAddNode, heq]
  refine ⟨_, rfl, hsorted, fun n hn => ?_, fun n hn => ?_, fun x => ?_, ?_⟩
  · rcases mem_cons.1 (hperm.mem_iff.1 hn) with rfl | hn
    · exact hlt
    · exact h.lt n hn
  · rcases mem_cons.1 (hperm.mem_iff.1 hn) with rfl | hn
    · exact ⟨t.next, Nat.lt_succ_self _, rfl⟩
    · obtain ⟨k, hk, haddr⟩ := h.allocated n hn
      exact ⟨k, Nat.lt_succ_of_lt hk, haddr⟩
  · rw [changesAt_perm hperm, ← h.changes]
    rfl
  · rw [(hperm.map _).sum_eq, map_cons, sum_cons, h.weighs]

/-- The nodes of the segments that were added. -/
abbrev SpaceReftree.Holds (addr : Nat → Nat) (t : SpaceReftree) (segs : List RefSeg) : Prop :=
  t.Counts addr (refcntAt segs) (2 * refWeight segs)

lemma SpaceReftree.Holds.addSeg (hinj : Function.Injective addr) (h : t.Holds addr segs) (s : RefSeg)
    (hs : s.refcnt.natAbs < 2 ^ 63) :
    ∃ t', spaceReftreeAddSeg addr t s.lo s.hi s.refcnt = .ok t' ∧ t'.Holds addr (segs ++ [s]) := by
  have hle := s.le
  obtain ⟨t1, heq1, h1⟩ := h.addNode hinj (s.le.trans_lt s.hi_lt) s.refcnt
  obtain ⟨t2, heq2, h2⟩ := h1.addNode hinj s.hi_lt (-s.refcnt)
  rw [spaceReftreeAddSeg, heq1, ok_bind, int64_eq (by omega)]
  refine ⟨t2, heq2, h2.sorted, h2.lt, h2.allocated, fun x => ?_, ?_⟩
  · rw [h2.changes, refcntAt, refcntAt, map_append, sum_append, map_singleton, sum_singleton, RefSeg.countAt]
    split_ifs <;> omega
  · rw [h2.weighs, refWeight, refWeight, map_append, sum_append, map_singleton, sum_singleton]
    omega

lemma SpaceReftree.Holds.addSegs (hinj : Function.Injective addr) (new : List RefSeg)
    (hnew : ∀ s ∈ new, s.refcnt.natAbs < 2 ^ 63) :
    ∀ {t : SpaceReftree} {segs : List RefSeg}, t.Holds addr segs →
      ∃ t', new.foldlM (fun t s => spaceReftreeAddSeg addr t s.lo s.hi s.refcnt) t = .ok t' ∧
        t'.Holds addr (segs ++ new) := by
  induction new with
  | nil =>
    intro t segs h
    refine ⟨t, rfl, ?_⟩
    rw [append_nil]
    exact h
  | cons s new ih =>
    intro t segs h
    obtain ⟨t1, heq1, h1⟩ := Holds.addSeg hinj h s (hnew s mem_cons_self)
    obtain ⟨t2, heq2, h2⟩ := ih (fun s' hs' => hnew s' (mem_cons_of_mem s hs')) h1
    rw [foldlM_cons, heq1]
    refine ⟨t2, heq2, ?_⟩
    rw [append_cons]
    exact h2

lemma exec_eq (t : SpaceReftree) (a : ReftreeAdd) :
    a.exec addr t = a.segs.foldlM (fun t s => spaceReftreeAddSeg addr t s.lo s.hi s.refcnt) t := by
  cases a with
  | seg s =>
    rw [ReftreeAdd.exec, ReftreeAdd.segs, foldlM_cons]
    exact (bind_pure _).symm
  | map rt hi_lt refcnt =>
    rw [ReftreeAdd.exec, ReftreeAdd.segs, foldlM_map, spaceReftreeAddMap,
      foldlM_subtype (g := fun t rs => spaceReftreeAddSeg addr t rs.lo rs.hi refcnt) (fun _ _ _ => rfl), unattach_attach]

/-- **Run.** Any calls. -/
theorem SpaceReftree.Holds.adds (hinj : Function.Injective addr) (adds : List ReftreeAdd)
    (hadds : ∀ s ∈ adds.flatMap ReftreeAdd.segs, s.refcnt.natAbs < 2 ^ 63) :
    ∀ {t : SpaceReftree} {segs : List RefSeg}, t.Holds addr segs →
      ∃ t', adds.foldlM (ReftreeAdd.exec addr) t = .ok t' ∧ t'.Holds addr (segs ++ adds.flatMap ReftreeAdd.segs) := by
  induction adds with
  | nil =>
    intro t segs h
    refine ⟨t, rfl, ?_⟩
    rw [flatMap_nil, append_nil]
    exact h
  | cons a adds ih =>
    intro t segs h
    rw [flatMap_cons] at hadds
    obtain ⟨t1, heq1, h1⟩ := Holds.addSegs hinj a.segs (fun s hs => hadds s (mem_append_left _ hs)) h
    obtain ⟨t2, heq2, h2⟩ := ih (fun s hs => hadds s (mem_append_right _ hs)) h1
    rw [foldlM_cons, exec_eq, heq1]
    refine ⟨t2, heq2, ?_⟩
    rw [flatMap_cons, ← append_assoc]
    exact h2

end

section
variable {minref : Int} {total : Nat → Int} {s : Sweep} {p q : Nat}

/-- Where the sweep stands: below `p` all is decided, and the open range reaches `p`. -/
structure Swept (minref : Int) (total : Nat → Int) (p : Nat) (s : Sweep) : Prop where
  cover : ∀ x, x ∈ s.rt.cover ↔ x < p ∧ (s.start ≠ noStart → x < s.start) ∧ minref ≤ total x
  openRange : s.start ≠ noStart → s.start ≤ p ∧ minref ≤ s.refcnt ∧ ∀ x, s.start ≤ x → x < p → minref ≤ total x
  closed : s.start = noStart → s.refcnt < minref ∨ p = noStart

lemma Swept.advance (h : Swept minref total p s) (hpq : p ≤ q) (hq : q < 2 ^ 64) (hflat : ∀ x, p ≤ x → x < q → total x = s.refcnt) :
    Swept minref total q s := by
  have hno : noStart = 2 ^ 64 - 1 := rfl
  refine ⟨fun x => ?_, fun hs => ?_, fun hs => ?_⟩
  · rw [h.cover]
    by_cases hx : x < p
    · exact ⟨fun ⟨_, h2⟩ => ⟨by omega, h2⟩, fun ⟨_, h2⟩ => ⟨hx, h2⟩⟩
    · refine ⟨fun ⟨h1, _⟩ => absurd h1 hx, fun ⟨h1, h2, h3⟩ => ?_⟩
      rw [hflat x (Nat.le_of_not_lt hx) h1] at h3
      by_cases hs : s.start = noStart
      · rcases h.closed hs with h4 | h4 <;> omega
      · have := (h.openRange hs).1
        have := h2 hs
        omega
  · obtain ⟨h1, h2, h3⟩ := h.openRange hs
    refine ⟨h1.trans hpq, h2, fun x hx1 hx2 => ?_⟩
    by_cases hx : x < p
    · exact h3 x hx1 hx
    · rw [hflat x (Nat.le_of_not_lt hx) hx2]
      exact h2
  · rcases h.closed hs with h1 | h1
    · exact .inl h1
    · exact .inr (by omega)

/-- **Step.** A node at the offset the sweep stands at, where the sum does not overflow. -/
theorem Swept.step {sr : SpaceRef} (h : Swept minref total sr.srOffset s)
    (hfit : (s.refcnt + sr.srRefcnt).natAbs < 2 ^ 63) :
    ∃ s', sweepStep minref s sr = .ok s' ∧ s'.refcnt = s.refcnt + sr.srRefcnt ∧ Swept minref total sr.srOffset s' := by
  rw [sweepStep, int64_eq hfit]
  by_cases hge : s.refcnt + sr.srRefcnt ≥ minref
  · rw [if_pos hge]
    refine ⟨_, rfl, rfl, ?_⟩
    by_cases hs : s.start = noStart
    · rw [if_pos hs]
      refine ⟨fun x => ?_, fun _ => ⟨le_refl _, hge, fun x h1 h2 => absurd h2 (not_lt.2 h1)⟩, fun h1 => .inr h1⟩
      rw [h.cover]
      exact ⟨fun ⟨h1, _, h3⟩ => ⟨h1, fun _ => h1, h3⟩, fun ⟨h1, _, h3⟩ => ⟨h1, fun h2 => absurd hs h2, h3⟩⟩
    · rw [if_neg hs]
      obtain ⟨h1, _, h3⟩ := h.openRange hs
      exact ⟨h.cover, fun _ => ⟨h1, hge, h3⟩, fun h2 => absurd h2 hs⟩
  · rw [if_neg hge]
    by_cases hs : s.start = noStart
    · rw [if_neg (by rw [hs]; exact fun h => h rfl)]
      exact ⟨_, rfl, rfl, h.cover, fun h1 => absurd hs h1, fun _ => .inl (Int.lt_of_not_ge hge)⟩
    · obtain ⟨hle, _, hopen⟩ := h.openRange hs
      rw [if_pos hs, sweepAdd, ASSERT_bind hle]
      by_cases hlt : sr.srOffset > s.start
      · have hdisj : Disjoint s.rt.cover (Finset.Ico s.start (s.start + (sr.srOffset - s.start))) := by
          refine Finset.disjoint_left.2 fun x hx hx' => ?_
          have := ((h.cover x).1 hx).2.1 hs
          have := (Finset.mem_Ico.1 hx').1
          omega
        obtain ⟨rt', heq, hcov⟩ := rangeTreeAdd_of_disjoint s.rt s.start (by omega) hdisj
        rw [if_pos hlt, heq, ok_bind]
        refine ⟨_, rfl, rfl, fun x => ?_, fun h1 => absurd rfl h1, fun _ => .inl (Int.lt_of_not_ge hge)⟩
        rw [hcov, Finset.mem_union, h.cover, Finset.mem_Ico]
        constructor
        · rintro (⟨h1, _, h3⟩ | ⟨h1, h2⟩)
          · exact ⟨h1, fun h2 => absurd rfl h2, h3⟩
          · exact ⟨by omega, fun h3 => absurd rfl h3, hopen x h1 (by omega)⟩
        · rintro ⟨h1, _, h3⟩
          rcases lt_or_ge x s.start with h4 | h4
          · exact .inl ⟨h1, fun _ => h4, h3⟩
          · exact .inr ⟨h4, by omega⟩
      · have heq : s.start = sr.srOffset := by omega
        rw [if_neg hlt, ok_bind]
        refine ⟨_, rfl, rfl, fun x => ?_, fun h1 => absurd rfl h1, fun _ => .inl (Int.lt_of_not_ge hge)⟩
        rw [h.cover, heq]
        exact ⟨fun ⟨h1, _, h3⟩ => ⟨h1, fun h2 => absurd rfl h2, h3⟩, fun ⟨h1, _, h3⟩ => ⟨h1, fun _ => h1, h3⟩⟩

/-- **Run.** The sweep over the nodes from `p` on. -/
theorem Swept.run (nodes : List SpaceRef) :
    ∀ {s : Sweep} {p : Nat} {before : Int}, Swept minref total p s → (nodes.Pairwise fun a b => a.srOffset ≤ b.srOffset) →
      (∀ n ∈ nodes, p ≤ n.srOffset ∧ n.srOffset < 2 ^ 64) →
      (∀ pre post, nodes = pre ++ post → (before + (pre.map (·.srRefcnt)).sum).natAbs < 2 ^ 63) →
      s.refcnt = before → (∀ x, p ≤ x → total x = before + changesAt nodes x) →
      ∃ s' p', nodes.foldlM (sweepStep minref) s = .ok s' ∧ Swept minref total p' s' ∧ ∀ x, p' ≤ x → total x = s'.refcnt := by
  induction nodes with
  | nil =>
    intro s p before h _ _ _ href htotal
    refine ⟨s, p, rfl, h, fun x hx => ?_⟩
    rw [htotal x hx, href]
    exact Int.add_zero before
  | cons n nodes ih =>
    intro s p before h hsorted hin hfit href htotal
    obtain ⟨hn, hsorted'⟩ := pairwise_cons.1 hsorted
    obtain ⟨hpn, hlt⟩ := hin n mem_cons_self
    -- the nodes from `n` on change nothing below `n`
    have hflat : ∀ x, p ≤ x → x < n.srOffset → total x = s.refcnt := by
      intro x h1 h2
      have hzero : changesAt (n :: nodes) x = 0 := by
        refine sum_eq_zero fun c hc => ?_
        obtain ⟨m, hm, rfl⟩ := mem_map.1 hc
        have hle : n.srOffset ≤ m.srOffset := by
          rcases mem_cons.1 hm with rfl | hm
          · exact le_refl _
          · exact hn m hm
        exact if_neg (by omega)
      rw [htotal x h1, hzero, Int.add_zero, href]
    have hfirst := hfit [n] nodes rfl
    rw [map_singleton, sum_singleton, ← href] at hfirst
    obtain ⟨s1, heq1, href1, h₁⟩ := (h.advance hpn hlt hflat).step hfirst
    have hrest : ∀ pre post, nodes = pre ++ post →
        (s.refcnt + n.srRefcnt + (pre.map (·.srRefcnt)).sum).natAbs < 2 ^ 63 := by
      intro pre post hsplit
      have := hfit (n :: pre) post (by rw [hsplit, cons_append])
      rwa [map_cons, sum_cons, ← href, ← Int.add_assoc] at this
    obtain ⟨s2, p2, heq2, h₂, hend⟩ := ih h₁ hsorted' (fun m hm => ⟨hn m hm, (hin m (mem_cons_of_mem n hm)).2⟩) hrest href1 fun x hx => by
      rw [htotal x (hpn.trans hx), href, changesAt, map_cons, sum_cons, SpaceRef.changeAt, if_pos hx, Int.add_assoc]
      rfl
    rw [foldlM_cons, heq1]
    exact ⟨s2, p2, heq2, h₂, hend⟩

lemma natAbs_sum_le (l : List Int) : l.sum.natAbs ≤ (l.map Int.natAbs).sum := by
  induction l with
  | nil => exact le_rfl
  | cons x l ih =>
    rw [sum_cons, map_cons, sum_cons]
    exact (Int.natAbs_add_le x l.sum).trans (Nat.add_le_add_left ih _)

/-- If all changes add up to 0, those of a first part are at most half of all the absolute values: they are undone
by the rest. -/
lemma natAbs_prefix_sum_le (pre post : List Int) (h : (pre ++ post).sum = 0) :
    2 * pre.sum.natAbs ≤ ((pre ++ post).map Int.natAbs).sum := by
  have hpre := natAbs_sum_le pre
  have hpost := natAbs_sum_le post
  rw [sum_append] at h
  rw [map_append, sum_append]
  omega

/-- **`space_reftree_generate_map`** of a tree whose counts end at 0. -/
theorem generateMap_spec {addr : Nat → Nat} (h : t.Counts addr count weight) (hfit : weight < 2 ^ 64)
    (hend : (t.nodes.map (·.srRefcnt)).sum = 0) (hmin : 1 ≤ minref) (rt : RangeTree) :
    ∃ rt', spaceReftreeGenerateMap t rt minref = .ok rt' ∧ ∀ x, x ∈ rt'.cover ↔ minref ≤ count x := by
  have hvacate : rangeTreeVacate rt (fun u _ _ => .ok u) () = .ok (.create, ()) := by
    rw [rangeTreeVacate, rangeTreeWalk]
    induction rt.rtRoot with
    | nil => rfl
    | cons s l ih => exact ih
  have hstart : Swept minref count 0 ⟨noStart, 0, .create⟩ :=
    ⟨fun x => ⟨fun hx => absurd hx (Finset.notMem_empty x), fun hx => absurd hx.1 (Nat.not_lt_zero x)⟩, fun h => absurd rfl h,
      fun _ => .inl (by dsimp only; omega)⟩
  have hsums : ∀ pre post, t.nodes = pre ++ post → (0 + (pre.map (·.srRefcnt)).sum).natAbs < 2 ^ 63 := by
    intro pre post hsplit
    have hle := natAbs_prefix_sum_le (pre.map (·.srRefcnt)) (post.map (·.srRefcnt))
      (by rw [← map_append, ← hsplit, hend])
    rw [← map_append, ← hsplit, map_map] at hle
    have hweighs := h.weighs
    rw [Int.zero_add]
    exact Nat.lt_of_mul_lt_mul_left ((hle.trans hweighs.le).trans_lt hfit)
  obtain ⟨s, p, heq, hs, hflat⟩ := hstart.run t.nodes h.sorted (fun n hn => ⟨Nat.zero_le _, h.lt n hn⟩) hsums rfl
    fun x _ => (h.changes x).symm.trans (Int.zero_add _).symm
  -- past all the nodes the changes add up to the sum of all counts
  have hzero : s.refcnt = 0 := by
    have hall : changesAt t.nodes (max p (2 ^ 64)) = (t.nodes.map (·.srRefcnt)).sum := by
      refine congrArg List.sum (map_congr_left fun n hn => if_pos ?_)
      exact (Nat.le_of_lt (h.lt n hn)).trans (Nat.le_max_right ..)
    rw [← hflat (max p (2 ^ 64)) (Nat.le_max_left ..), ← h.changes, hall, hend]
  have hclosed : s.start = noStart := by
    by_contra hopen
    have := (hs.openRange hopen).2.1
    omega
  rw [spaceReftreeGenerateMap, hvacate, ok_bind, heq, ok_bind, ASSERT_bind hzero, ASSERT_bind hclosed]
  refine ⟨s.rt, rfl, fun x => ?_⟩
  rw [hs.cover]
  refine ⟨fun hx => hx.2.2, fun hx => ⟨?_, fun hopen => absurd hclosed hopen, hx⟩⟩
  by_contra hp
  rw [hflat x (Nat.le_of_not_lt hp), hzero] at hx
  omega

end

section

lemma Separated.sum_count {l : List Seg} (h : Separated l) (x : Nat) :
    (l.map fun s => if s.lo ≤ x ∧ x < s.hi then (1 : Int) else 0).sum = if x ∈ Segs.cover l then 1 else 0 := by
  induction l with
  | nil => rfl
  | cons s l ih =>
    obtain ⟨-, hlt, h'⟩ := separated_cons.1 h
    rw [map_cons, sum_cons, ih h']
    by_cases hs : s.lo ≤ x ∧ x < s.hi
    · have hnot : x ∉ Segs.cover l := by
        rw [mem_cover]
        rintro ⟨t, ht, hx⟩
        have := hlt t ht
        omega
      rw [if_pos hs, if_neg hnot, if_pos (mem_cover.2 ⟨s, mem_cons_self, hs⟩)]
      rfl
    · have hiff : x ∈ Segs.cover (s :: l) ↔ x ∈ Segs.cover l := by
        rw [mem_cover, mem_cover]
        simp [hs]
      rw [if_neg hs, Int.zero_add]
      simp only [hiff]

/-- Range trees in 64-bit offsets, each to be added once. -/
abbrev RangeTree64 := {rt : RangeTree // ∀ s ∈ rt.rtRoot, s.hi < 2 ^ 64}

lemma refcntAt_maps (rts : List RangeTree64) (x : Nat) :
    refcntAt ((rts.map fun r => ReftreeAdd.map r.1 r.2 1).flatMap ReftreeAdd.segs) x = rts.countP fun r => x ∈ r.1.cover := by
  induction rts with
  | nil => rfl
  | cons r rts ih =>
    have hone : refcntAt (ReftreeAdd.map r.1 r.2 1).segs x = if x ∈ r.1.cover then 1 else 0 := by
      rw [RangeTree.cover, ← Separated.sum_count r.1.consistent.separated, refcntAt, ReftreeAdd.segs, map_map]
      exact congrArg List.sum (attach_map_val (f := fun s : Seg => if s.lo ≤ x ∧ x < s.hi then (1 : Int) else 0))
    rw [map_cons, flatMap_cons, refcntAt, map_append, sum_append]
    rw [refcntAt] at ih hone
    rw [ih, hone, countP_cons]
    by_cases hx : x ∈ r.1.cover
    · rw [if_pos hx, if_pos (decide_eq_true hx)]
      push_cast
      exact Int.add_comm ..
    · rw [if_neg hx, if_neg (by rw [decide_eq_true_eq]; exact hx), Int.zero_add, add_zero]

end

lemma SpaceReftree.Holds.sum_eq_zero {addr : Nat → Nat} (h : t.Holds addr segs) :
    (t.nodes.map (·.srRefcnt)).sum = 0 := by
  have hall : changesAt t.nodes (2 ^ 64) = (t.nodes.map (·.srRefcnt)).sum :=
    congrArg List.sum (map_congr_left fun n hn => if_pos (le_of_lt (h.lt n hn)))
  rw [← hall, h.changes]
  refine List.sum_eq_zero fun c hc => ?_
  obtain ⟨s, -, rfl⟩ := List.mem_map.1 hc
  have := s.hi_lt
  exact if_neg (by omega)

/-- Two counts of ten offsets that add up to `2 ^ 63`: the sum wraps around, and the map is empty. -/
theorem generate_map_overflows :
    (do let t ← spaceReftreeAdds id [.seg ⟨0, 10, 2 ^ 63 - 1, by decide, by decide⟩, .seg ⟨0, 10, 1, by decide, by decide⟩]
        let rt ← spaceReftreeGenerateMap t .create 1
        .ok rt.rtRoot) = (.ok [] : Except Fault (List Seg)) ∧
    refcntAt [⟨0, 10, 2 ^ 63 - 1, by decide, by decide⟩, ⟨0, 10, 1, by decide, by decide⟩] 5 = 2 ^ 63 := by
  decide +kernel

/-- **Reference trees compute threshold sets**, unions and intersections among them, as long as the absolute counts
add up to less than `2 ^ 63`. -/
theorem generate_map_threshold (addr : Nat → Nat) (hinj : Function.Injective addr) (adds : List ReftreeAdd) (rt : RangeTree)
    (minref : Int) (hmin : 1 ≤ minref) (hfit : refWeight (adds.flatMap ReftreeAdd.segs) < 2 ^ 63) :
    ∃ t rt', spaceReftreeAdds addr adds = .ok t ∧ spaceReftreeGenerateMap t rt minref = .ok rt' ∧
      (∀ x, x ∈ rt'.cover ↔ minref ≤ refcntAt (adds.flatMap ReftreeAdd.segs) x) ∧
      ∀ rts : List RangeTree64, adds = rts.map (fun r => .map r.1 r.2 1) →
        (minref = 1 → ∀ x, x ∈ rt'.cover ↔ ∃ r ∈ rts, x ∈ r.1.cover) ∧
        (minref = rts.length → ∀ x, x ∈ rt'.cover ↔ ∀ r ∈ rts, x ∈ r.1.cover) := by
  have hempty : SpaceReftree.Holds addr ⟨[], 0⟩ [] :=
    ⟨.nil, fun _ h => absurd h not_mem_nil, fun _ h => absurd h not_mem_nil, fun _ => rfl, rfl⟩
  have hcounts : ∀ s ∈ adds.flatMap ReftreeAdd.segs, s.refcnt.natAbs < 2 ^ 63 := fun s hs =>
    (le_sum_of_mem (mem_map_of_mem hs)).trans_lt hfit
  obtain ⟨t, heq, ht⟩ := SpaceReftree.Holds.adds hinj adds hcounts hempty
  rw [nil_append] at ht
  obtain ⟨rt', hgen, hcover⟩ := generateMap_spec ht (by omega) (SpaceReftree.Holds.sum_eq_zero ht) hmin rt
  refine ⟨t, rt', heq, hgen, hcover, ?_⟩
  rintro rts rfl
  refine ⟨fun hone x => ?_, fun hlen x => ?_⟩
  · rw [hcover, refcntAt_maps, hone]
    have hpos : (1 : Int) ≤ (rts.countP fun r => x ∈ r.1.cover) ↔ 0 < rts.countP fun r => x ∈ r.1.cover := by omega
    rw [hpos, countP_pos_iff]
    simp only [decide_eq_true_eq]
  · rw [hcover, refcntAt_maps, hlen, Int.ofNat_le]
    have hle := countP_le_length (p := fun r : RangeTree64 => x ∈ r.1.cover) (l := rts)
    have heq : rts.length ≤ (rts.countP fun r => x ∈ r.1.cover) ↔ (rts.countP fun r => x ∈ r.1.cover) = rts.length := by omega
    rw [heq, countP_eq_length]
    simp only [decide_eq_true_eq]

/-- Three segments, one of them with a negative count. -/
theorem generate_map_threshold_overlap :
    ∃ t rt', spaceReftreeAdds id [.seg ⟨0, 8, 2, by decide, by decide⟩, .seg ⟨4, 12, 1, by decide, by decide⟩,
        .seg ⟨2, 6, -1, by decide, by decide⟩] = .ok t ∧
      spaceReftreeGenerateMap t .create 2 = .ok rt' ∧ ∀ x, x ∈ rt'.cover ↔ 2 ≤ refcntAt
        [⟨0, 8, 2, by decide, by decide⟩, ⟨4, 12, 1, by decide, by decide⟩, ⟨2, 6, -1, by decide, by decide⟩] x := by
  obtain ⟨t, rt', ht, hrt, hcover, -⟩ := generate_map_threshold id Function.injective_id
    [.seg ⟨0, 8, 2, by decide, by decide⟩, .seg ⟨4, 12, 1, by decide, by decide⟩, .seg ⟨2, 6, -1, by decide, by decide⟩]
    .create 2 (by decide) (by decide)
  exact ⟨t, rt', ht, hrt, hcover⟩

end Unleashed.Zfs
