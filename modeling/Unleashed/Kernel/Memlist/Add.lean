import Unleashed.Kernel.Memlist.Spans

/-!
# Adding a span

`memlist_add_span` goes to the first element that does not end before the span. There the span is joined to one side,
bridges two elements, goes in before, or overlaps.
-/

namespace Unleashed.Kernel

open Lib Function List DMem Kernel.Span

section
variable {s : Memlists} {l1 l2 : List (Nat × Span)} {fl : List Nat} {k address bytes dst : Nat} {e : Span}

lemma insertBeforeNext_ok {y : Nat × Span} (h : Holds s (l1 ++ y :: l2) fl) (hdst : Loose s (l1 ++ y :: l2) fl dst e) :
    ∃ s', insertBeforeNext s dst (lastOr 0 l1) y.1 = .ok (.ok, s') ∧ Holds s' (l1 ++ (dst, e) :: y :: l2) fl := by
  obtain ⟨p, q, hstored⟩ := hdst.stored
  have hwrite : update (update s.mem dst (some ⟨e, p, lastOr 0 l1⟩)) dst (some ⟨e, y.1, lastOr 0 l1⟩) =
      update s.mem dst (some (⟨e, y.1, lastOr 0 l1⟩ : Memlist)) := update_idem ..
  rw [insertBeforeNext, setPrev_ok hstored, ok_bind, setNext_ok (update_self ..), ok_bind, hwrite]
  rw [← h.setPrevIf_eq]
  by_cases hl : l1 = []
  · subst hl
    rw [nil_append] at h hdst
    obtain ⟨mem, hset, hholds⟩ := Holds.splice_head h hdst
    rw [lastOr, show y.1 = headOr (y :: l2) 0 from rfl, hset, ok_bind, if_pos rfl]
    exact ⟨_, rfl, hholds⟩
  · obtain ⟨mem, mem', hset, hnext, hholds⟩ := h.splice hdst hl
    rw [show y.1 = headOr (y :: l2) 0 from rfl]
    have hne : lastOr 0 l1 ≠ 0 := fun hz => hl ((lastOr_eq_zero (linked_append.1 h.linked).1).1 hz)
    rw [hset, ok_bind, if_neg hne, hnext, ok_bind]
    exact ⟨_, rfl, hholds⟩

lemma addSpanLast_ok (h : Holds s l1 fl) (hdst : Loose s l1 fl dst e) (hl : l1 ≠ []) :
    ∃ s', addSpanLast s dst (lastOr 0 l1) = .ok (.ok, s') ∧ Holds s' (l1 ++ [(dst, e)]) fl := by
  obtain ⟨p, q, hstored⟩ := hdst.stored
  obtain ⟨mem, hset, hsame, hholds⟩ := h.spliceLast hdst hl
  have hwrite : update (update mem dst (some ⟨e, p, lastOr 0 l1⟩)) dst (some ⟨e, 0, lastOr 0 l1⟩) =
      update mem dst (some (⟨e, 0, lastOr 0 l1⟩ : Memlist)) := update_idem ..
  rw [addSpanLast, hset, ok_bind, setPrev_ok (hsame.trans hstored), ok_bind, setNext_ok (update_self ..), ok_bind, hwrite]
  exact ⟨_, rfl, hholds⟩

variable {next mlp : Nat} {n m : Span}

/-- Two elements become one: `next` goes, and `mlp` gets the joined span. -/
lemma concatenate_ok (h : Holds s (l1 ++ (next, n) :: (mlp, m) :: l2) fl) :
    ∃ s', concatenate s bytes next ⟨n, mlp, lastOr 0 l1⟩ mlp ⟨m, headOr l2 0, next⟩ = .ok (.ok, s') ∧
      Holds s' (l1 ++ (mlp, ⟨n.mlAddress, ((m.mlSize + n.mlSize) % 2 ^ 64 + bytes) % 2 ^ 64⟩) :: l2) (next :: fl) := by
  generalize hjoined : (⟨n.mlAddress, ((m.mlSize + n.mlSize) % 2 ^ 64 + bytes) % 2 ^ 64⟩ : Span) = joined
  have h' : Holds s ((l1 ++ [(next, n)]) ++ (mlp, m) :: l2) fl := by
    rw [append_assoc]
    exact h
  obtain ⟨mem, hset, hjoin, _⟩ := setPayload_element h' joined
  rw [append_assoc] at hjoin
  have hjoin' : Holds { s with mem } (l1 ++ (next, n) :: ((mlp, joined) :: l2)) fl := hjoin
  have hmlp := (Holds.load h').2
  obtain ⟨mem1, mem2, hnext, hprev, hholds, hloose, _, _⟩ := hjoin'.unlink
  obtain ⟨s', hfree, hdone, _, _⟩ := memlistFreeOne_ok hholds hloose
  rw [headOr] at hnext hprev
  rw [setPrevIf, if_pos hmlp] at hprev
  refine ⟨s', ?_, hdone⟩
  rw [concatenate]
  rw [hjoined, hset, ok_bind, hnext, ok_bind, hprev, ok_bind]
  rw [headOr] at hfree
  rw [hfree, ok_bind]

variable {a : Nat} {e' : Span}

/-- An element that grows by a span adds it to the list. -/
lemma denote_grow {b : Nat} {span : Finset Nat}
    (h : Finset.Ico e'.mlAddress e'.stop = Finset.Ico e.mlAddress e.stop ∪ span) :
    denote (l1 ++ (b, e') :: l2) = denote (l1 ++ (a, e) :: l2) ∪ span := by
  rw [denote_append, denote_append, denote_cons, denote_cons, h]
  ext v
  simp only [Finset.mem_union]
  tauto

lemma denote_insert : denote (l1 ++ (a, e) :: l2) = denote (l1 ++ l2) ∪ Finset.Ico e.mlAddress e.stop := by
  rw [denote_append, denote_append, denote_cons]
  ext v
  simp only [Finset.mem_union]
  tauto

/-- An element gets a larger span, and stays in its place. -/
lemma Ordered.grow (ho : Ordered k (l1 ++ (a, e) :: l2)) (hvalid : e'.Valid)
    (hlo : ∀ y ∈ l1, y.2.stop + k ≤ e'.mlAddress) (hhi : ∀ z ∈ l2, e'.stop + k ≤ z.2.mlAddress) : Ordered k (l1 ++ (a, e') :: l2) := by
  obtain ⟨h1, h2, _, _, _, hacross⟩ := ordered_middle.1 ho
  exact ordered_middle.2 ⟨h1, h2, hvalid, hlo, hhi, hacross⟩

/-- `add_span` succeeds if the span is free and there is a node. -/
def Addable (l : List (Nat × Span)) (fl : List Nat) (address bytes : Nat) : Prop :=
  Disjoint (denote l) (Finset.Ico address (address + bytes)) ∧ fl ≠ []

/-- The result of `add_span` from the list `l` and the free list `fl`. -/
def AddSpanTo (k : Nat) (l : List (Nat × Span)) (fl : List Nat) (address bytes : Nat) (res : Except Fault (SpanOp × Memlists)) : Prop :=
  ∃ r s' l' fl', res = .ok (r, s') ∧ Holds s' l' fl' ∧
    Outcome k l fl (Addable l fl address bytes) (denote l ∪ Finset.Ico address (address + bytes)) r l' fl'

variable {l : List (Nat × Span)}

lemma addable_of (ho : Ordered k l) (hb : 0 < bytes)
    (h : ∀ x ∈ l, x.2.stop ≤ address ∨ address + bytes ≤ x.2.mlAddress) : Addable l (dst :: fl) address bytes :=
  ⟨(disjoint_denote ho hb).2 h, cons_ne_nil _ _⟩

/-- The span is next to the end of `next`, and there is no overlap behind. -/
lemma growNext_ok (h : Holds s (l1 ++ (next, n) :: l2) (dst :: fl)) (ho : Ordered k (l1 ++ (next, n) :: l2))
    (hk : k ≤ 1) (hb : 0 < bytes) (hstop : address + bytes < 2 ^ 64) (haddr : address = n.stop)
    (hbehind : ∀ z ∈ l2, address + bytes < z.2.mlAddress) {q : Nat} :
    AddSpanTo k (l1 ++ (next, n) :: l2) (dst :: fl) address bytes (growNext s bytes next ⟨n, q, lastOr 0 l1⟩) := by
  obtain ⟨_, _, hvalid, hlo, _, _⟩ := ordered_middle.1 ho
  have hn : n.stop = n.mlAddress + n.mlSize := rfl
  have hsize : (n.mlSize + bytes) % 2 ^ 64 = n.mlSize + bytes := Nat.mod_eq_of_lt (by omega)
  have hend : (⟨n.mlAddress, n.mlSize + bytes⟩ : Span).stop = address + bytes := by
    rw [stop]
    dsimp only
    omega
  have hpos := hvalid.1
  dsimp only at hpos hlo
  obtain ⟨mem, hset, hholds, _⟩ := setPayload_element h ⟨n.mlAddress, n.mlSize + bytes⟩
  refine ⟨.ok, _, _, _, ?_, hholds, .success (ho.grow ⟨?_, ?_⟩ hlo fun z hz => ?_) ?_ (addable_of ho hb fun x hx => ?_) (denote_grow ?_)⟩
  · rw [growNext, hsize, hset, ok_bind]
  · dsimp only
    omega
  · rw [hend]
    exact hstop
  · have := hbehind z hz
    rw [hend]
    omega
  · simp
  · rcases mem_append.1 hx with hx | hx
    · have := hlo x hx
      omega
    · rcases mem_cons.1 hx with rfl | hx
      · exact .inl haddr.ge
      · exact .inr (hbehind x hx).le
  · rw [hend, haddr]
    dsimp only
    exact (Finset.Ico_union_Ico_eq_Ico (by omega) (by omega)).symm

lemma concatenate_added (h : Holds s (l1 ++ (next, n) :: (mlp, m) :: l2) (dst :: fl))
    (ho : Ordered k (l1 ++ (next, n) :: (mlp, m) :: l2)) (hb : 0 < bytes) (haddr : address = n.stop) (hjoin : address + bytes = m.mlAddress) :
    AddSpanTo k (l1 ++ (next, n) :: (mlp, m) :: l2) (dst :: fl) address bytes
      (concatenate s bytes next ⟨n, mlp, lastOr 0 l1⟩ mlp ⟨m, headOr l2 0, next⟩) := by
  obtain ⟨h1, hafter, _, hlo, _, hacross⟩ := ordered_middle.1 ho
  obtain ⟨hm, h2, hbeyond⟩ := ordered_cons.1 hafter
  have hn : n.stop = n.mlAddress + n.mlSize := rfl
  have hmstop : m.stop = m.mlAddress + m.mlSize := rfl
  have hmlt : m.stop < 2 ^ 64 := hm.2
  have hmpos : 0 < m.mlSize := hm.1
  dsimp only at hlo hbeyond
  obtain ⟨s', hcat, hholds⟩ : ∃ s', concatenate s bytes next ⟨n, mlp, lastOr 0 l1⟩ mlp ⟨m, headOr l2 0, next⟩ = .ok (.ok, s') ∧ _ := concatenate_ok h
  have hsize : ((m.mlSize + n.mlSize) % 2 ^ 64 + bytes) % 2 ^ 64 = m.mlSize + n.mlSize + bytes := by omega
  rw [hsize] at hholds
  have hend : (⟨n.mlAddress, m.mlSize + n.mlSize + bytes⟩ : Span).stop = m.stop := by
    rw [stop]
    dsimp only
    omega
  refine ⟨.ok, s', _, _, hcat, hholds, .success ?_ ?_ (addable_of ho hb fun x hx => ?_) ?_⟩
  · refine ordered_middle.2 ⟨h1, h2, ⟨?_, ?_⟩, hlo, fun z hz => ?_, fun y hy z hz => hacross y hy z (mem_cons_of_mem _ hz)⟩
    · dsimp only
      omega
    · rw [hend]
      exact hmlt
    · rw [hend]
      exact hbeyond z hz
  · refine perm_iff_count.2 fun b => ?_
    simp only [addrs_append, addrs_cons, count_append, count_cons]
    omega
  · rcases mem_append.1 hx with hx | hx
    · have := hlo x hx
      omega
    · rcases mem_cons.1 hx with rfl | hx
      · exact .inl haddr.ge
      · rcases mem_cons.1 hx with rfl | hx
        · exact .inr hjoin.le
        · have := hbeyond x hx
          exact .inr (by omega)
  · have hunion : Finset.Ico n.mlAddress m.stop =
        Finset.Ico n.mlAddress n.stop ∪ (Finset.Ico m.mlAddress m.stop ∪ Finset.Ico address (address + bytes)) := by
      ext v
      simp only [Finset.mem_union, Finset.mem_Ico]
      omega
    rw [denote_append, denote_append, denote_cons, denote_cons, denote_cons]
    rw [hend, hunion]
    ac_rfl

lemma appendToNext_ok (h : Holds s (l1 ++ (next, n) :: l2) (dst :: fl)) (ho : Ordered k (l1 ++ (next, n) :: l2))
    (hk : k ≤ 1) (hb : 0 < bytes) (hstop : address + bytes < 2 ^ 64) (haddr : address = n.stop) :
    AddSpanTo k (l1 ++ (next, n) :: l2) (dst :: fl) address bytes (appendToNext s address bytes next ⟨n, headOr l2 0, lastOr 0 l1⟩) := by
  obtain ⟨_, hafter, hvalid, hlo, hhi, _⟩ := ordered_middle.1 ho
  have hn : n.stop = n.mlAddress + n.mlSize := rfl
  have hpos := hvalid.1
  cases l2 with
  | nil =>
    rw [appendToNext, headOr, if_neg (not_not.2 rfl)]
    exact growNext_ok h ho hk hb hstop haddr (by simp)
  | cons y l2 =>
    obtain ⟨mlp, m⟩ := y
    have h' : Holds s ((l1 ++ [(next, n)]) ++ (mlp, m) :: l2) (dst :: fl) := by
      rw [append_assoc]
      exact h
    obtain ⟨hload, hne⟩ := h'.load
    rw [lastOr_append] at hload
    obtain ⟨hm, _, hbeyond⟩ := ordered_cons.1 hafter
    have hmn := hhi _ mem_cons_self
    have hmstop : m.stop = m.mlAddress + m.mlSize := rfl
    have hmpos : 0 < m.mlSize := hm.1
    dsimp only at hbeyond hmn
    rw [appendToNext, headOr, if_pos hne, hload, ok_bind, Nat.mod_eq_of_lt hstop]
    by_cases hover : address + bytes > m.mlAddress
    · rw [if_pos hover]
      refine ⟨.espan, s, _, _, rfl, h, .failure ho (.refl _) (fun hs => ?_) (by decide)⟩
      have := (disjoint_denote ho hb).1 hs.1 (mlp, m) (by simp)
      dsimp only at this
      omega
    · rw [if_neg hover]
      by_cases hjoin : address + bytes = m.mlAddress
      · rw [if_pos hjoin]
        exact concatenate_added h ho hb haddr hjoin
      · rw [if_neg hjoin]
        refine growNext_ok h ho hk hb hstop haddr fun z hz => ?_
        rcases mem_cons.1 hz with rfl | hz
        · dsimp only
          omega
        · have := hbeyond z hz
          omega

/-- The first element that does not end before the span starts. -/
lemma addSpanHere_ok (h : Holds s (l1 ++ (next, n) :: l2) fl) (ho : Ordered k (l1 ++ (next, n) :: l2))
    (hdst : Loose s (l1 ++ (next, n) :: l2) fl dst ⟨address, bytes⟩) (hk : k ≤ 1) (hb : 0 < bytes) (hstop : address + bytes < 2 ^ 64)
    (hpassed : ∀ y ∈ l1, y.2.stop < address) (hhere : address ≤ n.stop) :
    AddSpanTo k (l1 ++ (next, n) :: l2) (dst :: fl) address bytes
      (addSpanHere s address bytes dst (lastOr 0 l1) next ⟨n, headOr l2 0, lastOr 0 l1⟩) := by
  obtain ⟨_, _, hvalid, hlo, hhi, _⟩ := ordered_middle.1 ho
  have hn : n.stop = n.mlAddress + n.mlSize := rfl
  have hpos : 0 < n.mlSize := hvalid.1
  have hlt : n.stop < 2 ^ 64 := hvalid.2
  have hspan : (⟨address, bytes⟩ : Span).stop = address + bytes := rfl
  dsimp only at hlo hhi
  have hnend : n.mlEnd = n.stop := hvalid.mlEnd
  rw [addSpanHere, Nat.mod_eq_of_lt hstop]
  rw [hnend]
  by_cases hprepend : address + bytes = n.mlAddress
  · rw [if_pos hprepend]
    obtain ⟨s', hfree, hholds, _, _⟩ := memlistFreeOne_ok h hdst
    obtain ⟨mem, hset, hdone, _⟩ := setPayload_element hholds ⟨address, n.mlSize + bytes⟩
    have hsize : (n.mlSize + bytes) % 2 ^ 64 = n.mlSize + bytes := Nat.mod_eq_of_lt (by omega)
    have hend : (⟨address, n.mlSize + bytes⟩ : Span).stop = n.stop := by
      rw [stop]
      dsimp only
      omega
    refine ⟨.ok, _, _, _, ?_, hdone, .success (ho.grow ⟨?_, ?_⟩ (fun y hy => ?_) fun z hz => ?_) ?_ (addable_of ho hb fun x hx => ?_)
      (denote_grow ?_)⟩
    · rw [hfree, ok_bind, hsize, hset, ok_bind]
    · dsimp only
      omega
    · rw [hend]
      exact hlt
    · have := hpassed y hy
      dsimp only
      omega
    · rw [hend]
      exact hhi z hz
    · simp
    · rcases mem_append.1 hx with hx | hx
      · exact .inl (hpassed x hx).le
      · rcases mem_cons.1 hx with rfl | hx
        · exact .inr hprepend.le
        · have := hhi x hx
          exact .inr (by omega)
    · rw [hend, Finset.union_comm]
      dsimp only
      rw [← hprepend]
      exact (Finset.Ico_union_Ico_eq_Ico (by omega) (by omega)).symm
  · rw [if_neg hprepend]
    by_cases happend : address = n.stop
    · rw [if_pos happend]
      obtain ⟨s', hfree, hholds, _, _⟩ := memlistFreeOne_ok h hdst
      rw [hfree, ok_bind]
      exact appendToNext_ok hholds ho hk hb hstop happend
    · rw [if_neg happend]
      by_cases hover : address + bytes > n.mlAddress
      · rw [if_pos hover]
        obtain ⟨s', hfree, hholds, _, _⟩ := memlistFreeOne_ok h hdst
        rw [hfree, ok_bind]
        refine ⟨.espan, s', _, _, rfl, hholds, .failure ho (.refl _) (fun hs => ?_) (by decide)⟩
        have := (disjoint_denote ho hb).1 hs.1 (next, n) (by simp)
        dsimp only at this
        omega
      · rw [if_neg hover]
        obtain ⟨s', hinsert, hholds⟩ := insertBeforeNext_ok h hdst
        have hlater : ∀ z ∈ (next, n) :: l2, address + bytes < z.2.mlAddress := by
          intro z hz
          rcases mem_cons.1 hz with rfl | hz
          · dsimp only
            omega
          · have := hhi z hz
            omega
        refine ⟨.ok, s', _, _, hinsert, hholds, .success ?_ ?_ (addable_of ho hb fun x hx => ?_) denote_insert⟩
        · obtain ⟨h1, h2, hacross⟩ := ordered_append.1 ho
          refine ordered_middle.2 ⟨h1, h2, ⟨hb, hstop⟩, fun y hy => ?_, fun z hz => ?_, hacross⟩
          · have := hpassed y hy
            dsimp only
            omega
          · have := hlater z hz
            dsimp only
            omega
        · refine perm_iff_count.2 fun b => ?_
          simp only [addrs_append, addrs_cons, count_append, count_cons]
          omega
        · rcases mem_append.1 hx with hx | hx
          · exact .inl (hpassed x hx).le
          · exact .inr (hlater x hx).le

variable {fuel : Nat}

/-- The loop passes over the elements that end before the span starts. -/
lemma addSpanLoop_ok : ∀ {l1 l2 : List (Nat × Span)}, Holds s (l1 ++ l2) fl → Ordered k (l1 ++ l2) →
    Loose s (l1 ++ l2) fl dst ⟨address, bytes⟩ → k ≤ 1 → 0 < bytes → address + bytes < 2 ^ 64 → l1 ++ l2 ≠ [] →
    (∀ y ∈ l1, y.2.stop < address) → l2.length < fuel →
    AddSpanTo k (l1 ++ l2) (dst :: fl) address bytes (addSpanLoop s address bytes dst fuel (lastOr 0 l1) (headOr l2 0)) := by
  induction fuel with
  | zero => exact fun _ _ _ _ _ _ _ _ h => absurd h (Nat.not_lt_zero _)
  | succ fuel ih =>
    intro l1 l2 h ho hdst hk hb hstop hne hpassed hfuel
    cases l2 with
    | nil =>
      rw [append_nil] at h ho hdst hne ⊢
      obtain ⟨s', hlast, hholds⟩ := addSpanLast_ok h hdst hne
      rw [addSpanLoop, headOr, if_pos rfl]
      refine ⟨.ok, s', _, _, hlast, hholds, .success (ordered_middle.2 ⟨ho, ⟨by simp, .nil⟩, ⟨hb, hstop⟩, fun y hy => ?_, by simp, by simp⟩) ?_
        (addable_of ho hb fun x hx => .inl (hpassed x hx).le) ?_⟩
      · have := hpassed y hy
        dsimp only
        omega
      · refine perm_iff_count.2 fun b => ?_
        simp only [addrs_append, addrs_cons, addrs_nil, count_append, count_cons, count_nil]
        omega
      · rw [denote_insert, append_nil]
        rfl
    | cons y l2 =>
      obtain ⟨next, n⟩ := y
      obtain ⟨hload, hnext⟩ := h.load
      have hvalid := (ordered_middle.1 ho).2.2.1
      have hnend : n.mlEnd = n.stop := hvalid.mlEnd
      rw [addSpanLoop, headOr, if_neg hnext, hload, ok_bind]
      rw [hnend]
      by_cases hpass : address > n.stop
      · have hsplit : l1 ++ (next, n) :: l2 = (l1 ++ [(next, n)]) ++ l2 := by rw [append_assoc]; rfl
        rw [if_pos hpass]
        rw [hsplit] at h ho hdst hne ⊢
        have hprev : next = lastOr 0 (l1 ++ [(next, n)]) := by
          rw [lastOr_append]
          rfl
        have hrec := ih h ho hdst hk hb hstop hne (fun y hy => ?_) (Nat.lt_of_succ_lt_succ hfuel)
        · rwa [← hprev] at hrec
        · rcases mem_append.1 hy with hy | hy
          · exact hpassed y hy
          · obtain rfl := mem_singleton.1 hy
            exact hpass
      · rw [if_neg hpass]
        exact addSpanHere_ok h ho hdst hk hb hstop hpassed (Nat.not_lt.1 hpass)

/-- **`memlist_add_span`** on a list in order. -/
theorem memlistAddSpan_ok (h : Holds s l fl) (ho : Ordered k l) (hk : k ≤ 1) (hb : 0 < bytes)
    (hstop : address + bytes < 2 ^ 64) (hfuel : l.length < fuel) : AddSpanTo k l fl address bytes (memlistAddSpan fuel s address bytes) := by
  cases fl with
  | nil =>
    rw [memlistAddSpan, memlistGetOne_none h, ok_bind, if_pos rfl]
    exact ⟨.ealloc, s, l, [], rfl, h, .failure ho (.refl _) (fun hs => hs.2 rfl) (by decide)⟩
  | cons a fl =>
    obtain ⟨s', e, hget, hholds, hloose⟩ := memlistGetOne_some h
    obtain ⟨mem, hset, hholds, hloose⟩ := hloose.setPayload hholds ⟨address, bytes⟩
    have hhead : s'.curmemlistp = headOr l 0 := hholds.head
    rw [memlistAddSpan, hget, ok_bind, if_neg hloose.ne_zero, addSpanWith, hset, ok_bind, hhead]
    cases l with
    | nil =>
      obtain ⟨p, q, hstored⟩ := hloose.stored
      have hlinked : Holds ⟨update mem a (some ⟨⟨address, bytes⟩, 0, 0⟩), a, s'.memlistFreelist⟩ [(a, ⟨address, bytes⟩)] fl := by
        have hnil : Holds { s' with mem } ([] ++ []) fl := hholds
        exact hnil.link hloose trivial (update_self ..) trivial rfl fun b _ hb => update_of_ne hb ..
      rw [headOr, if_pos rfl, setPrev_ok hstored, ok_bind, setNext_ok (update_self ..), ok_bind, update_idem]
      refine ⟨.ok, _, _, _, rfl, hlinked, .success (ordered_cons.2 ⟨⟨hb, hstop⟩, ho, by simp⟩) (by simp)
        (addable_of ho hb (by simp)) ?_⟩
      rw [denote_cons, Finset.union_comm]
      rfl
    | cons y l =>
      have hne : headOr (y :: l) 0 ≠ 0 := h.linked.1
      rw [if_neg hne]
      have hlist : Holds { s' with mem } ([] ++ y :: l) fl := hholds
      have hloop := addSpanLoop_ok hlist ho hloose hk hb hstop (by simp) (by simp) hfuel
      rw [← hhead] at hloop ⊢
      exact hloop

end

end Unleashed.Kernel
