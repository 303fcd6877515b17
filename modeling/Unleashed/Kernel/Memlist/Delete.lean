import Unleashed.Kernel.Memlist.Spans

/-!
# Deleting a span

`memlist_delete_span` goes to the element that contains the span. It goes, is trimmed at either end, or is split.
-/

namespace Unleashed.Kernel

open Lib Function Finset List Nat Kernel.Span

section
variable {s : Memlists} {l1 l2 : List (Nat × Span)} {fl : List Nat} {k address bytes next : Nat} {n : Span}

/-- The span is inside one element, and there is a node for a split. -/
def Deletable (l : List (Nat × Span)) (fl : List Nat) (address bytes : Nat) : Prop :=
  ∃ x ∈ l, x.2.mlAddress ≤ address ∧ address + bytes ≤ x.2.stop ∧ (x.2.mlAddress < address → address + bytes < x.2.stop → fl ≠ [])

/-- The result of `delete_span` from the list `l` and the free list `fl`. -/
def DeleteSpanFrom (k : Nat) (l : List (Nat × Span)) (fl : List Nat) (address bytes : Nat) (res : Except Fault (SpanOp × Memlists)) : Prop :=
  ∃ r s' l' fl', res = .ok (r, s') ∧ Holds s' l' fl' ∧
    Outcome k l fl (Deletable l fl address bytes) (denote l \ Ico address (address + bytes)) r l' fl'

/-- The elements around one that contains a span have none of it. -/
lemma denote_around (ho : Ordered k (l1 ++ (next, n) :: l2)) (hlo : n.mlAddress ≤ address) (hhi : address + bytes ≤ n.stop) :
    denote (l1 ++ (next, n) :: l2) \ Ico address (address + bytes) =
      denote l1 ∪ ((Ico n.mlAddress address ∪ Ico (address + bytes) n.stop) ∪ denote l2) := by
  obtain ⟨_, _, _, hbefore, hafter, _⟩ := ordered_middle.1 ho
  dsimp only at hbefore hafter
  ext v
  have h1 : v ∈ denote l1 → v < address := by
    intro hv
    obtain ⟨x, hx, _, hlt⟩ := mem_denote.1 hv
    have := hbefore x hx
    omega
  have h2 : v ∈ denote l2 → address + bytes ≤ v := by
    intro hv
    obtain ⟨x, hx, hle, _⟩ := mem_denote.1 hv
    have := hafter x hx
    omega
  rw [denote_append, denote_cons]
  simp only [mem_sdiff, mem_union, mem_Ico]
  constructor
  · rintro ⟨hv | ⟨ha, hb⟩ | hv, hout⟩
    · exact .inl hv
    · exact .inr (.inl (by omega))
    · exact .inr (.inr hv)
  · rintro (hv | hv | hv)
    · have := h1 hv
      exact ⟨.inl hv, by omega⟩
    · exact ⟨.inr (.inl (by omega)), by omega⟩
    · have := h2 hv
      exact ⟨.inr (.inr hv), by omega⟩

/-- In order, only the element with the first address can have the span. -/
lemma deletable_iff (ho : Ordered k (l1 ++ (next, n) :: l2)) (hb : 0 < bytes) (hlo : n.mlAddress ≤ address) (hin : address < n.stop) :
    Deletable (l1 ++ (next, n) :: l2) fl address bytes ↔
      address + bytes ≤ n.stop ∧ (n.mlAddress < address → address + bytes < n.stop → fl ≠ []) := by
  obtain ⟨_, _, _, hbefore, hafter, _⟩ := ordered_middle.1 ho
  dsimp only at hbefore hafter
  constructor
  · rintro ⟨x, hx, hxlo, hxhi, hsplit⟩
    rcases mem_append.1 hx with hx | hx
    · have := hbefore x hx
      omega
    · rcases mem_cons.1 hx with rfl | hx
      · exact ⟨hxhi, hsplit⟩
      · have := hafter x hx
        omega
  · rintro ⟨hhi, hsplit⟩
    exact ⟨(next, n), by simp, hlo, hhi, hsplit⟩

variable {e : Span}

lemma Ordered.shrink (ho : Ordered k (l1 ++ (next, n) :: l2)) (hpos : 0 < e.mlSize) (hlo : n.mlAddress ≤ e.mlAddress)
    (hhi : e.stop ≤ n.stop) : Ordered k (l1 ++ (next, e) :: l2) := by
  obtain ⟨h1, h2, hvalid, hbefore, hafter, hacross⟩ := ordered_middle.1 ho
  have hlt : n.stop < 2 ^ 64 := hvalid.2
  dsimp only at hbefore hafter
  refine ordered_middle.2 ⟨h1, h2, ⟨hpos, by dsimp only; omega⟩, fun y hy => ?_, fun z hz => ?_, hacross⟩
  · have := hbefore y hy
    dsimp only
    omega
  · have := hafter z hz
    dsimp only
    omega

lemma Ordered.erase (ho : Ordered k (l1 ++ (next, n) :: l2)) : Ordered k (l1 ++ l2) := by
  obtain ⟨h1, h2, _, _, _, hacross⟩ := ordered_middle.1 ho
  exact ordered_append.2 ⟨h1, h2, hacross⟩

/-- A span given by where it starts and stops. -/
lemma stop_of_le {lo hi : Nat} (h : lo ≤ hi) : (⟨lo, hi - lo⟩ : Span).stop = hi := by
  rw [stop]
  dsimp only
  omega

/-- An element that loses a span from its middle is two elements. -/
lemma Ordered.split {dst : Nat} (ho : Ordered k (l1 ++ (next, n) :: l2)) (hk : k ≤ 1) (hb : 0 < bytes)
    (hbefore : n.mlAddress < address) (hafter : address + bytes < n.stop) :
    Ordered k (l1 ++ (next, ⟨n.mlAddress, address - n.mlAddress⟩) :: (dst, ⟨address + bytes, n.stop - (address + bytes)⟩) :: l2) := by
  obtain ⟨h1, h2, ⟨_, hlt⟩, hleft, hright, hacross⟩ := ordered_middle.1 ho
  dsimp only at hlt hleft hright
  have hend1 := stop_of_le hbefore.le
  have hend2 := stop_of_le hafter.le
  have hlater : ∀ z ∈ l2, address + bytes ≤ z.2.mlAddress := fun z hz => by
    have := hright z hz
    omega
  refine ordered_middle.2 ⟨h1, ordered_cons.2 ⟨⟨?_, ?_⟩, h2, fun z hz => ?_⟩, ⟨?_, ?_⟩, hleft, fun z hz => ?_, fun y hy z hz => ?_⟩
  · dsimp only
    omega
  · rw [hend2]
    exact hlt
  · rw [hend2]
    exact hright z hz
  · dsimp only
    omega
  · rw [hend1]
    omega
  · dsimp only
    rw [hend1]
    rcases mem_cons.1 hz with rfl | hz
    · dsimp only
      omega
    · have := hlater z hz
      omega
  · have := hleft y hy
    rcases mem_cons.1 hz with rfl | hz
    · dsimp only
      omega
    · exact hacross y hy z hz

section
variable (h : Holds s (l1 ++ (next, n) :: l2) fl)
include h

lemma deleteElement_ok :
    ∃ s', deleteElement s next ⟨n, headOr l2 0, lastOr 0 l1⟩ = .ok (.ok, s') ∧ Holds s' (l1 ++ l2) (next :: fl) := by
  obtain ⟨mem1, mem2, hnext, hprev, hholds, hloose, _, _⟩ := h.unlink
  obtain ⟨s', hfree, hdone, _, _⟩ := memlistFreeOne_ok hholds hloose
  refine ⟨s', ?_, hdone⟩
  rw [deleteElement]
  rw [hnext, ok_bind, hprev, ok_bind, hfree, ok_bind]

/-- The element keeps the part before the span, the new node that after it. -/
lemma splitElement_ok {dst : Nat} (hdst : Loose s (l1 ++ (next, n) :: l2) fl dst e) :
    ∃ s', splitElement s address bytes next ⟨n, headOr l2 0, lastOr 0 l1⟩ dst = .ok (.ok, s') ∧
      Holds s' (l1 ++ (next, ⟨n.mlAddress, (address + 2 ^ 64 - n.mlAddress) % 2 ^ 64⟩) ::
        (dst, ⟨(address + bytes) % 2 ^ 64, (n.mlEnd + 2 ^ 64 - (address + bytes) % 2 ^ 64) % 2 ^ 64⟩) :: l2) fl := by
  generalize hfirst : (⟨n.mlAddress, (address + 2 ^ 64 - n.mlAddress) % 2 ^ 64⟩ : Span) = first
  generalize hsecond : (⟨(address + bytes) % 2 ^ 64, (n.mlEnd + 2 ^ 64 - (address + bytes) % 2 ^ 64) % 2 ^ 64⟩ : Span) = second
  obtain ⟨mem1, hset1, hholds1, hloose1⟩ := hdst.setPayload h second
  obtain ⟨mem2, hset2, hholds2, hframe2⟩ := setPayload_element hholds1 first
  obtain ⟨p, q, hstored⟩ := hloose1.stored
  have hdstNext : dst ≠ next := fun he => hdst.notMem (by simp [he])
  have hstored2 : mem2 dst = some ⟨second, p, q⟩ := (hframe2 dst hdstNext).trans hstored
  -- the list with the element in front counted among what comes before
  have hsplit : l1 ++ (next, first) :: l2 = (l1 ++ [(next, first)]) ++ l2 := by rw [append_assoc]; rfl
  have hlast : lastOr 0 (l1 ++ [(next, first)]) = next := by
    rw [lastOr_append]
    rfl
  have hnotMem := hdst.notMem
  have hloose2 : Loose { s with mem := mem2 } ((l1 ++ [(next, first)]) ++ l2) fl dst second :=
    ⟨hdst.ne_zero, ⟨p, q, hstored2⟩, by simpa using hnotMem, hdst.notFree⟩
  rw [hsplit] at hholds2
  obtain ⟨mem3, mem4, hprev, hnext, hdone⟩ := hholds2.splice hloose2 (by simp)
  rw [hlast] at hprev hnext
  have hwrite : update (update mem2 dst (some ⟨second, headOr l2 0, q⟩)) dst (some ⟨second, headOr l2 0, next⟩) =
      update mem2 dst (some (⟨second, headOr l2 0, next⟩ : Memlist)) := update_idem ..
  rw [append_assoc] at hdone
  refine ⟨_, ?_, hdone⟩
  rw [splitElement]
  rw [hsecond, hset1, ok_bind, hfirst, hset2, ok_bind, DMem.setNext_ok hstored2, ok_bind, DMem.setPrev_ok (update_self ..), ok_bind, hwrite,
    hprev, ok_bind, hnext, ok_bind]

section
variable (ho : Ordered k (l1 ++ (next, n) :: l2)) (hb : 0 < bytes) (hstop : address + bytes < 2 ^ 64) (hhi : address + bytes ≤ n.stop)
include ho hb hstop hhi

/-- The span is at the start of the element. -/
lemma deleteSpanHere_start (hstart : address = n.mlAddress) :
    DeleteSpanFrom k (l1 ++ (next, n) :: l2) fl address bytes (deleteSpanHere s address bytes next ⟨n, headOr l2 0, lastOr 0 l1⟩) := by
  have hvalid := (ordered_middle.1 ho).2.2.1
  have hn : n.stop = n.mlAddress + n.mlSize := rfl
  have hlt : n.stop < 2 ^ 64 := hvalid.2
  have hdel : Deletable (l1 ++ (next, n) :: l2) fl address bytes :=
    (deletable_iff ho hb hstart.ge (by omega)).2 ⟨hhi, fun hlt' => absurd hlt' (by omega)⟩
  have haround := denote_around ho hstart.ge hhi
  rw [deleteSpanHere, mod_eq_of_lt hstop]
  rw [hvalid.mlEnd, if_neg (not_lt.2 hhi), if_pos hstart]
  by_cases hall : bytes = n.mlSize
  · rw [if_pos hall]
    obtain ⟨s', hdone, hholds⟩ := deleteElement_ok h
    refine ⟨.ok, s', _, _, hdone, hholds, .success ho.erase ?_ hdel ?_⟩
    · refine perm_iff_count.2 fun b => ?_
      simp only [addrs_append, addrs_cons, count_append, count_cons]
      omega
    · rw [haround, denote_append, Ico_eq_empty (by omega), Ico_eq_empty (by omega), empty_union, empty_union]
  · rw [if_neg hall]
    have haddr : (n.mlAddress + bytes) % 2 ^ 64 = address + bytes := by omega
    have hsize : (n.mlSize + 2 ^ 64 - bytes) % 2 ^ 64 = n.mlSize - bytes := by omega
    obtain ⟨mem, hset, hholds, _⟩ := setPayload_element h ⟨address + bytes, n.mlSize - bytes⟩
    have hend : (⟨address + bytes, n.mlSize - bytes⟩ : Span).stop = n.stop := by
      rw [stop]
      dsimp only
      omega
    rw [haddr, hsize, hset, ok_bind]
    refine ⟨.ok, _, _, _, rfl, hholds, .success (ho.shrink ?_ ?_ hend.le) (by simp) hdel ?_⟩
    · dsimp only
      omega
    · dsimp only
      omega
    · rw [haround, denote_append, denote_cons, Ico_eq_empty (show ¬n.mlAddress < address by omega), empty_union]
      dsimp only
      rw [hend]

variable (hbefore : n.mlAddress < address)
include hbefore

/-- The span is at the end of the element, and not all of it. -/
lemma deleteSpanHere_finish (hfinish : address + bytes = n.stop) :
    DeleteSpanFrom k (l1 ++ (next, n) :: l2) fl address bytes (deleteSpanHere s address bytes next ⟨n, headOr l2 0, lastOr 0 l1⟩) := by
  have hvalid := (ordered_middle.1 ho).2.2.1
  have hn : n.stop = n.mlAddress + n.mlSize := rfl
  have hlt : n.stop < 2 ^ 64 := hvalid.2
  have hdel : Deletable (l1 ++ (next, n) :: l2) fl address bytes :=
    (deletable_iff ho hb hbefore.le (by omega)).2 ⟨hhi, fun _ hlt' => absurd hlt' (by omega)⟩
  have hsize : (n.mlSize + 2 ^ 64 - bytes) % 2 ^ 64 = n.mlSize - bytes := by omega
  obtain ⟨mem, hset, hholds, _⟩ := setPayload_element h ⟨n.mlAddress, n.mlSize - bytes⟩
  have hend : (⟨n.mlAddress, n.mlSize - bytes⟩ : Span).stop = address := by
    rw [stop]
    dsimp only
    omega
  rw [deleteSpanHere, mod_eq_of_lt hstop]
  rw [hvalid.mlEnd, if_neg (not_lt.2 hhi), if_neg hbefore.ne', if_pos hfinish, hsize, hset, ok_bind]
  refine ⟨.ok, _, _, _, rfl, hholds, .success (ho.shrink ?_ (le_refl _) (by omega)) (by simp) hdel ?_⟩
  · dsimp only
    omega
  · rw [denote_around ho hbefore.le hhi, denote_append, denote_cons,
      Ico_eq_empty (show ¬address + bytes < n.stop by omega), union_empty]
    dsimp only
    rw [hend]

/-- The span has some of the element on both sides, so a node is needed. -/
lemma deleteSpanHere_middle (hk : k ≤ 1) (hafter : address + bytes < n.stop) :
    DeleteSpanFrom k (l1 ++ (next, n) :: l2) fl address bytes (deleteSpanHere s address bytes next ⟨n, headOr l2 0, lastOr 0 l1⟩) := by
  have hvalid := (ordered_middle.1 ho).2.2.1
  have hnend : n.mlEnd = n.stop := hvalid.mlEnd
  have hlt : n.stop < 2 ^ 64 := hvalid.2
  have hiff : Deletable (l1 ++ (next, n) :: l2) fl address bytes ↔ _ := deletable_iff ho hb hbefore.le (by omega)
  rw [deleteSpanHere, mod_eq_of_lt hstop]
  rw [hnend, if_neg (not_lt.2 hhi), if_neg hbefore.ne', if_neg hafter.ne]
  cases fl with
  | nil =>
    rw [memlistGetOne_none h, ok_bind, if_pos rfl]
    exact ⟨.ealloc, s, _, _, rfl, h, .failure ho (.refl _) (fun hd => (hiff.1 hd).2 hbefore hafter rfl) (by decide)⟩
  | cons dst fl =>
    obtain ⟨s', e, hget, hholds, hloose⟩ := memlistGetOne_some h
    obtain ⟨s'', hsplit, hdone⟩ : ∃ s'', splitElement s' address bytes next ⟨n, headOr l2 0, lastOr 0 l1⟩ dst = .ok (.ok, s'') ∧ _ :=
      splitElement_ok hholds hloose
    have hfirst : (address + 2 ^ 64 - n.mlAddress) % 2 ^ 64 = address - n.mlAddress := by omega
    have hsecond : (n.mlEnd + 2 ^ 64 - (address + bytes) % 2 ^ 64) % 2 ^ 64 = n.stop - (address + bytes) := by omega
    rw [hfirst, hsecond, mod_eq_of_lt hstop] at hdone
    rw [hget, ok_bind, if_neg hloose.ne_zero]
    refine ⟨.ok, s'', _, _, hsplit, hdone, .success (ho.split hk hb hbefore hafter) ?_
      (hiff.2 ⟨hhi, fun _ _ => cons_ne_nil _ _⟩) ?_⟩
    · refine perm_iff_count.2 fun b => ?_
      simp only [addrs_append, addrs_cons, count_append, count_cons]
      omega
    · rw [denote_around ho hbefore.le hhi, denote_append, denote_cons, denote_cons, stop_of_le hbefore.le, stop_of_le hafter.le,
        union_assoc]

end

lemma deleteSpanHere_ok (ho : Ordered k (l1 ++ (next, n) :: l2)) (hk : k ≤ 1) (hb : 0 < bytes)
    (hstop : address + bytes < 2 ^ 64) (hlo : n.mlAddress ≤ address) (hin : address < n.stop) :
    DeleteSpanFrom k (l1 ++ (next, n) :: l2) fl address bytes (deleteSpanHere s address bytes next ⟨n, headOr l2 0, lastOr 0 l1⟩) := by
  rcases Nat.lt_or_ge n.stop (address + bytes) with hover | hhi
  · rw [deleteSpanHere, mod_eq_of_lt hstop]
    rw [(ordered_middle.1 ho).2.2.1.mlEnd, if_pos hover]
    exact ⟨.espan, s, _, _, rfl, h, .failure ho (.refl _) (fun hd => by
      have := ((deletable_iff ho hb hlo hin).1 hd).1
      omega) (by decide)⟩
  -- what is left of the element decides
  rcases hlo.eq_or_lt with hstart | hbefore
  · exact deleteSpanHere_start h ho hb hstop hhi hstart.symm
  rcases hhi.eq_or_lt with hfinish | hafter
  · exact deleteSpanHere_finish h ho hb hstop hhi hbefore hfinish
  · exact deleteSpanHere_middle h ho hb hstop hhi hbefore hk hafter

end

variable {fuel : Nat}

/-- What the loop finds among the elements that are left. -/
lemma deleteSpanFind_ok : ∀ {l1 l2 : List (Nat × Span)}, Holds s (l1 ++ l2) fl → (∀ x ∈ l2, x.2.Valid) → l2.length < fuel →
    (deleteSpanFind s.mem address fuel (headOr l2 0) = .ok none ∧ ∀ x ∈ l2, ¬(x.2.mlAddress ≤ address ∧ address < x.2.stop)) ∨
    ∃ a next n b, l2 = a ++ (next, n) :: b ∧ n.mlAddress ≤ address ∧ address < n.stop ∧
      deleteSpanFind s.mem address fuel (headOr l2 0) = .ok (some (next, ⟨n, headOr b 0, lastOr 0 (l1 ++ a)⟩)) := by
  induction fuel with
  | zero => exact fun _ _ h => absurd h (not_lt_zero _)
  | succ fuel ih =>
    intro l1 l2 h hvalid hfuel
    cases l2 with
    | nil => exact .inl ⟨by rw [deleteSpanFind, headOr, if_pos rfl], by simp⟩
    | cons y l2 =>
      obtain ⟨next, n⟩ := y
      obtain ⟨hload, hne⟩ := h.load
      have hnend : n.mlEnd = n.stop := (hvalid _ mem_cons_self).mlEnd
      rw [deleteSpanFind, headOr, if_neg hne, hload, ok_bind]
      rw [hnend]
      by_cases hhere : address ≥ n.mlAddress ∧ address < n.stop
      · rw [if_pos hhere]
        exact .inr ⟨[], next, n, l2, rfl, hhere.1, hhere.2, by rw [append_nil]⟩
      · rw [if_neg hhere]
        have hsplit : l1 ++ (next, n) :: l2 = (l1 ++ [(next, n)]) ++ l2 := by rw [append_assoc]; rfl
        rw [hsplit] at h
        rcases ih h (fun x hx => hvalid x (mem_cons_of_mem _ hx)) (lt_of_succ_lt_succ hfuel) with ⟨hnone, hout⟩ | ⟨a, next', n', b, hb, hin⟩
        · exact .inl ⟨hnone, forall_mem_cons.2 ⟨hhere, hout⟩⟩
        · rw [append_assoc] at hin
          exact .inr ⟨(next, n) :: a, next', n', b, by rw [hb]; rfl, hin⟩

/-- **`memlist_delete_span`** on a list in order. -/
theorem memlistDeleteSpan_ok {l : List (Nat × Span)} (h : Holds s l fl) (ho : Ordered k l) (hk : k ≤ 1) (hb : 0 < bytes)
    (hstop : address + bytes < 2 ^ 64) (hfuel : l.length < fuel) :
    DeleteSpanFrom k l fl address bytes (memlistDeleteSpan fuel s address bytes) := by
  have h' : Holds s ([] ++ l) fl := h
  rw [memlistDeleteSpan, h.head]
  have hfound : (deleteSpanFind s.mem address fuel (headOr l 0) = .ok none ∧ _) ∨ _ := deleteSpanFind_ok h' ho.valid hfuel
  rcases hfound with ⟨hnone, hout⟩ | ⟨a, next, n, b, rfl, hlo, hin, hfind⟩
  · rw [hnone, ok_bind]
    refine ⟨.espan, s, l, fl, rfl, h, .failure ho (.refl _) ?_ (by decide)⟩
    rintro ⟨x, hx, hlo, hhi, _⟩
    exact hout x hx ⟨hlo, by omega⟩
  · rw [hfind, ok_bind]
    exact deleteSpanHere_ok h ho hk hb hstop hlo hin

end

end Unleashed.Kernel
