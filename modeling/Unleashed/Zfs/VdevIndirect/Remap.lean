import Unleashed.Zfs.VdevIndirect.Mapping

/-!
# `vdev_indirect_remap`

An extent of a removed vdev can be split over several destinations, which can be on removed vdevs themselves. The
remap follows the mappings with a stack of segments.
-/

namespace Unleashed.Zfs

open Lib Relation List

/-- A top-level vdev. -/
structure TopVdev where
  /-- `vdev_ops == &vdev_indirect_ops`. -/
  indirectOps : Bool
  vdevIndirectMapping : Option SortedMapping

/-- The top-level vdevs of a pool. Not all of an entry is obsolete, and its destination lies in its vdev. -/
structure SpaVdevs where
  vdevChild : List TopVdev
  entries_ok : ∀ v ∈ vdevChild, ∀ vim, v.vdevIndirectMapping = some vim →
    ∀ e ∈ vim.vimEntries, 0 < e.asize ∧ e.dstOffset + e.asize ≤ 2 ^ 64

def vdevLookupTop (spa : SpaVdevs) (vdev : Nat) : Option TopVdev :=
  spa.vdevChild[vdev]?

/-- `remap_segment_t`. -/
structure RemapSegment where
  (rsVd rsOffset rsAsize rsSplitOffset : Nat)
deriving DecidableEq, Repr

/-- The arguments of a call of `func`. -/
structure RemapCall where
  (splitOffset vd offset size : Nat)
deriving DecidableEq, Repr

/-- The `while` loop of `vdev_indirect_mapping_duplicate_adjacent_entries`, from the entry `m` on.
It counts the entries of the extent. -/
def adjacentEntries : List VimEntry → Nat → Nat → Except Fault Nat
  | _, _, 0 => .ok 0
  | [], _, _ + 1 => .error .bounds
  | m :: ms, offset, asize + 1 => do
    ASSERT (offset ≥ m.srcOffset)
    ASSERT (offset < m.srcOffset + m.asize)
    let innerOffset := offset - m.srcOffset
    let innerSize := min (asize + 1) (m.asize - innerOffset)
    let entries ← adjacentEntries ms (offset + innerSize) (asize + 1 - innerSize)
    .ok (entries + 1)

def vdevIndirectMappingDuplicateAdjacentEntries (vim : VdevIndirectMapping) (offset asize : Nat) : Except Fault (List VimEntry) := do
  let firstMapping ← vdevIndirectMappingEntryForOffset vim offset
  match firstMapping with
  | none => .error .assert
  | some i => do
    let entries ← adjacentEntries (vim.vimEntries.drop i) offset asize
    .ok ((vim.vimEntries.drop i).take entries)

/-- The calls for one piece. `ZFS_DEBUG_INDIRECT_REMAP` splits it in two. -/
def remapCalls (debugIndirectRemap : Bool) (splitOffset dstV dstOffset innerSize : Nat) : List RemapCall :=
  if debugIndirectRemap ∧ innerSize % 1024 = 0 then
    [⟨splitOffset + innerSize / 2, dstV, dstOffset + innerSize / 2, innerSize / 2⟩, ⟨splitOffset, dstV, dstOffset, innerSize / 2⟩]
  else [⟨splitOffset, dstV, dstOffset, innerSize⟩]

/-- The `for` loop over the copied entries, with stack and calls. -/
def remapEntries (spa : SpaVdevs) (debugIndirectRemap : Bool) :
    List VimEntry → RemapSegment → List RemapSegment → List RemapCall → Except Fault (RemapSegment × List RemapSegment × List RemapCall)
  | [], rs, stack, calls => .ok (rs, stack, calls)
  | m :: ms, rs, stack, calls => do
    ASSERT (rs.rsAsize > 0)
    ASSERT (rs.rsOffset ≥ m.srcOffset)
    ASSERT (rs.rsOffset < m.srcOffset + m.asize)
    ASSERT (m.dstVdev ≠ rs.rsVd)
    let innerOffset := rs.rsOffset - m.srcOffset
    let innerSize := min rs.rsAsize (m.asize - innerOffset)
    let dstOffset := (m.dstOffset + innerOffset) % 2 ^ 64
    match vdevLookupTop spa m.dstVdev with
    | none => .error .assert
    | some dstV =>
      let stack := if dstV.indirectOps then ⟨m.dstVdev, dstOffset, innerSize, rs.rsSplitOffset⟩ :: stack else stack
      let calls := calls ++ remapCalls debugIndirectRemap rs.rsSplitOffset m.dstVdev dstOffset innerSize
      remapEntries spa debugIndirectRemap ms
        ⟨rs.rsVd, rs.rsOffset + innerSize, rs.rsAsize - innerSize, rs.rsSplitOffset + innerSize⟩ stack calls

/-- `v->vdev_indirect_mapping`, asserted to be there. -/
def vdevMapping (spa : SpaVdevs) (vd : Nat) : Except Fault SortedMapping :=
  match vdevLookupTop spa vd with
  | none => .error .assert
  | some v =>
    match v.vdevIndirectMapping with
    | none => .error .assert
    | some vim => .ok vim

/-- The body of the loop for the segment `rs`. -/
def remapSegment (spa : SpaVdevs) (debugIndirectRemap : Bool) (rs : RemapSegment) (stack : List RemapSegment) (calls : List RemapCall) :
    Except Fault (List RemapSegment × List RemapCall) := do
  ASSERT (rs.rsAsize > 0)
  let vim ← vdevMapping spa rs.rsVd
  let mapping ← vdevIndirectMappingDuplicateAdjacentEntries vim.toVdevIndirectMapping rs.rsOffset rs.rsAsize
  ASSERT (mapping.length > 0)
  let r ← remapEntries spa debugIndirectRemap mapping rs stack calls
  VERIFY (r.1.rsAsize = 0)
  .ok r.2

/-- The loop over the stack. The segment at work is the head. -/
def remapLoop (spa : SpaVdevs) (debugIndirectRemap : Bool) : Nat → List RemapSegment → List RemapCall → Except Fault (List RemapCall)
  | 0, _, _ => .error .fuel
  | _ + 1, [], calls => .ok calls
  | fuel + 1, rs :: stack, calls => do
    let r ← remapSegment spa debugIndirectRemap rs stack calls
    remapLoop spa debugIndirectRemap fuel r.1 r.2

/-- The calls in order. -/
def vdevIndirectRemap (spa : SpaVdevs) (debugIndirectRemap : Bool) (fuel vd offset asize : Nat) : Except Fault (List RemapCall) :=
  remapLoop spa debugIndirectRemap fuel [⟨vd, offset, asize, 0⟩] []

section
variable (spa : SpaVdevs)

/-- An entry of the mapping of `v`. -/
def SpaVdevs.HasEntry (v : Nat) (e : VimEntry) : Prop :=
  ∃ vim, vdevMapping spa v = .ok vim ∧ e ∈ vim.vimEntries

/-- `v` has an entry with a destination on `w`. -/
def SpaVdevs.Leads (v w : Nat) : Prop :=
  ∃ e, spa.HasEntry v e ∧ e.dstVdev = w

/-- No vdev can lead back to itself. -/
def SpaVdevs.Acyclic : Prop :=
  ∀ v, ¬ TransGen spa.Leads v v

def SpaVdevs.concrete (v : Nat) : Bool :=
  match vdevLookupTop spa v with
  | none => false
  | some d => !d.indirectOps

def SpaVdevs.indirect (v : Nat) : Bool :=
  match vdevLookupTop spa v with
  | none => false
  | some d => d.indirectOps

/-- The byte `x` of the vdev `v` is the byte `y` of the concrete vdev `w`. -/
inductive SpaVdevs.Follows : Nat → Nat → Nat → Nat → Prop
  | last {v x : Nat} {e : VimEntry} (he : spa.HasEntry v e) (hx : e.Maps x) (hc : spa.concrete e.dstVdev) :
      Follows v x e.dstVdev (e.dstOffset + (x - e.srcOffset))
  | next {v x w y : Nat} {e : VimEntry} (he : spa.HasEntry v e) (hx : e.Maps x) (hi : spa.indirect e.dstVdev)
      (h : Follows e.dstVdev (e.dstOffset + (x - e.srcOffset)) w y) : Follows v x w y

/-- The pieces on concrete vdevs. -/
def SpaVdevs.concreteCalls (calls : List RemapCall) : List RemapCall :=
  calls.filter fun c => spa.concrete c.vd

/-- The call has the byte `j` of the extent. -/
def RemapCall.Has (c : RemapCall) (j : Nat) : Prop :=
  c.splitOffset ≤ j ∧ j < c.splitOffset + c.size

instance (c : RemapCall) (j : Nat) : Decidable (c.Has j) :=
  inferInstanceAs (Decidable (_ ∧ _))

/-- The calls have each byte once, where the mappings put it. -/
structure SpaVdevs.Tiles (rs : RemapSegment) (calls : List RemapCall) : Prop where
  once : ∀ j, (spa.concreteCalls calls).countP (fun c => c.Has j) =
    if rs.rsSplitOffset ≤ j ∧ j < rs.rsSplitOffset + rs.rsAsize then 1 else 0
  follows : ∀ c ∈ spa.concreteCalls calls, ∀ j, c.Has j →
    spa.Follows rs.rsVd (rs.rsOffset + (j - rs.rsSplitOffset)) c.vd (c.offset + (j - c.splitOffset))

/-- Every byte of the segment has a place on a concrete vdev. -/
def SpaVdevs.Covers (rs : RemapSegment) : Prop :=
  ∀ j < rs.rsAsize, ∃ w y, spa.Follows rs.rsVd (rs.rsOffset + j) w y

end

/-- A relation without cycles that leaves only finitely many points is well founded. -/
lemma wellFounded_of_acyclic {α : Type} {r : α → α → Prop} {s : Set α} (hs : s.Finite) (hmem : ∀ a b, r a b → a ∈ s)
    (hac : ∀ a, ¬ TransGen r a a) : WellFounded fun b a => r a b := by
  have : IsStrictOrder α fun b a => TransGen r a b :=
    { irrefl := hac, trans := fun a b c hab hbc => hbc.trans hab }
  have hacc : ∀ x ∈ s, Acc (fun b a => r a b) x := by
    intro x hx
    refine (hs.wellFoundedOn (r := fun b a => TransGen r a b)).induction hx fun y _ ih => ⟨y, fun z hz => ?_⟩
    by_cases hzs : z ∈ s
    · exact ih z hzs (.single hz)
    · exact ⟨z, fun w hw => absurd (hmem z w hw) hzs⟩
  refine ⟨fun x => ⟨x, fun z hz => ?_⟩⟩
  by_cases hzs : z ∈ s
  · exact hacc z hzs
  · exact ⟨z, fun w hw => absurd (hmem z w hw) hzs⟩

variable {v x w y : Nat} {e : VimEntry}

section
variable {spa : SpaVdevs} {rs : RemapSegment} {calls calls' : List RemapCall}

lemma SpaVdevs.HasEntry.lt_length (h : spa.HasEntry v e) : v < spa.vdevChild.length := by
  obtain ⟨vim, h, -⟩ := h
  by_contra hlt
  rw [vdevMapping, vdevLookupTop, List.getElem?_eq_none (by omega)] at h
  cases h

lemma SpaVdevs.HasEntry.ok (h : spa.HasEntry v e) : 0 < e.asize ∧ e.dstOffset + e.asize ≤ 2 ^ 64 := by
  obtain ⟨vim, h, he⟩ := h
  rw [vdevMapping] at h
  split at h
  · cases h
  · rename_i d hd
    split at h
    · cases h
    · rename_i vim' hvim
      cases h
      exact spa.entries_ok d (mem_of_getElem? hd) vim hvim e he

lemma SpaVdevs.Acyclic.wellFounded (h : spa.Acyclic) : WellFounded fun w v => spa.Leads v w :=
  wellFounded_of_acyclic (s := {v | v < spa.vdevChild.length}) (Set.finite_lt_nat _) (fun _ _ ⟨_, he, _⟩ => he.lt_length) h

lemma SpaVdevs.HasEntry.unique {f : VimEntry} (he : spa.HasEntry v e) (hf : spa.HasEntry v f) (hex : e.Maps x)
    (hfx : f.Maps x) : f = e := by
  obtain ⟨vim, h, he⟩ := he
  obtain ⟨vim', h', hf⟩ := hf
  rw [h] at h'
  cases h'
  obtain ⟨i, hi⟩ := mem_iff_getElem?.1 he
  obtain ⟨j, hj⟩ := mem_iff_getElem?.1 hf
  obtain rfl := vim.index_unique hi hj hex hfx
  rw [hi] at hj
  cases hj
  rfl

lemma SpaVdevs.Follows.hasEntry (h : spa.Follows v x w y) : ∃ e, spa.HasEntry v e ∧ e.Maps x := by
  cases h with
  | last he hx _ => exact ⟨_, he, hx⟩
  | next he hx _ _ => exact ⟨_, he, hx⟩

lemma SpaVdevs.concreteCalls_append : spa.concreteCalls (calls ++ calls') = spa.concreteCalls calls ++ spa.concreteCalls calls' :=
  filter_append ..

lemma SpaVdevs.Tiles.perm (h : spa.Tiles rs calls) (hp : calls.Perm calls') : spa.Tiles rs calls' := by
  have hp' : (spa.concreteCalls calls).Perm (spa.concreteCalls calls') := hp.filter _
  exact ⟨fun j => (hp'.countP_eq _).symm.trans (h.once j), fun c hc => h.follows c (hp'.mem_iff.2 hc)⟩

/-- A call for a byte means that the byte is one of the segment. -/
lemma SpaVdevs.Tiles.range (h : spa.Tiles rs calls) {c : RemapCall}
    (hc : c ∈ spa.concreteCalls calls) {j : Nat} (hj : c.Has j) :
    rs.rsSplitOffset ≤ j ∧ j < rs.rsSplitOffset + rs.rsAsize := by
  have hone : 0 < (spa.concreteCalls calls).countP (fun c => c.Has j) :=
    countP_pos_iff.2 ⟨c, hc, decide_eq_true hj⟩
  rw [h.once] at hone
  by_contra hout
  rw [if_neg hout] at hone
  exact absurd hone (lt_irrefl 0)

variable {vd split n : Nat}

lemma SpaVdevs.Tiles.append {offset asize : Nat} (hn : n ≤ asize) (h : spa.Tiles ⟨vd, offset, n, split⟩ calls)
    (h' : spa.Tiles ⟨vd, offset + n, asize - n, split + n⟩ calls') : spa.Tiles ⟨vd, offset, asize, split⟩ (calls ++ calls') := by
  constructor
  · intro j
    rw [concreteCalls_append, countP_append, h.once, h'.once]
    dsimp only
    split <;> split <;> split <;> omega
  · intro c hc j hj
    rw [concreteCalls_append, mem_append] at hc
    rcases hc with hc | hc
    · exact h.follows c hc j hj
    · -- a call of the second segment has bytes of that segment only
      have hrange : split + n ≤ j := (h'.range hc hj).1
      have := h'.follows c hc j hj
      rwa [show offset + n + (j - (split + n)) = offset + (j - split) by omega] at this

lemma SpaVdevs.Tiles.nil {offset : Nat} : spa.Tiles ⟨vd, offset, 0, split⟩ [] :=
  ⟨fun j => by dsimp only; rw [if_neg (by omega)]; rfl, fun c hc => absurd hc not_mem_nil⟩

variable {dst dstOffset : Nat}

/-- The calls for a piece on a concrete vdev, whole or in two halves. -/
lemma remapCalls_tiles {debug : Bool} {offset : Nat} (hc : spa.concrete dst)
    (hf : ∀ j < n, spa.Follows vd (offset + j) dst (dstOffset + j)) :
    spa.Tiles ⟨vd, offset, n, split⟩ (remapCalls debug split dst dstOffset n) := by
  have hself : spa.concreteCalls (remapCalls debug split dst dstOffset n) = remapCalls debug split dst dstOffset n := by
    refine filter_eq_self.2 fun c h => ?_
    unfold remapCalls at h
    split at h <;> simp only [mem_cons, not_mem_nil, or_false] at h
    · rcases h with rfl | rfl <;> exact hc
    · rw [h]
      exact hc
  constructor
  · intro j
    have hhas : ∀ c : RemapCall, decide (c.Has j) = true ↔ c.splitOffset ≤ j ∧ j < c.splitOffset + c.size := fun c => decide_eq_true_iff
    rw [hself, remapCalls]
    split
    · simp only [countP_cons, countP_nil, hhas]
      split_ifs <;> omega
    · simp only [countP_cons, countP_nil, hhas, zero_add]
  · intro c h j hj
    rw [hself, remapCalls] at h
    obtain ⟨hlo, hhi⟩ := hj
    have hbyte : split ≤ j ∧ j < split + n ∧ c.vd = dst ∧ c.offset + (j - c.splitOffset) = dstOffset + (j - split) := by
      split at h <;> simp only [mem_cons, not_mem_nil, or_false] at h
      · rcases h with rfl | rfl <;> dsimp only at hlo hhi ⊢ <;> refine ⟨?_, ?_, rfl, ?_⟩ <;> omega
      · subst h
        exact ⟨hlo, hhi, rfl, rfl⟩
    obtain ⟨h1, h2, h3, h4⟩ := hbyte
    rw [h3, h4]
    exact hf (j - split) (by omega)

/-- Calls for a piece on another removed vdev are not in the result. -/
lemma remapCalls_indirect {debug : Bool} (hc : spa.concrete dst = false) :
    spa.concreteCalls (remapCalls debug split dst dstOffset n) = [] := by
  refine filter_eq_nil_iff.2 fun c h => ?_
  unfold remapCalls at h
  split at h <;> simp only [mem_cons, not_mem_nil, or_false] at h
  · rcases h with rfl | rfl <;> simp [hc]
  · simp [h, hc]

end

section
variable {offset asize : Nat} {ms : List VimEntry}

/-- The part of the extent that the entry has. -/
def VimEntry.innerSize (m : VimEntry) (offset asize : Nat) : Nat :=
  min asize (m.asize - (offset - m.srcOffset))

/-- The entries are those of the extent, in order. -/
inductive Adjacent : List VimEntry → Nat → Nat → Prop
  | nil (offset : Nat) : Adjacent [] offset 0
  | cons {m : VimEntry} {ms : List VimEntry} {offset asize : Nat} (hpos : 0 < asize) (hm : m.Maps offset)
      (rest : Adjacent ms (offset + m.innerSize offset asize) (asize - m.innerSize offset asize)) : Adjacent (m :: ms) offset asize

/-- The loop counts the entries of a covered extent. -/
lemma adjacentEntries_spec (ms : List VimEntry) :
    ∀ {offset asize : Nat}, (ms.Pairwise fun e f => e.srcOffset + e.asize ≤ f.srcOffset) → (∀ e ∈ ms, 0 < e.asize) →
      (∀ j < asize, ∃ e ∈ ms, e.Maps (offset + j)) → (∀ m ∈ ms.head?, 0 < asize → m.Maps offset) →
      ∃ n, adjacentEntries ms offset asize = .ok n ∧ Adjacent (ms.take n) offset asize := by
  induction ms with
  | nil =>
    intro offset asize _ _ hcov _
    cases asize with
    | zero => exact ⟨0, by rw [adjacentEntries], .nil offset⟩
    | succ asize =>
      obtain ⟨e, he, -⟩ := hcov 0 (Nat.succ_pos asize)
      cases he
  | cons m ms ih =>
    intro offset asize hsorted hpos hcov hhead
    cases asize with
    | zero => exact ⟨0, by rw [adjacentEntries], .nil offset⟩
    | succ asize =>
      have hm : m.Maps offset := hhead m rfl (Nat.succ_pos asize)
      obtain ⟨hmlo, hmhi⟩ := hm
      obtain ⟨hlt, hsorted'⟩ := pairwise_cons.1 hsorted
      have hinner : m.innerSize offset (asize + 1) = min (asize + 1) (m.asize - (offset - m.srcOffset)) := rfl
      -- a byte after this piece is past the end of the entry, so a later entry has it
      have hcov' : ∀ j < asize + 1 - m.innerSize offset (asize + 1), ∃ e ∈ ms, e.Maps (offset + m.innerSize offset (asize + 1) + j) := by
        intro j hj
        obtain ⟨e, he, hmaps⟩ := hcov (m.innerSize offset (asize + 1) + j) (by omega)
        rw [← add_assoc] at hmaps
        rcases mem_cons.1 he with rfl | he
        · obtain ⟨_, _⟩ := hmaps
          omega
        · exact ⟨e, he, hmaps⟩
      have hhead' : ∀ m' ∈ ms.head?, 0 < asize + 1 - m.innerSize offset (asize + 1) → m'.Maps (offset + m.innerSize offset (asize + 1)) := by
        intro m' hm' hleft
        obtain ⟨ms', rfl⟩ : ∃ ms', ms = m' :: ms' := ⟨ms.tail, (cons_head?_tail hm').symm⟩
        obtain ⟨f, hf, hmaps⟩ := hcov' 0 hleft
        have hm'lo := hlt m' mem_cons_self
        have hm'pos := hpos m' (by simp)
        rcases mem_cons.1 hf with rfl | hf
        · exact hmaps
        · have := (pairwise_cons.1 hsorted').1 f hf
          obtain ⟨_, _⟩ := hmaps
          omega
      obtain ⟨n, heq, hadj⟩ := ih hsorted' (fun e he => hpos e (mem_cons_of_mem m he)) hcov' hhead'
      rw [adjacentEntries, ASSERT_bind hmlo, ASSERT_bind hmhi]
      dsimp only
      rw [← hinner, heq]
      exact ⟨n + 1, rfl, .cons (Nat.succ_pos asize) ⟨hmlo, hmhi⟩ hadj⟩

/-- **`vdev_indirect_mapping_duplicate_adjacent_entries`** copies the entries of an extent. -/
theorem duplicateAdjacentEntries_spec {vim : SortedMapping} (hpos : ∀ e ∈ vim.vimEntries, 0 < e.asize) (hasize : 0 < asize)
    (hcov : ∀ j < asize, ∃ e ∈ vim.vimEntries, e.Maps (offset + j)) :
    ∃ ms, vdevIndirectMappingDuplicateAdjacentEntries vim.toVdevIndirectMapping offset asize = .ok ms ∧ Adjacent ms offset asize ∧
      ∀ m ∈ ms, m ∈ vim.vimEntries := by
  obtain ⟨e, he, hmaps⟩ := hcov 0 hasize
  obtain ⟨k, hk⟩ := mem_iff_getElem?.1 he
  have hfirst : ∀ f, vim.vimEntries[0]? = some f → f.srcOffset ≤ offset := by
    intro f hf
    obtain ⟨_, _⟩ := hmaps
    rcases Nat.eq_zero_or_pos k with rfl | hk0
    · rw [hk] at hf
      cases hf
      omega
    · have := vim.end_le_src hf hk hk0
      omega
  obtain ⟨⟨r, hr, hfound⟩, -⟩ := entryForOffset_spec (ne_nil_of_mem he) hfirst
  cases r with
  | none => exact absurd hmaps (hfound e he)
  | some i =>
    obtain ⟨m, hm, hmaps', -⟩ := hfound
    have hcov' : ∀ j < asize, ∃ e ∈ vim.vimEntries.drop i, e.Maps (offset + j) := by
      intro j hj
      obtain ⟨f, hf, hfmaps⟩ := hcov j hj
      obtain ⟨l, hl⟩ := mem_iff_getElem?.1 hf
      refine ⟨f, mem_iff_getElem?.2 ⟨l - i, ?_⟩, hfmaps⟩
      have hil : i ≤ l := by
        by_contra hlt
        have := vim.end_le_src hl hm (by omega)
        obtain ⟨_, _⟩ := hfmaps
        obtain ⟨_, _⟩ := hmaps'
        omega
      rw [List.getElem?_drop, Nat.add_sub_cancel' hil]
      exact hl
    have hhead : ∀ m' ∈ (vim.vimEntries.drop i).head?, 0 < asize → m'.Maps offset := by
      intro m' hm' _
      rw [List.head?_drop, hm] at hm'
      cases hm'
      exact hmaps'
    obtain ⟨n, heq, hadj⟩ := adjacentEntries_spec _ (vim.sorted.sublist (drop_sublist ..))
      (fun e he => hpos e (mem_of_mem_drop he)) hcov' hhead
    rw [vdevIndirectMappingDuplicateAdjacentEntries, hr, ok_bind]
    dsimp only
    rw [heq]
    exact ⟨_, rfl, hadj, fun m hm => mem_of_mem_drop (mem_of_mem_take hm)⟩

end

section
variable {spa : SpaVdevs} (debug : Bool) {m : VimEntry}

lemma SpaVdevs.Follows.through (h : spa.Follows v x w y) (hm : spa.HasEntry v m) (hx : m.Maps x) :
    spa.concrete m.dstVdev = true ∨
      spa.indirect m.dstVdev = true ∧ spa.Follows m.dstVdev (m.dstOffset + (x - m.srcOffset)) w y := by
  cases h with
  | last he hx' hc =>
    obtain rfl := hm.unique he hx hx'
    exact .inl hc
  | next he hx' hi h =>
    obtain rfl := hm.unique he hx hx'
    exact .inr ⟨hi, h⟩

lemma SpaVdevs.Tiles.nil_append {rs : RemapSegment} {calls calls' : List RemapCall} (hnil : spa.concreteCalls calls = [])
    (h : spa.Tiles rs calls') : spa.Tiles rs (calls ++ calls') where
  once j := by
    rw [SpaVdevs.concreteCalls_append, hnil, List.nil_append, h.once]
  follows c hc := by
    rw [SpaVdevs.concreteCalls_append, hnil, List.nil_append] at hc
    exact h.follows c hc

/-- The pieces of a segment are those of another whose bytes go there. -/
lemma SpaVdevs.Tiles.back {rs rs' : RemapSegment} {calls : List RemapCall} (h : spa.Tiles rs' calls)
    (hsplit : rs'.rsSplitOffset = rs.rsSplitOffset) (hsize : rs'.rsAsize = rs.rsAsize)
    (hback : ∀ j < rs.rsAsize, ∀ w y, spa.Follows rs'.rsVd (rs'.rsOffset + j) w y → spa.Follows rs.rsVd (rs.rsOffset + j) w y) :
    spa.Tiles rs calls where
  once j := by
    rw [h.once, hsplit, hsize]
  follows c hc j hj := by
    have hrange := h.range hc hj
    have hto := h.follows c hc j hj
    rw [hsplit] at hto hrange
    exact hback _ (by omega) _ _ hto

/-- What an entry leaves on the stack, and what the calls make of the piece. -/
lemma piece_spec (hac : spa.Acyclic) {rs : RemapSegment} (hm : spa.HasEntry rs.rsVd m) (hmaps : m.Maps rs.rsOffset)
    (hpos : 0 < rs.rsAsize) (hcov : spa.Covers rs) :
    ∃ dstV pushes, vdevLookupTop spa m.dstVdev = some dstV ∧ m.dstVdev ≠ rs.rsVd ∧ (∀ stack, (if dstV.indirectOps then
        ⟨m.dstVdev, m.dstOffset + (rs.rsOffset - m.srcOffset), m.innerSize rs.rsOffset rs.rsAsize, rs.rsSplitOffset⟩ :: stack else stack) =
          pushes ++ stack) ∧
      (∀ p ∈ pushes, 0 < p.rsAsize ∧ spa.Leads rs.rsVd p.rsVd ∧ spa.Covers p) ∧
      ∀ ds, Forall₂ spa.Tiles pushes ds →
        spa.Tiles ⟨rs.rsVd, rs.rsOffset, m.innerSize rs.rsOffset rs.rsAsize, rs.rsSplitOffset⟩
          (remapCalls debug rs.rsSplitOffset m.dstVdev (m.dstOffset + (rs.rsOffset - m.srcOffset))
            (m.innerSize rs.rsOffset rs.rsAsize) ++ ds.flatten) := by
  obtain ⟨hlo, hhi⟩ := hmaps
  have hinner : m.innerSize rs.rsOffset rs.rsAsize = min rs.rsAsize (m.asize - (rs.rsOffset - m.srcOffset)) := rfl
  have hleads : spa.Leads rs.rsVd m.dstVdev := ⟨m, hm, rfl⟩
  have hne : m.dstVdev ≠ rs.rsVd := fun heq => hac rs.rsVd (.single (heq ▸ hleads))
  -- each byte of the piece goes through this entry
  have hbytes : ∀ j < m.innerSize rs.rsOffset rs.rsAsize, m.Maps (rs.rsOffset + j) ∧ (∃ w y, spa.Follows rs.rsVd (rs.rsOffset + j) w y) ∧
      m.dstOffset + (rs.rsOffset + j - m.srcOffset) = m.dstOffset + (rs.rsOffset - m.srcOffset) + j := by
    intro j hj
    exact ⟨⟨by omega, by omega⟩, hcov j (by omega), by omega⟩
  cases hd : vdevLookupTop spa m.dstVdev with
  | none =>
    obtain ⟨hmj, ⟨w, y, hf⟩, -⟩ := hbytes 0 (by omega)
    rcases hf.through hm hmj with hc | ⟨hi, -⟩
    · simp [SpaVdevs.concrete, hd] at hc
    · simp [SpaVdevs.indirect, hd] at hi
  | some dstV =>
    cases hops : dstV.indirectOps with
    | false =>
      have hconc : spa.concrete m.dstVdev := by simp [SpaVdevs.concrete, hd, hops]
      refine ⟨dstV, [], rfl, hne, fun stack => if_neg (by simp [hops]), fun p hp => absurd hp not_mem_nil, fun ds hds => ?_⟩
      cases hds
      rw [flatten_nil, append_nil]
      refine remapCalls_tiles hconc fun j hj => ?_
      obtain ⟨hmj, -, heq⟩ := hbytes j hj
      rw [← heq]
      exact .last hm hmj hconc
    | true =>
      have hind : spa.indirect m.dstVdev := by simp [SpaVdevs.indirect, hd, hops]
      have hconc : spa.concrete m.dstVdev = false := by simp [SpaVdevs.concrete, hd, hops]
      refine ⟨dstV, [_], rfl, hne, fun stack => if_pos hops, ?_, ?_⟩
      · intro p hp
        obtain rfl := mem_singleton.1 hp
        refine ⟨by dsimp only; omega, hleads, fun j hj => ?_⟩
        obtain ⟨hmj, ⟨w, y, hf⟩, heq⟩ := hbytes j hj
        rcases hf.through hm hmj with hc | ⟨-, h⟩
        · rw [hconc] at hc
          cases hc
        · rw [heq] at h
          exact ⟨w, y, h⟩
      · intro ds hds
        obtain ⟨d, _, hd', hnil, rfl⟩ := forall₂_cons_left_iff.1 hds
        cases hnil
        rw [flatten_singleton]
        refine SpaVdevs.Tiles.nil_append (remapCalls_indirect hconc) (hd'.back rfl rfl fun j hj w y hto => ?_)
        obtain ⟨hmj, -, heq⟩ := hbytes j hj
        rw [← heq] at hto
        exact .next hm hmj hind hto

/-- **The entries of a segment.** -/
theorem remapEntries_spec (hac : spa.Acyclic) (ms : List VimEntry) :
    ∀ (rs : RemapSegment), Adjacent ms rs.rsOffset rs.rsAsize → (∀ m ∈ ms, spa.HasEntry rs.rsVd m) → spa.Covers rs →
      ∃ direct pushes,
        (∀ stack calls, ∃ rs', remapEntries spa debug ms rs stack calls = .ok (rs', pushes ++ stack, calls ++ direct) ∧ rs'.rsAsize = 0) ∧
        (∀ p ∈ pushes, 0 < p.rsAsize ∧ spa.Leads rs.rsVd p.rsVd ∧ spa.Covers p) ∧
        ∀ ds, Forall₂ spa.Tiles pushes ds → spa.Tiles rs (direct ++ ds.flatten) := by
  induction ms with
  | nil =>
    intro rs hadj _ _
    rcases rs with ⟨vd, offset, asize, split⟩
    cases hadj
    refine ⟨[], [], fun stack calls => ⟨⟨vd, offset, 0, split⟩, ?_, rfl⟩, fun p hp => absurd hp not_mem_nil, fun ds hds => ?_⟩
    · rw [remapEntries, append_nil, nil_append]
    · cases hds
      exact .nil
  | cons m ms ih =>
    intro rs hadj hms hcov
    cases hadj with
    | cons hpos hmaps rest =>
      have hm := hms m mem_cons_self
      obtain ⟨dstV, pushes, hd, hne, hstack, hpushes, htiles⟩ := piece_spec debug hac hm hmaps hpos hcov
      have hinner : m.innerSize rs.rsOffset rs.rsAsize = min rs.rsAsize (m.asize - (rs.rsOffset - m.srcOffset)) := rfl
      have hwrap : (m.dstOffset + (rs.rsOffset - m.srcOffset)) % 2 ^ 64 = m.dstOffset + (rs.rsOffset - m.srcOffset) := by
        have := hm.ok.2
        obtain ⟨_, _⟩ := hmaps
        exact Nat.mod_eq_of_lt (by omega)
      have hcov' : spa.Covers ⟨rs.rsVd, rs.rsOffset + m.innerSize rs.rsOffset rs.rsAsize, rs.rsAsize - m.innerSize rs.rsOffset rs.rsAsize,
          rs.rsSplitOffset + m.innerSize rs.rsOffset rs.rsAsize⟩ := by
        intro j hj
        dsimp only at hj ⊢
        rw [add_assoc]
        exact hcov _ (by omega)
      obtain ⟨direct, pushes', hrun, hpushes', htiles'⟩ := ih
        ⟨rs.rsVd, rs.rsOffset + m.innerSize rs.rsOffset rs.rsAsize, rs.rsAsize - m.innerSize rs.rsOffset rs.rsAsize,
          rs.rsSplitOffset + m.innerSize rs.rsOffset rs.rsAsize⟩ rest (fun m' hm' => hms m' (mem_cons_of_mem m hm')) hcov'
      refine ⟨remapCalls debug rs.rsSplitOffset m.dstVdev (m.dstOffset + (rs.rsOffset - m.srcOffset))
        (m.innerSize rs.rsOffset rs.rsAsize) ++ direct, pushes' ++ pushes, fun stack calls => ?_, ?_, fun ds hds => ?_⟩
      · rw [remapEntries, ASSERT_bind hpos, ASSERT_bind hmaps.1, ASSERT_bind hmaps.2, ASSERT_bind hne]
        dsimp only
        rw [hd]
        dsimp only
        rw [hwrap, ← hinner, hstack, append_assoc, ← append_assoc calls]
        exact hrun _ _
      · intro p hp
        rcases mem_append.1 hp with hp | hp
        · exact hpushes' p hp
        · exact hpushes p hp
      · obtain ⟨ds', ds'', h', h'', rfl⟩ : ∃ ds' ds'', Forall₂ spa.Tiles pushes' ds' ∧ Forall₂ spa.Tiles pushes ds'' ∧
            ds = ds' ++ ds'' := by
          refine ⟨ds.take pushes'.length, ds.drop pushes'.length, ?_, ?_, (take_append_drop ..).symm⟩
          · exact (forall₂_take_append _ _ _ hds.flip).flip
          · exact (forall₂_drop_append _ _ _ hds.flip).flip
        -- the stack is worked off from the last entry to the first
        have htile := (htiles ds'' h'').append (Nat.min_le_left ..) (htiles' ds' h')
        refine htile.perm ?_
        rw [flatten_append]
        simp only [append_assoc]
        refine List.Perm.append_left _ ?_
        rw [← append_assoc direct]
        exact perm_append_comm

/-- The loop works off the head of the stack and leaves the rest. -/
def Drains (spa : SpaVdevs) (debug : Bool) (rs : RemapSegment) (cs : List RemapCall) (k : Nat) : Prop :=
  spa.Tiles rs cs ∧ ∀ fuel stack calls, remapLoop spa debug (k + fuel) (rs :: stack) calls = remapLoop spa debug fuel stack (calls ++ cs)

lemma Drains.all {ps : List RemapSegment} (h : ∀ p ∈ ps, ∃ cs k, Drains spa debug p cs k) :
    ∃ ds k, Forall₂ spa.Tiles ps ds ∧
      ∀ fuel stack calls, remapLoop spa debug (k + fuel) (ps ++ stack) calls = remapLoop spa debug fuel stack (calls ++ ds.flatten) := by
  induction ps with
  | nil => exact ⟨[], 0, .nil, fun fuel stack calls => by rw [zero_add, flatten_nil, append_nil, nil_append]⟩
  | cons p ps ih =>
    obtain ⟨cs, k, htile, hrun⟩ := h p mem_cons_self
    obtain ⟨ds, k', htiles, hruns⟩ := ih fun q hq => h q (mem_cons_of_mem p hq)
    refine ⟨cs :: ds, k + k', .cons htile htiles, fun fuel stack calls => ?_⟩
    rw [cons_append, add_assoc, hrun, hruns, flatten_cons, append_assoc]

/-- **Step.** One segment: its entries, then the segments it has pushed. -/
theorem remapSegment_spec (hac : spa.Acyclic) {rs : RemapSegment} (hpos : 0 < rs.rsAsize) (hcov : spa.Covers rs) :
    ∃ direct pushes, (∀ stack calls, remapSegment spa debug rs stack calls = .ok (pushes ++ stack, calls ++ direct)) ∧
      (∀ p ∈ pushes, 0 < p.rsAsize ∧ spa.Leads rs.rsVd p.rsVd ∧ spa.Covers p) ∧
      ∀ ds, Forall₂ spa.Tiles pushes ds → spa.Tiles rs (direct ++ ds.flatten) := by
  have hentry : ∀ j < rs.rsAsize, ∃ e, spa.HasEntry rs.rsVd e ∧ e.Maps (rs.rsOffset + j) := by
    intro j hj
    obtain ⟨w, y, hf⟩ := hcov j hj
    exact hf.hasEntry
  obtain ⟨-, ⟨vim, hvim, -⟩, -⟩ := hentry 0 hpos
  have hcov' : ∀ j < rs.rsAsize, ∃ e ∈ vim.vimEntries, e.Maps (rs.rsOffset + j) := by
    intro j hj
    obtain ⟨e, ⟨vim', hvim', he⟩, hmaps⟩ := hentry j hj
    rw [hvim] at hvim'
    cases hvim'
    exact ⟨e, he, hmaps⟩
  obtain ⟨ms, hdup, hadj, hms⟩ := duplicateAdjacentEntries_spec (fun e he => (SpaVdevs.HasEntry.ok ⟨vim, hvim, he⟩).1) hpos hcov'
  have hlen : 0 < ms.length := by
    generalize rs.rsAsize = asize at hadj hpos
    cases hadj with
    | nil => exact absurd hpos (lt_irrefl 0)
    | cons => exact Nat.succ_pos _
  have hbody : ∀ stack calls, remapSegment spa debug rs stack calls = (do
      let r ← remapEntries spa debug ms rs stack calls
      VERIFY (r.1.rsAsize = 0)
      .ok r.2) := by
    intro stack calls
    rw [remapSegment, ASSERT_bind hpos, hvim, ok_bind, hdup, ok_bind, ASSERT_bind hlen]
  obtain ⟨direct, pushes, hrun, hpushes, htiles⟩ := remapEntries_spec debug hac ms rs hadj (fun m hm => ⟨vim, hvim, hms m hm⟩) hcov
  refine ⟨direct, pushes, fun stack calls => ?_, hpushes, htiles⟩
  obtain ⟨rs', heq, hdone⟩ := hrun stack calls
  rw [hbody, heq, ok_bind, VERIFY_bind hdone]

/-- **Run.** By induction on the vdevs that a segment can lead to. -/
theorem segment_drains (hac : spa.Acyclic) (v : Nat) :
    ∀ rs : RemapSegment, rs.rsVd = v → 0 < rs.rsAsize → spa.Covers rs → ∃ cs k, Drains spa debug rs cs k := by
  induction v using hac.wellFounded.induction with
  | _ v ih =>
    rintro rs rfl hpos hcov
    obtain ⟨direct, pushes, hseg, hpushes, htiles⟩ := remapSegment_spec debug hac hpos hcov
    obtain ⟨ds, k, hall, hruns⟩ := Drains.all debug fun p hp => ih p.rsVd (hpushes p hp).2.1 p rfl (hpushes p hp).1 (hpushes p hp).2.2
    refine ⟨direct ++ ds.flatten, k + 1, htiles ds hall, fun fuel stack calls => ?_⟩
    rw [add_right_comm, remapLoop, hseg, ok_bind, hruns, append_assoc]

/-- **`vdev_indirect_remap`** of a covered extent returns, and its pieces have each byte of the extent once, where the
mappings lead. -/
theorem remap_covers_extent (spa : SpaVdevs) (hac : spa.Acyclic) (debug : Bool) (vd offset asize : Nat) (hpos : 0 < asize)
    (hcov : ∀ j < asize, ∃ w y, spa.Follows vd (offset + j) w y) :
    ∃ enough calls, (∀ fuel ≥ enough, vdevIndirectRemap spa debug fuel vd offset asize = .ok calls) ∧
      (∀ j, (spa.concreteCalls calls).countP (fun c => c.Has j) = if j < asize then 1 else 0) ∧
      ∀ c ∈ spa.concreteCalls calls, ∀ j, c.Has j → spa.Follows vd (offset + j) c.vd (c.offset + (j - c.splitOffset)) := by
  obtain ⟨cs, k, htile, hrun⟩ := segment_drains debug hac vd ⟨vd, offset, asize, 0⟩ rfl hpos hcov
  refine ⟨k + 1, cs, fun fuel hfuel => ?_, fun j => ?_, fun c hc j hj => htile.follows c hc j hj⟩
  · obtain ⟨n, rfl⟩ := Nat.exists_eq_add_of_le hfuel
    rw [vdevIndirectRemap, add_right_comm, add_assoc, hrun, remapLoop, List.nil_append]
  · rw [htile.once]
    simp only [zero_le, true_and, zero_add]

/-- A mapping of the first `2048` bytes to two places of the vdev `dst`. -/
def splitMapping (dst : Nat) : SortedMapping where
  vimHavecounts := false
  vimEntries := [⟨0, dst, 1024, 1024⟩, ⟨1024, dst, 0, 1024⟩]
  vimpCounts := []
  vimpMaxOffset := 2048
  vimpBytesMapped := 2048
  sorted := by simp
  end_le_max := by simp
  max_lt := by decide
  inMemory := by simp

/-- The vdev 0 was removed to the vdev 1, and that one to the vdev 2. -/
def chainSpa : SpaVdevs where
  vdevChild := [⟨true, some (splitMapping 1)⟩, ⟨true, some (splitMapping 2)⟩, ⟨false, none⟩]
  entries_ok := by simp [splitMapping]

lemma chainSpa_hasEntry (h : chainSpa.HasEntry v e) : e.dstVdev = v + 1 := by
  obtain ⟨vim, h, he⟩ := h
  match v with
  | 0 | 1 =>
    cases h
    simp only [splitMapping, mem_cons, not_mem_nil, or_false] at he
    rcases he with rfl | rfl <;> rfl
  | 2 => cases h
  | v + 3 => cases h

lemma chainSpa_acyclic : chainSpa.Acyclic := by
  have hlt : ∀ v w, TransGen chainSpa.Leads v w → v < w := by
    intro v w h
    induction h with
    | single h =>
      obtain ⟨e, he, rfl⟩ := h
      rw [chainSpa_hasEntry he]
      exact Nat.lt_succ_self _
    | tail _ h ih =>
      obtain ⟨e, he, rfl⟩ := h
      rw [chainSpa_hasEntry he]
      omega
  exact fun v h => lt_irrefl v (hlt v v h)

theorem remap_covers_extent_chain : chainSpa.Acyclic ∧ (∀ j < 1024, ∃ w y, chainSpa.Follows 0 (512 + j) w y) ∧
    ∃ enough calls, (∀ fuel ≥ enough, vdevIndirectRemap chainSpa true fuel 0 512 1024 = .ok calls) ∧
      ∀ j, (chainSpa.concreteCalls calls).countP (fun c => c.Has j) = if j < 1024 then 1 else 0 := by
  have hentry : ∀ x < 2048, ∀ v < 2, ∃ e, chainSpa.HasEntry v e ∧ e.Maps x ∧
      e.dstOffset + (x - e.srcOffset) < 2048 ∧ e.dstVdev = v + 1 := by
    intro x hx v hv
    obtain ⟨vim, hvim, hmem⟩ : ∃ vim, vdevMapping chainSpa v = .ok vim ∧ vim.vimEntries = (splitMapping (v + 1)).vimEntries := by
      match v, hv with
      | 0, _ => exact ⟨_, rfl, rfl⟩
      | 1, _ => exact ⟨_, rfl, rfl⟩
    by_cases h : x < 1024
    · exact ⟨⟨0, v + 1, 1024, 1024⟩, ⟨vim, hvim, by simp [hmem, splitMapping]⟩, ⟨Nat.zero_le x, by omega⟩, by dsimp only; omega, rfl⟩
    · exact ⟨⟨1024, v + 1, 0, 1024⟩, ⟨vim, hvim, by simp [hmem, splitMapping]⟩, ⟨Nat.le_of_not_lt h, hx⟩, by dsimp only; omega, rfl⟩
  have hcov : ∀ j < 1024, ∃ w y, chainSpa.Follows 0 (512 + j) w y := by
    intro j hj
    obtain ⟨e, he, hx, hlt, hdst⟩ := hentry (512 + j) (by omega) 0 (by decide)
    obtain ⟨e', he', hx', -, hdst'⟩ := hentry _ hlt 1 (by decide)
    have hlast : chainSpa.Follows e.dstVdev (e.dstOffset + (512 + j - e.srcOffset)) e'.dstVdev
        (e'.dstOffset + (e.dstOffset + (512 + j - e.srcOffset) - e'.srcOffset)) := by
      rw [hdst]
      exact .last he' hx' (by rw [hdst']; rfl)
    exact ⟨_, _, .next he hx (by rw [hdst]; rfl) hlast⟩
  obtain ⟨enough, calls, hrun, honce, -⟩ := remap_covers_extent chainSpa chainSpa_acyclic true 0 512 1024 (by decide) hcov
  exact ⟨chainSpa_acyclic, hcov, enough, calls, hrun, honce⟩

end

end Unleashed.Zfs
