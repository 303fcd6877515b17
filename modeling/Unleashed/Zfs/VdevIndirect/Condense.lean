import Unleashed.Zfs.VdevIndirect.Mapping

/-!
# Condensing a mapping

The condense thread copies the entries of an old mapping that are not obsolete into a new one, through one list per
transaction group. A thread that starts again recomputes its place from the largest offset that the new mapping has.
-/

namespace Unleashed.Zfs

open Lib Function List

/-- `vdev_indirect_mapping_entry_t`. -/
structure VimeEntry where
  vimeMapping : VimEntry
  vimeObsoleteCount : Nat
deriving DecidableEq, Repr

section

/-- The inner loop of `vdev_indirect_mapping_add_entries`, for at most `k` entries. -/
def addBatch : Nat → List VimeEntry → VdevIndirectMapping → List VimeEntry → Except Fault (List VimeEntry × VdevIndirectMapping × List VimeEntry)
  | 0, list, vim, buf => .ok (list, vim, buf)
  | _ + 1, [], vim, buf => .ok ([], vim, buf)
  | k + 1, e :: list, vim, buf => do
    ASSERT (e.vimeObsoleteCount < e.vimeMapping.asize)
    ASSERT (e.vimeObsoleteCount ≠ 0 → vim.vimHavecounts)
    ASSERT (e.vimeMapping.srcOffset ≥ vim.vimpMaxOffset)
    addBatch k list { vim with
      vimpBytesMapped := vim.vimpBytesMapped + e.vimeMapping.asize
      vimpMaxOffset := e.vimeMapping.srcOffset + e.vimeMapping.asize } (buf ++ [e])

/-- The writes of a batch to the mapping and the counts object. -/
def writeBatch (vim : VdevIndirectMapping) (buf : List VimeEntry) : VdevIndirectMapping :=
  { vim with
    vimEntries := vim.vimEntries ++ buf.map (·.vimeMapping)
    vimpCounts := if vim.vimHavecounts then vim.vimpCounts ++ buf.map (·.vimeObsoleteCount) else vim.vimpCounts }

/-- The outer loop, in batches of `SPA_OLD_MAXBLOCKSIZE`. -/
def addEntriesLoop : Nat → List VimeEntry → VdevIndirectMapping → Nat → Except Fault (VdevIndirectMapping × Nat)
  | _, [], vim, entriesWritten => .ok (vim, entriesWritten)
  | 0, _ :: _, _, _ => .error .fuel
  | fuel + 1, e :: list, vim, entriesWritten => do
    let r ← addBatch (2 ^ 17 / 24) (e :: list) vim []
    addEntriesLoop fuel r.1 (writeBatch r.2.1 r.2.2) (entriesWritten + r.2.2.length)

def vdevIndirectMappingAddEntries (vim : VdevIndirectMapping) (list : List VimeEntry) : Except Fault VdevIndirectMapping := do
  vdevIndirectMappingVerify vim
  ASSERT (list ≠ [])
  let r ← addEntriesLoop list.length list vim 0
  ASSERT (r.1.numEntries > vim.numEntries)
  ASSERT (r.1.numEntries - vim.numEntries = r.2)
  .ok r.1

/-- `sci_new_mapping_entries[txg & TXG_MASK]`, and its sync task. -/
structure TxgList where
  entries : List VimeEntry
  syncTask : Bool
deriving DecidableEq, Repr

/-- `spa_condensing_indirect_t`. -/
structure Sci where
  sciNewMapping : VdevIndirectMapping
  sciNewMappingEntries : Nat → TxgList

/-- All the lists are empty. -/
def Sci.Drained (sci : Sci) : Prop :=
  ∀ i < 4, (sci.sciNewMappingEntries i).entries = []

instance (sci : Sci) : Decidable sci.Drained :=
  inferInstanceAs (Decidable (∀ i < 4, _))

def spaCondenseIndirectCommitEntry (sci : Sci) (vimep : VimEntry) (count txg : Nat) : Except Fault Sci := do
  ASSERT (count < vimep.asize)
  let list := sci.sciNewMappingEntries (txg % 4)
  .ok { sci with
    sciNewMappingEntries := Function.update sci.sciNewMappingEntries (txg % 4)
      ⟨list.entries ++ [⟨vimep, count⟩], list.syncTask || list.entries.isEmpty⟩ }

def spaCondenseIndirectCommitSync (sci : Sci) (txg : Nat) : Except Fault Sci := do
  let vim ← vdevIndirectMappingAddEntries sci.sciNewMapping (sci.sciNewMappingEntries (txg % 4)).entries
  .ok ⟨vim, Function.update sci.sciNewMappingEntries (txg % 4) ⟨[], false⟩⟩

/-- An old mapping with the obsolete counts of its entries. -/
structure CondenseInput where
  oldMapping : SortedMapping
  obsoleteCounts : List Nat
  nonempty : ∀ e ∈ oldMapping.vimEntries, 0 < e.asize
  length_eq : obsoleteCounts.length = oldMapping.vimEntries.length
  count_le : ∀ p ∈ oldMapping.vimEntries.zip obsoleteCounts, p.2 ≤ p.1.asize

/-- The index of the entry the lookup has found. -/
def startIndexOf (oldMapping : SortedMapping) : Option Nat → Except Fault Nat
  | none => .ok (2 ^ 64 - 1)
  | some i => do
    ASSERT (i < oldMapping.numEntries)
    .ok i

/-- The start of `spa_condense_indirect_thread`, up to `start_index`. -/
def spaCondenseIndirectThread (c : CondenseInput) (sci : Sci) : Except Fault Nat := do
  ASSERT sci.Drained
  if sci.sciNewMapping.vimpMaxOffset = 0 then .ok 0
  else do
    let entry ← vdevIndirectMappingEntryForOffsetOrNext c.oldMapping.toVdevIndirectMapping sci.sciNewMapping.vimpMaxOffset
    startIndexOf c.oldMapping entry

/-- `obsolete_counts[i]`. -/
def countAt (c : CondenseInput) (i : Nat) : Except Fault Nat :=
  match c.obsoleteCounts[i]? with
  | none => .error .bounds
  | some count => .ok count

/-- The body of the loop of `spa_condense_indirect_generate_new_mapping`. -/
def generateEntry (c : CondenseInput) (sci : Sci) (txg mapi : Nat) : Except Fault Sci := do
  let entry ← c.oldMapping.entryAt mapi
  let count ← countAt c mapi
  ASSERT (count ≤ entry.asize)
  if count < entry.asize then spaCondenseIndirectCommitEntry sci entry count txg else .ok sci

/-- `spa_condense_indirect_complete_sync`: the new mapping takes the place of the old one. -/
def spaCondenseIndirectCompleteSync (sci : Sci) : Except Fault Sci := do
  ASSERT sci.Drained
  .ok sci

end

section

/-- What the condense thread does. -/
inductive CondenseThread where
  | idle
  /-- In the loop, at this index. -/
  | running (mapi : Nat)
  /-- Waits for the completing sync task of this transaction group. -/
  | completing (txg : Nat)
  | complete
deriving DecidableEq, Repr

structure CondenseState where
  sci : Sci
  (openTxg syncedTxg : Nat)
  thread : CondenseThread

inductive CondenseEvent where
  /-- The thread starts, when all that was pending is synced. -/
  | start
  /-- The thread handles an entry. -/
  | entry
  | cancel
  /-- The thread is through and asks for the completing sync task. -/
  | finish
  /-- A new transaction group opens; one is open, one quiesces, one syncs. -/
  | openNext
  | sync
  /-- Whatever is not synced is lost. -/
  | crash
deriving DecidableEq, Repr

/-- The sync tasks of a transaction group that add entries. -/
def syncEntries (sci : Sci) (txg : Nat) : Except Fault Sci :=
  if (sci.sciNewMappingEntries (txg % 4)).syncTask then spaCondenseIndirectCommitSync sci txg else .ok sci

/-- The completing task is the last one of its transaction group. -/
def syncComplete (sci : Sci) (txg : Nat) (thread : CondenseThread) : Except Fault (Sci × CondenseThread) :=
  if thread = .completing txg then do
    let sci ← spaCondenseIndirectCompleteSync sci
    .ok (sci, .complete)
  else .ok (sci, thread)

def condenseStep (c : CondenseInput) (s : CondenseState) : CondenseEvent → Except Fault CondenseState
  | .start =>
    if s.thread = .idle ∧ s.sci.Drained then do
      let mapi ← spaCondenseIndirectThread c s.sci
      .ok { s with thread := .running mapi }
    else .ok s
  | .entry =>
    match s.thread with
    | .running mapi =>
      if mapi < c.oldMapping.numEntries then do
        let sci ← generateEntry c s.sci s.openTxg mapi
        .ok { s with sci := sci, thread := .running (mapi + 1) }
      else .ok s
    | _ => .ok s
  | .cancel =>
    match s.thread with
    | .running _ => .ok { s with thread := .idle }
    | _ => .ok s
  | .finish =>
    match s.thread with
    | .running mapi => if mapi < c.oldMapping.numEntries then .ok s else .ok { s with thread := .completing s.openTxg }
    | _ => .ok s
  | .openNext => if s.openTxg < s.syncedTxg + 3 then .ok { s with openTxg := s.openTxg + 1 } else .ok s
  | .sync =>
    if s.syncedTxg + 1 < s.openTxg then do
      let sci ← syncEntries s.sci (s.syncedTxg + 1)
      let r ← syncComplete sci (s.syncedTxg + 1) s.thread
      .ok ⟨r.1, s.openTxg, s.syncedTxg + 1, r.2⟩
    else .ok s
  | .crash =>
    if s.thread = .complete then .ok s
    else .ok ⟨⟨s.sci.sciNewMapping, fun _ => ⟨[], false⟩⟩, s.syncedTxg + 1, s.syncedTxg, .idle⟩

def condenseRun (c : CondenseInput) : CondenseState → List CondenseEvent → Except Fault CondenseState
  | s, [] => .ok s
  | s, ev :: evs => do
    let s ← condenseStep c s ev
    condenseRun c s evs

/-- `spa_condense_indirect_start_sync` has made a new mapping, with counts. -/
def CondenseState.init (txg : Nat) : CondenseState :=
  ⟨⟨⟨true, [], [], 0, 0⟩, fun _ => ⟨[], false⟩⟩, txg + 1, txg, .idle⟩

end

variable {e : VimeEntry}

section
variable {vim : VdevIndirectMapping} {ps qs : List VimeEntry}

/-- Entries that can be a mapping: in order, and not obsolete. -/
structure Appendable (ps : List VimeEntry) : Prop where
  sorted : ps.Pairwise fun e f => e.vimeMapping.srcOffset + e.vimeMapping.asize ≤ f.vimeMapping.srcOffset
  live : ∀ e ∈ ps, e.vimeObsoleteCount < e.vimeMapping.asize

lemma Appendable.of_prefix (h : Appendable qs) (hp : ps <+: qs) : Appendable ps :=
  ⟨h.sorted.sublist hp.sublist, fun e he => h.live e (hp.subset he)⟩

/-- The end of the last entry. -/
def lastEnd (ps : List VimeEntry) : Nat :=
  ps.getLast?.elim 0 fun e => e.vimeMapping.srcOffset + e.vimeMapping.asize

@[simp] lemma lastEnd_append_singleton (e : VimeEntry) :
    lastEnd (ps ++ [e]) = e.vimeMapping.srcOffset + e.vimeMapping.asize := by
  simp [lastEnd]

lemma Appendable.lastEnd_le {qs : List VimeEntry} (h : Appendable (ps ++ e :: qs)) :
    lastEnd ps ≤ e.vimeMapping.srcOffset := by
  rcases eq_nil_or_concat' ps with rfl | ⟨ps', q, rfl⟩
  · exact Nat.zero_le _
  · rw [lastEnd_append_singleton]
    exact (pairwise_append.1 h.sorted).2.2 q (by simp) e mem_cons_self

/-- The totals of the mapping are those of the entries. -/
structure MappedTotals (vim : VdevIndirectMapping) (ps : List VimeEntry) : Prop where
  havecounts : vim.vimHavecounts = true
  bytes : vim.vimpBytesMapped = (ps.map (·.vimeMapping.asize)).sum
  maxOffset : vim.vimpMaxOffset = lastEnd ps

/-- The mapping has these entries with these counts. -/
structure Written (vim : VdevIndirectMapping) (ps : List VimeEntry) : Prop extends MappedTotals vim ps where
  entries : vim.vimEntries = ps.map (·.vimeMapping)
  counts : vim.vimpCounts = ps.map (·.vimeObsoleteCount)

lemma addBatch_spec (k : Nat) :
    ∀ {list : List VimeEntry} {vim : VdevIndirectMapping} {ps : List VimeEntry} (buf : List VimeEntry), MappedTotals vim ps → Appendable (ps ++ list) →
      ∃ added rest vim', addBatch k list vim buf = .ok (rest, vim', buf ++ added) ∧ list = added ++ rest ∧
        (0 < k → list ≠ [] → added ≠ []) ∧ MappedTotals vim' (ps ++ added) ∧ vim'.vimEntries = vim.vimEntries ∧ vim'.vimpCounts = vim.vimpCounts := by
  induction k with
  | zero =>
    intro list vim ps buf ht _
    refine ⟨[], list, vim, ?_, rfl, fun h => absurd h (lt_irrefl 0), ?_, rfl, rfl⟩
    · rw [addBatch, append_nil]
    · rw [append_nil]
      exact ht
  | succ k ih =>
    intro list vim ps buf ht ha
    cases list with
    | nil =>
      refine ⟨[], [], vim, ?_, rfl, fun _ h => absurd rfl h, ?_, rfl, rfl⟩
      · rw [addBatch, append_nil]
      · rw [append_nil]
        exact ht
    | cons e list =>
      have hlive := ha.live e (by simp)
      have hsrc := ha.lastEnd_le
      rw [← ht.maxOffset] at hsrc
      have ht' : MappedTotals { vim with
          vimpBytesMapped := vim.vimpBytesMapped + e.vimeMapping.asize
          vimpMaxOffset := e.vimeMapping.srcOffset + e.vimeMapping.asize } (ps ++ [e]) := by
        refine ⟨ht.havecounts, ?_, (lastEnd_append_singleton e).symm⟩
        rw [map_append, sum_append, ← ht.bytes]
        simp
      rw [append_cons] at ha
      obtain ⟨added, rest, vim', heq, rfl, -, htot, hentries, hcounts⟩ := ih (buf ++ [e]) ht' ha
      rw [addBatch, ASSERT_bind hlive, ASSERT_bind (fun _ => ht.havecounts), ASSERT_bind hsrc, heq]
      refine ⟨e :: added, rest, vim', ?_, rfl, fun _ _ => cons_ne_nil e added, ?_, hentries, hcounts⟩
      · rw [← append_cons]
      · rw [append_cons]
        exact htot

lemma addEntriesLoop_spec (fuel : Nat) :
    ∀ {list : List VimeEntry} {vim : VdevIndirectMapping} {ps : List VimeEntry} {n : Nat}, list.length ≤ fuel → Written vim ps →
      Appendable (ps ++ list) → ∃ vim', addEntriesLoop fuel list vim n = .ok (vim', n + list.length) ∧ Written vim' (ps ++ list) := by
  induction fuel with
  | zero =>
    intro list vim ps n hlen hw _
    obtain rfl := length_eq_zero_iff.1 (Nat.le_zero.1 hlen)
    refine ⟨vim, by rw [addEntriesLoop]; rfl, ?_⟩
    rw [append_nil]
    exact hw
  | succ fuel ih =>
    intro list vim ps n hlen hw ha
    cases list with
    | nil =>
      refine ⟨vim, by rw [addEntriesLoop]; rfl, ?_⟩
      rw [append_nil]
      exact hw
    | cons e list =>
      obtain ⟨added, rest, vim', heq, hsplit, hne, htot, hentries, hcounts⟩ :=
        addBatch_spec (2 ^ 17 / 24) [] hw.toMappedTotals ha
      have hpos : 0 < added.length := length_pos_of_ne_nil (hne (by decide) (cons_ne_nil e list))
      have hlens := congrArg List.length hsplit
      rw [length_append] at hlens
      have hw' : Written (writeBatch vim' added) (ps ++ added) := by
        refine ⟨{ htot with }, ?_, ?_⟩
        · rw [writeBatch, map_append, ← hw.entries, ← hentries]
        · rw [writeBatch, map_append, ← hw.counts, ← hcounts]
          exact if_pos htot.havecounts
      rw [hsplit, ← append_assoc] at ha
      obtain ⟨vim2, heq2, hw2⟩ := ih (n := n + added.length) (by omega) hw' ha
      rw [addEntriesLoop, heq, ok_bind]
      rw [nil_append, heq2]
      refine ⟨vim2, by rw [hlens, add_assoc], ?_⟩
      rw [hsplit, ← append_assoc]
      exact hw2

/-- **`vdev_indirect_mapping_add_entries`** appends the entries. -/
theorem addEntries_spec (hw : Written vim ps) (ha : Appendable (ps ++ qs)) (hne : qs ≠ []) :
    ∃ vim', vdevIndirectMappingAddEntries vim qs = .ok vim' ∧ Written vim' (ps ++ qs) := by
  have hverify : vdevIndirectMappingVerify vim = .ok () := by
    rw [vdevIndirectMappingVerify, hw.entries, List.getLast?_map]
    cases h : ps.getLast? with
    | none => rfl
    | some e =>
      refine ASSERT_eq_ok.2 ((Nat.mod_le ..).trans ?_)
      rw [hw.maxOffset, lastEnd, h]
      exact le_refl _
  obtain ⟨vim', heq, hw'⟩ := addEntriesLoop_spec (n := 0) qs.length (le_refl _) hw ha
  have hnum : vim'.numEntries = vim.numEntries + qs.length := by
    rw [VdevIndirectMapping.numEntries, VdevIndirectMapping.numEntries, hw'.entries, hw.entries, length_map, length_map,
      length_append]
  have hpos := length_pos_of_ne_nil hne
  rw [vdevIndirectMappingAddEntries, hverify, ok_bind, ASSERT_bind hne, heq, ok_bind, ASSERT_bind (by dsimp only; omega),
    ASSERT_bind (by dsimp only; omega)]
  exact ⟨vim', rfl, hw'⟩

end

variable {sci : Sci}

section

/-- An entry that is not fully obsolete. -/
def VimeEntry.live (e : VimeEntry) : Bool :=
  e.vimeObsoleteCount < e.vimeMapping.asize

variable (c : CondenseInput)

/-- The entries of the old mapping with their counts. -/
def CondenseInput.entries : List VimeEntry :=
  List.zipWith VimeEntry.mk c.oldMapping.vimEntries c.obsoleteCounts

/-- The entries to keep of the first `i`. -/
def CondenseInput.keep (i : Nat) : List VimeEntry :=
  (c.entries.take i).filter VimeEntry.live

/-- The entries to keep. -/
def CondenseInput.kept : List VimeEntry :=
  c.entries.filter VimeEntry.live

variable {c}

lemma CondenseInput.keep_prefix (i : Nat) : c.keep i <+: c.kept :=
  (List.take_prefix i c.entries).filter _

lemma CondenseInput.length_entries : c.entries.length = c.oldMapping.vimEntries.length := by
  rw [entries, length_zipWith, c.length_eq, Nat.min_self]

variable {i : Nat}

lemma CondenseInput.keep_all (h : c.oldMapping.vimEntries.length ≤ i) : c.keep i = c.kept := by
  rw [keep, take_of_length_le (by rw [length_entries]; exact h), kept]

lemma CondenseInput.entries_getElem? (h : c.entries[i]? = some e) :
    c.oldMapping.vimEntries[i]? = some e.vimeMapping ∧ c.obsoleteCounts[i]? = some e.vimeObsoleteCount := by
  rw [entries, getElem?_zipWith_eq_some] at h
  obtain ⟨m, n, hm, hn, rfl⟩ := h
  exact ⟨hm, hn⟩

lemma CondenseInput.entries_count_le (h : c.entries[i]? = some e) : e.vimeObsoleteCount ≤ e.vimeMapping.asize :=
  c.count_le (e.vimeMapping, e.vimeObsoleteCount) (mem_iff_getElem?.2 ⟨i, getElem?_zip_eq_some.2 (c.entries_getElem? h)⟩)

lemma CondenseInput.kept_appendable : Appendable c.kept := by
  refine ⟨List.Pairwise.filter _ ?_, fun e he => of_decide_eq_true (mem_filter.1 he).2⟩
  refine pairwise_iff_getElem.2 fun i j hi hj hij => ?_
  obtain ⟨hi', -⟩ := c.entries_getElem? (getElem?_eq_getElem hi)
  obtain ⟨hj', -⟩ := c.entries_getElem? (getElem?_eq_getElem hj)
  exact c.oldMapping.end_le_src hi' hj' hij

/-- A prefix of a filtered list ends at some place of the list. -/
lemma exists_index_of_prefix_filter {α : Type} {p : α → Bool} {q : α} (l : List α) :
    ∀ {ps : List α}, ps ++ [q] <+: l.filter p → ∃ k, l[k]? = some q ∧ (l.take (k + 1)).filter p = ps ++ [q] := by
  induction l with
  | nil =>
    intro ps h
    exact absurd (prefix_nil.1 h) (by simp)
  | cons a l ih =>
    intro ps h
    by_cases ha : p a
    · rw [filter_cons_of_pos ha] at h
      cases ps with
      | nil =>
        obtain ⟨rfl, -⟩ := cons_prefix_cons.1 h
        exact ⟨0, rfl, by simp [ha]⟩
      | cons b ps =>
        obtain ⟨rfl, h'⟩ := cons_prefix_cons.1 h
        obtain ⟨k, hk, htake⟩ := ih h'
        refine ⟨k + 1, hk, ?_⟩
        rw [take_succ_cons, filter_cons_of_pos ha, htake, cons_append]
    · rw [filter_cons_of_neg ha] at h
      obtain ⟨k, hk, htake⟩ := ih h
      refine ⟨k + 1, hk, ?_⟩
      rw [take_succ_cons, filter_cons_of_neg ha, htake]

/-- From the end of the `k`-th entry the lookup finds the next one. -/
lemma next_after_entry {vim : SortedMapping} (hpos : ∀ e ∈ vim.vimEntries, 0 < e.asize) {k : Nat} {e : VimEntry}
    (hk : vim.vimEntries[k]? = some e) {r : Option Nat} (h : FoundOrNextAt vim (e.srcOffset + e.asize) r) :
    r = if k + 1 < vim.vimEntries.length then some (k + 1) else none := by
  -- the next entry starts at the offset or after it
  have hnext : ∀ f, vim.vimEntries[k + 1]? = some f → e.srcOffset + e.asize ≤ f.srcOffset ∧ 0 < f.asize :=
    fun f hf => ⟨vim.end_le_src hk hf (Nat.lt_succ_self k), hpos f (mem_of_getElem? hf)⟩
  have hafter : ∀ i f, vim.vimEntries[i]? = some f → e.srcOffset + e.asize < f.srcOffset + f.asize → k < i := by
    intro i f hf hlt
    by_contra hle
    rcases Nat.lt_or_eq_of_le (Nat.le_of_not_lt hle) with hlt' | rfl
    · have := vim.end_le_src hf hk hlt'
      omega
    · rw [hk] at hf
      cases hf
      omega
  by_cases hlen : k + 1 < vim.vimEntries.length
  · rw [if_pos hlen]
    obtain ⟨f, hf⟩ : ∃ f, vim.vimEntries[k + 1]? = some f := ⟨_, getElem?_eq_getElem hlen⟩
    obtain ⟨hflo, hfpos⟩ := hnext f hf
    cases r with
    | none =>
      have := h.2 f (mem_of_getElem? hf)
      exact absurd ⟨by omega, by omega⟩ (h.1 f (mem_of_getElem? hf))
    | some i =>
      refine congrArg some ?_
      rcases h with ⟨m, hm, ⟨hmlo, hmhi⟩, -⟩ | ⟨hno, m, hm, hmlo, hbefore⟩
      · have hki := hafter i m hm hmhi
        by_contra hne
        have := vim.end_le_src hf hm (by omega)
        omega
      · have hki := hafter i m hm (by omega)
        by_contra hne
        have := hbefore (k + 1) f hf (by omega)
        exact absurd ⟨by omega, by omega⟩ (hno f (mem_of_getElem? hf))
  · rw [if_neg hlen]
    cases r with
    | none => rfl
    | some i =>
      have hki : k < i ∧ i < vim.vimEntries.length := by
        rcases h with ⟨m, hm, ⟨_, hmhi⟩, -⟩ | ⟨_, m, hm, hmlo, -⟩
        · exact ⟨hafter i m hm hmhi, (List.getElem?_eq_some_iff.1 hm).1⟩
        · exact ⟨hafter i m hm (by omega), (List.getElem?_eq_some_iff.1 hm).1⟩
      omega

/-- **The place to resume** is where the entries of the new mapping end. -/
theorem condenseThread_spec {ps : List VimeEntry} (hd : sci.Drained) (hw : Written sci.sciNewMapping ps) (hp : ps <+: c.kept) :
    ∃ i, spaCondenseIndirectThread c sci = .ok i ∧ c.keep i = ps := by
  rw [spaCondenseIndirectThread, ASSERT_bind hd, hw.maxOffset]
  rcases eq_nil_or_concat' ps with rfl | ⟨ps', q, rfl⟩
  · exact ⟨0, if_pos rfl, rfl⟩
  · obtain ⟨k, hk, htake⟩ := exists_index_of_prefix_filter c.entries hp
    obtain ⟨hold, -⟩ := c.entries_getElem? hk
    have hlive := c.kept_appendable.live q (hp.subset (by simp))
    have hfirst : ∀ f, c.oldMapping.vimEntries[0]? = some f → f.srcOffset ≤ q.vimeMapping.srcOffset + q.vimeMapping.asize := by
      intro f hf
      rcases Nat.eq_zero_or_pos k with rfl | hk0
      · rw [hold] at hf
        cases hf
        omega
      · have := c.oldMapping.end_le_src hf hold hk0
        omega
    obtain ⟨-, r, hr, hfound⟩ := entryForOffset_spec (ne_nil_of_mem (mem_of_getElem? hold)) hfirst
    rw [lastEnd_append_singleton, if_neg (by omega), hr, ok_bind, next_after_entry c.nonempty hold hfound]
    by_cases hlen : k + 1 < c.oldMapping.vimEntries.length
    · rw [if_pos hlen, startIndexOf, ASSERT_bind (show k + 1 < c.oldMapping.numEntries from hlen)]
      exact ⟨k + 1, rfl, htake⟩
    · rw [if_neg hlen, startIndexOf]
      have hmem := c.oldMapping.inMemory
      refine ⟨_, rfl, ?_⟩
      rw [c.keep_all (by omega), ← c.keep_all (Nat.le_of_not_lt hlen)]
      exact htake

end

section
variable {c : CondenseInput} {lists : Nat → TxgList} {synced opened : Nat} {ps : List VimeEntry}

/-- The entries that wait for the transaction group. -/
def waiting (lists : Nat → TxgList) (txg : Nat) : List VimeEntry :=
  (lists (txg % 4)).entries

/-- The entries that are not synced yet. -/
def pending (lists : Nat → TxgList) (synced : Nat) : List VimeEntry :=
  waiting lists (synced + 1) ++ (waiting lists (synced + 2) ++ waiting lists (synced + 3))

/-- Four lists serve the three transaction groups not synced. -/
structure ListsOk (lists : Nat → TxgList) (synced opened : Nat) : Prop where
  synced_lt : synced < opened
  open_le : opened ≤ synced + 3
  task : ∀ i, (lists i).syncTask = !(lists i).entries.isEmpty
  unused : ∀ txg, opened < txg → txg ≤ synced + 4 → waiting lists txg = []

/-- Where the thread is in the entries to keep, of which `ps` are synced. -/
def ThreadAt (c : CondenseInput) (ps : List VimeEntry) (lists : Nat → TxgList) (synced opened : Nat) : CondenseThread → Prop
  | .idle => ps ++ pending lists synced <+: c.kept
  | .running mapi => ps ++ pending lists synced = c.keep mapi
  | .completing txg => synced < txg ∧ txg ≤ opened ∧ ps ++ pending lists synced = c.kept ∧
      ∀ u, txg < u → u ≤ synced + 3 → waiting lists u = []
  | .complete => ps = c.kept ∧ pending lists synced = []

/-- Invariant of the system: `ps` is what the new mapping has. -/
structure Condensing (c : CondenseInput) (ps : List VimeEntry) (s : CondenseState) : Prop where
  written : Written s.sci.sciNewMapping ps
  lists : ListsOk s.sci.sciNewMappingEntries s.syncedTxg s.openTxg
  thread : ThreadAt c ps s.sci.sciNewMappingEntries s.syncedTxg s.openTxg s.thread

/-- What is written and what waits is a prefix of the result. -/
lemma ThreadAt.written_prefix {t : CondenseThread} (h : ThreadAt c ps lists synced opened t) : ps ++ pending lists synced <+: c.kept := by
  cases t with
  | idle => exact h
  | running mapi =>
    rw [show ps ++ pending lists synced = c.keep mapi from h]
    exact c.keep_prefix mapi
  | completing txg =>
    rw [h.2.2.1]
  | complete =>
    rw [h.2, append_nil, h.1]

lemma pending_of_waiting_nil (h : ∀ txg, synced < txg → txg ≤ synced + 3 → waiting lists txg = []) : pending lists synced = [] := by
  rw [pending, h _ (by omega) (by omega), h _ (by omega) (by omega), h _ (by omega) (by omega)]
  rfl

lemma Sci.Drained.pending_nil (h : sci.Drained) (synced : Nat) : pending sci.sciNewMappingEntries synced = [] :=
  pending_of_waiting_nil fun txg _ _ => h _ (Nat.mod_lt txg (by decide))

lemma waiting_update_same (lists : Nat → TxgList) (txg : Nat) (l : TxgList) :
    waiting (update lists (txg % 4) l) txg = l.entries := by
  rw [waiting, update_self]

lemma waiting_update_ne {txg u : Nat} (l : TxgList) (h : u % 4 ≠ txg % 4) :
    waiting (update lists (txg % 4) l) u = waiting lists u := by
  rw [waiting, update_of_ne h]
  rfl

lemma ListsOk.commit (h : ListsOk lists synced opened) (e : VimeEntry) :
    let lists' := update lists (opened % 4)
      ⟨(lists (opened % 4)).entries ++ [e], (lists (opened % 4)).syncTask || (lists (opened % 4)).entries.isEmpty⟩
    ListsOk lists' synced opened ∧ pending lists' synced = pending lists synced ++ [e] := by
  intro lists'
  have hlt := h.synced_lt
  have hle := h.open_le
  have hsame : waiting lists' opened = waiting lists opened ++ [e] := waiting_update_same ..
  have hother : ∀ u, u % 4 ≠ opened % 4 → waiting lists' u = waiting lists u := fun u hu => waiting_update_ne _ hu
  refine ⟨⟨hlt, hle, fun i => ?_, fun txg h1 h2 => ?_⟩, ?_⟩
  · by_cases hi : i = opened % 4
    · subst hi
      simp only [lists', update_self, h.task]
      cases (lists (opened % 4)).entries <;> rfl
    · simp only [lists', update_of_ne hi]
      exact h.task i
  · rw [hother txg (by omega)]
    exact h.unused txg h1 h2
  · -- the groups after the open one have no entries yet
    have hcases : opened = synced + 1 ∨ opened = synced + 2 ∨ opened = synced + 3 := by omega
    rw [pending, pending]
    rcases hcases with rfl | rfl | rfl
    · rw [hsame, hother _ (by omega), hother _ (by omega), h.unused (synced + 2) (by omega) (by omega),
        h.unused (synced + 3) (by omega) (by omega)]
      simp only [append_nil]
    · rw [hsame, hother _ (by omega), hother _ (by omega), h.unused (synced + 3) (by omega) (by omega)]
      simp only [append_nil, append_assoc]
    · rw [hsame, hother _ (by omega), hother _ (by omega)]
      simp only [append_assoc]

/-- **The sync task** of the oldest group appends its entries. -/
theorem syncEntries_spec (hw : Written sci.sciNewMapping ps) (h : ListsOk sci.sciNewMappingEntries synced opened)
    (ha : Appendable (ps ++ waiting sci.sciNewMappingEntries (synced + 1))) (hlt : synced + 1 < opened) :
    ∃ sci', syncEntries sci (synced + 1) = .ok sci' ∧ Written sci'.sciNewMapping (ps ++ waiting sci.sciNewMappingEntries (synced + 1)) ∧
      ListsOk sci'.sciNewMappingEntries (synced + 1) opened ∧
      ∀ u, synced + 1 < u → u ≤ synced + 4 → waiting sci'.sciNewMappingEntries u = waiting sci.sciNewMappingEntries u := by
  have hle := h.open_le
  have htask := h.task ((synced + 1) % 4)
  rw [syncEntries]
  by_cases hnil : waiting sci.sciNewMappingEntries (synced + 1) = []
  · have hnil' : (sci.sciNewMappingEntries ((synced + 1) % 4)).entries = [] := hnil
    rw [hnil'] at htask
    rw [if_neg (by rw [htask]; decide), hnil, append_nil]
    refine ⟨sci, rfl, hw, ⟨hlt, by omega, h.task, fun txg h1 h2 => ?_⟩, fun _ _ _ => rfl⟩
    by_cases heq : txg = synced + 5
    · rw [waiting, heq, show (synced + 5) % 4 = (synced + 1) % 4 by omega]
      exact hnil
    · exact h.unused txg h1 (by omega)
  · have htrue : (sci.sciNewMappingEntries ((synced + 1) % 4)).syncTask = true := by
      rw [htask, Bool.not_eq_true', isEmpty_eq_false_iff]
      exact hnil
    obtain ⟨vim, heq, hw'⟩ := addEntries_spec hw ha hnil
    rw [waiting] at heq
    rw [if_pos htrue, spaCondenseIndirectCommitSync, heq, ok_bind]
    refine ⟨_, rfl, hw', ⟨hlt, by omega, fun i => ?_, fun txg h1 h2 => ?_⟩, fun u h1 h2 => waiting_update_ne _ (by omega)⟩
    · dsimp only
      by_cases hi : i = (synced + 1) % 4
      · subst hi
        rw [update_self]
        rfl
      · rw [update_of_ne hi]
        exact h.task i
    · dsimp only
      by_cases heq : txg = synced + 5
      · rw [waiting, heq, show (synced + 5) % 4 = (synced + 1) % 4 by omega, update_self]
      · rw [waiting_update_ne _ (by omega)]
        exact h.unused txg h1 (by omega)

end

section
variable {c : CondenseInput} {s : CondenseState} {ps : List VimeEntry}

/-- An entry of the old mapping is committed or dropped. -/
lemma Condensing.entry (h : Condensing c ps s) {mapi : Nat} (hrun : s.thread = .running mapi) (hlt : mapi < c.oldMapping.numEntries) :
    ∃ sci, generateEntry c s.sci s.openTxg mapi = .ok sci ∧ Condensing c ps { s with sci := sci, thread := .running (mapi + 1) } := by
  have hlen : mapi < c.entries.length := by
    rw [c.length_entries]
    exact hlt
  have hget : c.entries[mapi]? = some c.entries[mapi] := getElem?_eq_getElem hlen
  generalize c.entries[mapi] = e at hget
  obtain ⟨hold, hcount⟩ := c.entries_getElem? hget
  have hle := c.entries_count_le hget
  have hkeep : c.keep (mapi + 1) = c.keep mapi ++ [e].filter VimeEntry.live := by
    rw [CondenseInput.keep, take_add_one, hget, filter_append]
    rfl
  have hthread := h.thread
  rw [hrun] at hthread
  have hat : ps ++ pending s.sci.sciNewMappingEntries s.syncedTxg = c.keep mapi := hthread
  have hc : countAt c mapi = .ok e.vimeObsoleteCount := by rw [countAt, hcount]
  rw [generateEntry, entryAt_some hold, ok_bind, hc, ok_bind, ASSERT_bind hle]
  by_cases hlive : e.vimeObsoleteCount < e.vimeMapping.asize
  · obtain ⟨hlists, hpending⟩ := h.lists.commit e
    rw [if_pos hlive, spaCondenseIndirectCommitEntry, ASSERT_bind hlive]
    refine ⟨_, rfl, h.written, hlists, ?_⟩
    have hl : e.live = true := decide_eq_true hlive
    show ps ++ pending _ s.syncedTxg = c.keep (mapi + 1)
    rw [hpending, ← append_assoc, hat, hkeep, filter_cons_of_pos hl, filter_nil]
  · rw [if_neg hlive]
    refine ⟨s.sci, rfl, h.written, h.lists, ?_⟩
    show ps ++ pending _ s.syncedTxg = c.keep (mapi + 1)
    rw [hat, hkeep, filter_cons_of_neg (by simpa [VimeEntry.live] using hlive), filter_nil, append_nil]

lemma Condensing.sync (h : Condensing c ps s) (hlt : s.syncedTxg + 1 < s.openTxg) :
    ∃ s' ps', condenseStep c s .sync = .ok s' ∧ Condensing c ps' s' := by
  have hprefix := h.thread.written_prefix
  have ha : Appendable (ps ++ waiting s.sci.sciNewMappingEntries (s.syncedTxg + 1)) := by
    refine c.kept_appendable.of_prefix (List.IsPrefix.trans ?_ hprefix)
    rw [pending, ← append_assoc]
    exact prefix_append ..
  obtain ⟨sci', heq, hw', hlists', hwait⟩ := syncEntries_spec h.written h.lists ha hlt
  have hlast : waiting sci'.sciNewMappingEntries (s.syncedTxg + 4) = [] := by
    rw [hwait _ (by omega) (by omega)]
    exact h.lists.unused _ (by have := h.lists.open_le; omega) (by omega)
  have hpending : ps ++ waiting s.sci.sciNewMappingEntries (s.syncedTxg + 1) ++ pending sci'.sciNewMappingEntries (s.syncedTxg + 1) =
      ps ++ pending s.sci.sciNewMappingEntries s.syncedTxg := by
    rw [pending, pending, hlast, append_nil, hwait _ (by omega) (by omega), hwait _ (by omega) (by omega), append_assoc]
  rw [condenseStep, if_pos hlt, heq, ok_bind]
  by_cases hcomp : s.thread = .completing (s.syncedTxg + 1)
  · -- no entry was committed after the completing task
    have hthread := h.thread
    rw [hcomp] at hthread
    obtain ⟨-, -, hall, hnone⟩ := hthread
    have hnil : ∀ u, s.syncedTxg + 1 < u → u ≤ s.syncedTxg + 4 → waiting sci'.sciNewMappingEntries u = [] := by
      intro u h1 h2
      by_cases hu : u = s.syncedTxg + 4
      · rw [hu]
        exact hlast
      · rw [hwait u h1 h2]
        exact hnone u h1 (by omega)
    have hfirst : waiting sci'.sciNewMappingEntries (s.syncedTxg + 5) = [] := hlists'.unused _ (by have := h.lists.open_le; omega) (by omega)
    have hdrained : sci'.Drained := by
      intro i hi
      obtain ⟨u, h1, h2, rfl⟩ : ∃ u, s.syncedTxg + 1 < u ∧ u ≤ s.syncedTxg + 5 ∧ u % 4 = i :=
        ⟨s.syncedTxg + 2 + (i + 4 * (s.syncedTxg + 2) - (s.syncedTxg + 2)) % 4, by omega, by omega, by omega⟩
      by_cases hu : u = s.syncedTxg + 5
      · rw [hu]
        exact hfirst
      · exact hnil u h1 (by omega)
    rw [syncComplete, if_pos hcomp, spaCondenseIndirectCompleteSync, ASSERT_bind hdrained, ok_bind]
    refine ⟨_, _, rfl, hw', hlists', ?_⟩
    have hpend := hdrained.pending_nil (s.syncedTxg + 1)
    rw [hpend, append_nil] at hpending
    exact ⟨hpending.trans hall, hpend⟩
  · rw [syncComplete, if_neg hcomp, ok_bind]
    refine ⟨_, _, rfl, hw', hlists', ?_⟩
    dsimp only
    have hthread := h.thread
    cases ht : s.thread with
    | idle =>
      rw [ht] at hthread
      show _ <+: _
      rw [hpending]
      exact hthread
    | running mapi =>
      rw [ht] at hthread
      exact hpending.trans hthread
    | completing txg =>
      rw [ht] at hthread hcomp
      obtain ⟨h1, h2, h3, h4⟩ := hthread
      have hne : txg ≠ s.syncedTxg + 1 := fun heq => hcomp (by rw [heq])
      refine ⟨by omega, h2, hpending.trans h3, fun u hu1 hu2 => ?_⟩
      by_cases hu : u = s.syncedTxg + 4
      · rw [hu]
        exact hlast
      · rw [hwait u (by omega) (by omega)]
        exact h4 u hu1 (by omega)
    | complete =>
      rw [ht] at hthread
      obtain ⟨hps, hpend⟩ := hthread
      rw [hpend, append_nil] at hpending
      have hnil := append_eq_nil_iff.1 hpend
      rw [hnil.1, append_nil] at hpending ⊢
      exact ⟨hps, append_cancel_left (hpending.trans (append_nil ps).symm)⟩

/-- **Step.** Every event keeps the invariant, and no check fails. -/
theorem Condensing.step (h : Condensing c ps s) (ev : CondenseEvent) : ∃ s' ps', condenseStep c s ev = .ok s' ∧ Condensing c ps' s' := by
  cases ev with
  | start =>
    rw [condenseStep]
    by_cases hstart : s.thread = .idle ∧ s.sci.Drained
    · obtain ⟨hidle, hdrained⟩ := hstart
      have hthread := h.thread.written_prefix
      have hpend := hdrained.pending_nil s.syncedTxg
      rw [hpend, append_nil] at hthread
      obtain ⟨i, hi, hkeep⟩ := condenseThread_spec hdrained h.written hthread
      rw [if_pos ⟨hidle, hdrained⟩, hi, ok_bind]
      refine ⟨_, ps, rfl, h.written, h.lists, ?_⟩
      show ps ++ pending _ s.syncedTxg = c.keep i
      rw [hpend, append_nil, hkeep]
    · rw [if_neg hstart]
      exact ⟨s, ps, rfl, h⟩
  | entry =>
    rw [condenseStep]
    cases hrun : s.thread with
    | running mapi =>
      dsimp only
      by_cases hlt : mapi < c.oldMapping.numEntries
      · obtain ⟨sci, heq, h'⟩ := h.entry hrun hlt
        rw [if_pos hlt, heq]
        exact ⟨_, ps, rfl, h'⟩
      · rw [if_neg hlt]
        exact ⟨s, ps, rfl, h⟩
    | _ => exact ⟨s, ps, rfl, h⟩
  | cancel =>
    rw [condenseStep]
    cases hrun : s.thread with
    | running mapi => exact ⟨_, ps, rfl, h.written, h.lists, h.thread.written_prefix⟩
    | _ => exact ⟨s, ps, rfl, h⟩
  | finish =>
    rw [condenseStep]
    cases hrun : s.thread with
    | running mapi =>
      dsimp only
      by_cases hlt : mapi < c.oldMapping.numEntries
      · rw [if_pos hlt]
        exact ⟨s, ps, rfl, h⟩
      · rw [if_neg hlt]
        have hthread := h.thread
        rw [hrun] at hthread
        have hall : ps ++ pending _ s.syncedTxg = c.keep mapi := hthread
        rw [c.keep_all (Nat.le_of_not_lt hlt)] at hall
        exact ⟨_, ps, rfl, h.written, h.lists, h.lists.synced_lt, le_refl _, hall, fun u h1 h2 => h.lists.unused u h1 (Nat.le_succ_of_le h2)⟩
    | _ => exact ⟨s, ps, rfl, h⟩
  | openNext =>
    rw [condenseStep]
    by_cases hlt : s.openTxg < s.syncedTxg + 3
    · rw [if_pos hlt]
      have hsynced := h.lists.synced_lt
      refine ⟨_, ps, rfl, h.written, ⟨by dsimp only; omega, hlt, h.lists.task, fun txg h1 => h.lists.unused txg (Nat.lt_of_succ_lt h1)⟩, ?_⟩
      have hthread := h.thread
      dsimp only
      cases ht : s.thread <;> rw [ht] at hthread
      case completing txg => exact ⟨hthread.1, Nat.le_succ_of_le hthread.2.1, hthread.2.2⟩
      all_goals exact hthread
    · rw [if_neg hlt]
      exact ⟨s, ps, rfl, h⟩
  | sync =>
    by_cases hlt : s.syncedTxg + 1 < s.openTxg
    · exact h.sync hlt
    · rw [condenseStep, if_neg hlt]
      exact ⟨s, ps, rfl, h⟩
  | crash =>
    rw [condenseStep]
    by_cases hcomp : s.thread = .complete
    · rw [if_pos hcomp]
      exact ⟨s, ps, rfl, h⟩
    · rw [if_neg hcomp]
      refine ⟨_, ps, rfl, h.written, ⟨Nat.lt_succ_self _, by dsimp only; omega, fun _ => rfl, fun _ _ _ => rfl⟩, ?_⟩
      show ps ++ [] <+: c.kept
      rw [append_nil]
      exact (prefix_append ps _).trans h.thread.written_prefix

/-- **Run.** -/
theorem Condensing.run (evs : List CondenseEvent) :
    ∀ {s : CondenseState} {ps : List VimeEntry}, Condensing c ps s → ∃ s' ps', condenseRun c s evs = .ok s' ∧ Condensing c ps' s' := by
  induction evs with
  | nil => exact fun {s ps} h => ⟨s, ps, rfl, h⟩
  | cons ev evs ih =>
    intro s ps h
    obtain ⟨s1, ps1, heq, h1⟩ := h.step ev
    obtain ⟨s2, ps2, heq2, h2⟩ := ih h1
    refine ⟨s2, ps2, ?_, h2⟩
    rw [condenseRun, heq]
    exact heq2

lemma Condensing.init (c : CondenseInput) (txg : Nat) : Condensing c [] (.init txg) :=
  ⟨⟨⟨rfl, rfl, rfl⟩, rfl, rfl⟩, ⟨Nat.lt_succ_self txg, by simp [CondenseState.init], fun _ => rfl, fun _ _ _ => rfl⟩, nil_prefix⟩

lemma CondenseInput.kept_eq (c : CondenseInput) :
    c.kept = (List.zipWith VimeEntry.mk c.oldMapping.vimEntries c.obsoleteCounts).filter
      fun e => e.vimeObsoleteCount ≠ e.vimeMapping.asize := by
  refine filter_congr fun e he => ?_
  obtain ⟨i, hi⟩ := mem_iff_getElem?.1 he
  have hle := c.entries_count_le hi
  rw [VimeEntry.live, decide_eq_decide]
  exact ⟨Nat.ne_of_lt, lt_of_le_of_ne hle⟩

/-- **Condensing**, however often it is interrupted, does not fail, and completes with exactly the entries that are
not fully obsolete. -/
theorem condense_exact (c : CondenseInput) (txg : Nat) (evs : List CondenseEvent) :
    ∃ s, condenseRun c (.init txg) evs = .ok s ∧ (s.thread = .complete →
      let kept := (List.zipWith VimeEntry.mk c.oldMapping.vimEntries c.obsoleteCounts).filter
        fun e => e.vimeObsoleteCount ≠ e.vimeMapping.asize
      s.sci.sciNewMapping.vimEntries = kept.map (·.vimeMapping) ∧ s.sci.sciNewMapping.vimpCounts = kept.map (·.vimeObsoleteCount) ∧
        s.sci.sciNewMapping.vimpBytesMapped = (kept.map (·.vimeMapping.asize)).sum ∧ s.sci.sciNewMapping.vimpMaxOffset = lastEnd kept) := by
  obtain ⟨s, ps, heq, h⟩ := (Condensing.init c txg).run evs
  refine ⟨s, heq, fun hcomp => ?_⟩
  have hthread := h.thread
  rw [hcomp] at hthread
  obtain ⟨rfl, -⟩ := hthread
  intro kept
  have hkept : c.kept = kept := c.kept_eq
  rw [← hkept]
  exact ⟨h.written.entries, h.written.counts, h.written.bytes, h.written.maxOffset⟩

/-- The first entry is obsolete. -/
def gapInput : CondenseInput := ⟨gapMapping, [512, 100], by decide, rfl, by decide⟩

/-- The second entry is lost in a crash and copied again. -/
theorem condense_exact_crash : ∃ s,
    condenseRun gapInput (.init 7) [.start, .entry, .entry, .crash, .start, .entry, .entry, .finish, .openNext, .sync] = .ok s ∧
    s.thread = .complete ∧ s.sci.sciNewMapping.vimEntries = [⟨2048, 1, 512, 1024⟩] ∧ s.sci.sciNewMapping.vimpCounts = [100] := by
  obtain ⟨s, hrun, hexact⟩ := condense_exact gapInput 7
    [.start, .entry, .entry, .crash, .start, .entry, .entry, .finish, .openNext, .sync]
  have hcomp : s.thread = .complete := by
    have hthread : (condenseRun gapInput (.init 7)
        [.start, .entry, .entry, .crash, .start, .entry, .entry, .finish, .openNext, .sync]).map (·.thread) = .ok .complete := by
      decide +kernel
    rw [hrun] at hthread
    exact Except.ok.inj hthread
  exact ⟨s, hrun, hcomp, (hexact hcomp).1.trans (by decide +kernel), (hexact hcomp).2.1.trans (by decide +kernel)⟩

end

end Unleashed.Zfs
