import Unleashed.Zfs.Bpobj.Account
import Unleashed.Zfs.Deadlist.Basic

/-!
# What a deadlist stores

Every operation changes one entry of the tree or drops some: `TreeSound.replace` says what a change keeps.
-/

namespace Unleashed.Zfs

open Lib Multiset DslDeadlist DslDeadlistEntry List Except

/-- The block pointers under a key. -/
def DslDeadlistEntry.reach (dle : DslDeadlistEntry) : List Blkptr := (dle.dleBpobj.getD bpobjAlloc).reach

/-- The block pointers of the entries. -/
def storedBps (tree : List DslDeadlistEntry) : List Blkptr := tree.flatMap reach

def DslDeadlist.totals (dl : DslDeadlist) : Totals := (dl.dlUsed, dl.dlComp, dl.dlUncomp)

/-- Every block pointer is under the last key below its birth. -/
structure Bucketed (tree : List DslDeadlistEntry) : Prop where
  above : ∀ dle ∈ tree, ∀ bp ∈ dle.reach, dle.dleMintxg < bp.blkBirth
  apart : tree.Pairwise fun dle next => dle.dleMintxg < next.dleMintxg ∧ ∀ bp ∈ dle.reach, bp.blkBirth ≤ next.dleMintxg

/-- The buckets hold sound objects. -/
structure TreeSound (spa : Spa) (tree : List DslDeadlistEntry) : Prop extends Bucketed tree where
  tops : ∀ dle ∈ tree, (dle.dleBpobj.getD bpobjAlloc).Top spa

/-- **The invariant of a deadlist.** -/
structure DslDeadlist.Sound (spa : Spa) (dl : DslDeadlist) : Prop extends TreeSound spa dl.dlTree where
  totals_eq : dl.totals = sumTotals spa (storedBps dl.dlTree)

/-- What `dmu_object_info` says: one block has no more sub-objects than fit. -/
def FitsBlock (oneBlock : Nat → Bpobj → Bool) : Prop :=
  ∀ key obj, oneBlock key obj = true → obj.phys.bpoNumSubobjs ≤ subobjEpb

section
variable {spa : Spa} {oneBlock : Nat → Bpobj → Bool} {tree pre post : List DslDeadlistEntry} {dle dle' : DslDeadlistEntry}

@[simp] lemma storedBps_nil : storedBps [] = [] := rfl

@[simp] lemma storedBps_cons (dle : DslDeadlistEntry) (tree : List DslDeadlistEntry) :
    storedBps (dle :: tree) = dle.reach ++ storedBps tree := flatMap_cons

@[simp] lemma storedBps_append (tree tree' : List DslDeadlistEntry) :
    storedBps (tree ++ tree') = storedBps tree ++ storedBps tree' := flatMap_append

lemma sumTotals_perm {bps bps' : List Blkptr} (h : bps.Perm bps') : sumTotals spa bps = sumTotals spa bps' :=
  (h.map _).sum_eq

lemma TreeSound.sublist {tree' : List DslDeadlistEntry} (h : TreeSound spa tree) (hsub : tree'.Sublist tree) :
    TreeSound spa tree' :=
  ⟨⟨fun e he => h.above e (hsub.subset he), h.apart.sublist hsub⟩, fun e he => h.tops e (hsub.subset he)⟩

/-- **An entry that gets more block pointers** keeps the buckets. -/
theorem TreeSound.replace (h : TreeSound spa (pre ++ dle :: post)) (hkey : dle'.dleMintxg = dle.dleMintxg)
    (htop : (dle'.dleBpobj.getD bpobjAlloc).Top spa) (new : List Blkptr) (hreach : dle'.reach.Perm (dle.reach ++ new))
    (hnew : ∀ bp ∈ new, dle.dleMintxg < bp.blkBirth ∧ ∀ next ∈ post, bp.blkBirth ≤ next.dleMintxg) :
    TreeSound spa (pre ++ dle' :: post) ∧ (storedBps (pre ++ dle' :: post)).Perm (storedBps (pre ++ dle :: post) ++ new) := by
  have hmem : ∀ bp ∈ dle'.reach, bp ∈ dle.reach ∨ bp ∈ new := fun bp hbp => mem_append.1 (hreach.subset hbp)
  obtain ⟨hpre, hrest, hcross⟩ := pairwise_append.1 h.apart
  obtain ⟨hdle, hpost⟩ := pairwise_cons.1 hrest
  refine ⟨⟨⟨fun e he bp hbp => ?_, ?_⟩, fun e he => ?_⟩, ?_⟩
  · rcases mem_append.1 he with he | he
    · exact h.above e (mem_append_left _ he) bp hbp
    · rcases mem_cons.1 he with rfl | he
      · rw [hkey]
        rcases hmem bp hbp with hold | hin
        · exact h.above dle (by simp) bp hold
        · exact (hnew bp hin).1
      · exact h.above e (by simp [he]) bp hbp
  · refine pairwise_append.2 ⟨hpre, pairwise_cons.2 ⟨fun next hnext => ⟨?_, fun bp hbp => ?_⟩, hpost⟩, ?_⟩
    · rw [hkey]; exact (hdle next hnext).1
    · rcases hmem bp hbp with hold | hin
      · exact (hdle next hnext).2 bp hold
      · exact (hnew bp hin).2 next hnext
    · intro e he next hnext
      rcases mem_cons.1 hnext with rfl | hnext
      · rw [hkey]; exact hcross e he dle mem_cons_self
      · exact hcross e he next (mem_cons_of_mem _ hnext)
  · rcases mem_append.1 he with he | he
    · exact h.tops e (mem_append_left _ he)
    · rcases mem_cons.1 he with rfl | he
      · exact htop
      · exact h.tops e (by simp [he])
  · simp only [storedBps_append, storedBps_cons, append_assoc]
    refine List.Perm.append_left _ ((hreach.append_right _).trans ?_)
    rw [append_assoc]
    exact List.Perm.append_left _ perm_append_comm

/-- **`avl_find`** splits the tree at a key. -/
theorem dlTreeFind_spec (h : tree.Pairwise fun dle next => dle.dleMintxg < next.dleMintxg) (key : Nat) :
    ∃ before dle after, dlTreeFind tree key = (before, dle, after) ∧ tree = before ++ (dle.toList ++ after) ∧
      (∀ e ∈ before, e.dleMintxg < key) ∧ (∀ e ∈ dle, e.dleMintxg = key) ∧ ∀ e ∈ after, key < e.dleMintxg := by
  unfold dlTreeFind
  rw [span_eq_takeWhile_dropWhile]
  have hsplit := takeWhile_append_dropWhile (p := fun e : DslDeadlistEntry => decide (e.dleMintxg < key)) (l := tree)
  have hbefore : ∀ e ∈ tree.takeWhile (fun e => decide (e.dleMintxg < key)), e.dleMintxg < key :=
    fun e he => by simpa using mem_takeWhile_imp he
  have hhead := head?_dropWhile_not (fun e : DslDeadlistEntry => decide (e.dleMintxg < key)) tree
  generalize tree.takeWhile (fun e => decide (e.dleMintxg < key)) = before at hsplit hbefore ⊢
  generalize tree.dropWhile (fun e => decide (e.dleMintxg < key)) = rest at hsplit hhead ⊢
  subst hsplit
  cases rest with
  | nil => exact ⟨before, none, [], rfl, rfl, hbefore, by simp, by simp⟩
  | cons e rest =>
    have hge : key ≤ e.dleMintxg := by simpa using hhead
    have hsorted := (pairwise_cons.1 (pairwise_append.1 h).2.1).1
    dsimp only
    split
    next heq =>
      refine ⟨before, some e, rest, rfl, rfl, hbefore, fun e' he' => ?_, fun e' he' => ?_⟩
      · cases he'; exact heq
      · have := hsorted e' he'; omega
    next hne =>
      refine ⟨before, none, e :: rest, rfl, rfl, hbefore, by simp, fun e' he' => ?_⟩
      rcases mem_cons.1 he' with rfl | he'
      · omega
      · have := hsorted e' he'; omega

lemma onPrevious_concat (pre : List DslDeadlistEntry) (dle : DslDeadlistEntry)
    (change : DslDeadlistEntry → Except Fault DslDeadlistEntry) :
    onPrevious (pre ++ [dle]) change = (do let dle ← change dle; .ok (pre ++ [dle])) := by
  induction pre with
  | nil => rfl
  | cons e pre ih =>
    rw [cons_append, onPrevious, ih]
    · cases change dle <;> rfl
    · simp

lemma onPrevious_returns {before before' : List DslDeadlistEntry} {change : DslDeadlistEntry → Except Fault DslDeadlistEntry}
    (h : onPrevious before change = .ok before') :
    ∃ pre dle dle', before = pre ++ [dle] ∧ change dle = .ok dle' ∧ before' = pre ++ [dle'] := by
  rcases eq_nil_or_concat before with rfl | ⟨pre, dle, rfl⟩
  · cases h
  · rw [concat_eq_append, onPrevious_concat] at h
    obtain ⟨dle', hdle, heq⟩ := bind_returns.1 h
    cases heq
    exact ⟨pre, dle, dle', concat_eq_append, hdle, rfl⟩

end

variable {bp : Blkptr} {bpo : Bpobj} {obj : Option Bpobj}

section
variable {spa : Spa} {oneBlock : Nat → Bpobj → Bool} {dle dle' : DslDeadlistEntry}

/-- **`dle_enqueue`** puts a block pointer under the key. -/
theorem dleEnqueue_spec (htop : (dle.dleBpobj.getD bpobjAlloc).Top spa) (hbp : bpIsHole bp = false) :
    ∃ dle', dleEnqueue spa dle bp = .ok dle' ∧ dle'.dleMintxg = dle.dleMintxg ∧ (dle'.dleBpobj.getD bpobjAlloc).Top spa ∧
      dle'.reach.Perm (dle.reach ++ [storedBp bp]) := by
  obtain ⟨bpo, heq, htop', hreach⟩ := bpobjEnqueue_spec htop hbp
  refine ⟨{ dle with dleBpobj := some bpo }, ?_, rfl, htop', ?_⟩
  · rw [dleEnqueue, heq]; rfl
  · show bpo.reach.Perm _
    rw [hreach]
    exact (perm_append_singleton _ _).symm

/-- **`bpobj_enqueue_subobj`** of the object of an entry. -/
theorem bpobjEnqueueObj_spec (hfits : FitsBlock oneBlock) (htop : bpo.Top spa) (key : Nat)
    (hobj : (obj.getD bpobjAlloc).Top spa) : ∃ bpo', bpobjEnqueueObj oneBlock bpo key obj = .ok bpo' ∧ bpo'.Top spa ∧
      bpo'.reach.Perm (bpo.reach ++ (obj.getD bpobjAlloc).reach) := by
  cases obj with
  | none => exact ⟨bpo, rfl, htop, by rw [show (none.getD bpobjAlloc).reach = [] from rfl, append_nil]⟩
  | some obj => exact bpobjEnqueueSubobj_spec htop hobj (hfits key obj)

/-- **`dle_enqueue_subobj`** puts the block pointers of another object under the key. -/
theorem dleEnqueueSubobj_spec (hfits : FitsBlock oneBlock) (htop : (dle.dleBpobj.getD bpobjAlloc).Top spa) (key : Nat) (hobj : (obj.getD bpobjAlloc).Top spa) :
    ∃ dle', dleEnqueueSubobj oneBlock dle key obj = .ok dle' ∧ dle'.dleMintxg = dle.dleMintxg ∧
      (dle'.dleBpobj.getD bpobjAlloc).Top spa ∧ dle'.reach.Perm (dle.reach ++ (obj.getD bpobjAlloc).reach) := by
  obtain ⟨mintxg, _ | bpo⟩ := dle
  · exact ⟨⟨mintxg, obj⟩, rfl, rfl, hobj, .refl _⟩
  · obtain ⟨bpo', heq, htop', hreach⟩ := bpobjEnqueueObj_spec hfits (show bpo.Top spa from htop) key hobj
    exact ⟨⟨mintxg, some bpo'⟩, by unfold dleEnqueueSubobj; dsimp only; rw [heq]; rfl, rfl, htop', hreach⟩

end

variable {mintxg : Nat}

section
variable {spa : Spa} {oneBlock : Nat → Bpobj → Bool} {dl dl' : DslDeadlist}

lemma Bucketed.sorted {tree : List DslDeadlistEntry} (h : Bucketed tree) :
    tree.Pairwise fun dle next => dle.dleMintxg < next.dleMintxg := h.apart.imp fun hab => hab.1

lemma DslDeadlist.Sound.of_perm (h : dl.Sound spa) (htree : TreeSound spa dl'.dlTree) (new : List Blkptr)
    (hperm : (storedBps dl'.dlTree).Perm (storedBps dl.dlTree ++ new)) (htot : dl'.totals = dl.totals + sumTotals spa new) :
    dl'.Sound spa :=
  ⟨htree, by rw [htot, sumTotals_perm hperm, sumTotals_append, h.totals_eq]⟩

lemma storedBp_birth (bp : Blkptr) : (storedBp bp).blkBirth = bp.blkBirth := by
  unfold storedBp
  split
  · rfl
  · split <;> rfl

/-- **`dsl_deadlist_insert`** stores the block pointer. -/
theorem dslDeadlistInsert_spec (h : dl.Sound spa) (hrun : dslDeadlistInsert spa dl bp = .ok dl') :
    dl'.Sound spa ∧ (storedBps dl'.dlTree).Perm (storedBps dl.dlTree ++ [storedBp bp]) := by
  obtain ⟨before, found, after, hfind, htree, hbefore, hfound, hafter⟩ := dlTreeFind_spec h.sorted bp.blkBirth
  unfold dslDeadlistInsert at hrun
  dsimp only [DslDeadlist.charge] at hrun
  rw [hfind] at hrun
  obtain ⟨before', hprev, heq⟩ := bind_returns.1 hrun
  cases heq
  obtain ⟨pre, dle, dle', rfl, hchange, rfl⟩ := onPrevious_returns hprev
  rw [append_assoc, singleton_append] at htree
  have hsound : TreeSound spa (pre ++ dle :: (found.toList ++ after)) := htree ▸ h.toTreeSound
  have hbp : bpIsHole bp = false := by
    obtain ⟨_, hq, -⟩ := bind_returns.1 hchange
    obtain ⟨_, ha, -⟩ := bind_returns.1 hq
    exact ASSERT_eq_ok.1 ha
  obtain ⟨dle'', hq, hkey, htop, hreach⟩ := dleEnqueue_spec (hsound.tops dle (by simp)) hbp
  rw [hchange, ok.injEq] at hq
  subst hq
  obtain ⟨hsound', hperm⟩ := hsound.replace hkey htop _ hreach (by
    rintro _ hb
    rw [List.mem_singleton.1 hb, storedBp_birth]
    refine ⟨hbefore dle (by simp), fun next hnext => ?_⟩
    rcases mem_append.1 hnext with hin | hin
    · exact (hfound next (by simpa using hin)).ge
    · exact (hafter next hin).le)
  have htree' : pre ++ [dle'] ++ (found.toList ++ after) = pre ++ dle' :: (found.toList ++ after) := by simp
  rw [← htree] at hperm
  have hsum : sumTotals spa [storedBp bp] = bpTotals spa bp := by simp [bpTotals_storedBp]
  refine ⟨h.of_perm ?_ [storedBp bp] ?_ ?_, ?_⟩
  · rw [htree']; exact hsound'
  · show (storedBps (pre ++ [dle'] ++ (found.toList ++ after))).Perm _
    rw [htree']; exact hperm
  · rw [hsum]; rfl
  · show (storedBps (pre ++ [dle'] ++ (found.toList ++ after))).Perm _
    rw [htree']; exact hperm

/-- **`dsl_deadlist_add_key`** opens a bucket for later births. -/
theorem dslDeadlistAddKey_spec (h : dl.Sound spa)
    (hlast : ∀ dle ∈ dl.dlTree, dle.dleMintxg < mintxg ∧ ∀ bp ∈ dle.reach, bp.blkBirth ≤ mintxg) :
    ∃ dl', dslDeadlistAddKey dl mintxg = .ok dl' ∧ dl'.Sound spa ∧ storedBps dl'.dlTree = storedBps dl.dlTree := by
  obtain ⟨before, found, after, hfind, htree, hbefore, hfound, hafter⟩ := dlTreeFind_spec h.sorted mintxg
  have hnone : found = none := by
    cases found with
    | none => rfl
    | some dle =>
      have := (hlast dle (by simp [htree])).1
      have := hfound dle rfl
      omega
  have hnil : after = [] := by
    rw [eq_nil_iff_forall_not_mem]
    intro dle hdle
    have := (hlast dle (by simp [htree, hdle])).1
    have := hafter dle hdle
    omega
  subst hnone hnil
  have hbefore_eq : dl.dlTree = before := by simpa using htree
  have hstored : storedBps (before ++ [⟨mintxg, none⟩]) = storedBps dl.dlTree := by
    rw [storedBps_append, hbefore_eq]
    exact append_nil _
  refine ⟨_, by unfold dslDeadlistAddKey; rw [hfind], ⟨⟨⟨fun dle hdle => ?_, ?_⟩, fun dle hdle => ?_⟩, ?_⟩, hstored⟩
  · rcases mem_append.1 hdle with hin | hin
    · exact h.above dle (hbefore_eq ▸ hin)
    · rw [List.mem_singleton.1 hin]
      exact fun bp hbp => absurd hbp List.not_mem_nil
  · refine List.pairwise_append.2 ⟨hbefore_eq ▸ h.apart, List.pairwise_singleton _ _, fun dle hdle next hnext => ?_⟩
    rw [List.mem_singleton.1 hnext]
    exact hlast dle (hbefore_eq ▸ hdle)
  · rcases mem_append.1 hdle with hin | hin
    · exact h.tops dle (hbefore_eq ▸ hin)
    · rw [List.mem_singleton.1 hin]
      exact bpobjAlloc_top
  · show dl.totals = sumTotals spa (storedBps (before ++ [⟨mintxg, none⟩]))
    rw [hstored, h.totals_eq]

/-- **`dsl_deadlist_remove_key`** puts the bucket into the previous one. -/
theorem dslDeadlistRemoveKey_spec (h : dl.Sound spa) (hfits : FitsBlock oneBlock)
    (hrun : dslDeadlistRemoveKey oneBlock dl mintxg = .ok dl') :
    dl'.Sound spa ∧ (storedBps dl'.dlTree).Perm (storedBps dl.dlTree) := by
  obtain ⟨before, found, after, hfind, htree, hbefore, hfound, hafter⟩ := dlTreeFind_spec h.sorted mintxg
  unfold dslDeadlistRemoveKey at hrun
  rw [hfind] at hrun
  cases found with
  | none => cases hrun
  | some dle =>
    obtain ⟨before', hprev, heq⟩ := bind_returns.1 hrun
    cases heq
    obtain ⟨pre, prev, prev', rfl, hchange, rfl⟩ := onPrevious_returns hprev
    have htree' : dl.dlTree = pre ++ prev :: dle :: after := by rw [htree]; simp
    have hall : TreeSound spa (pre ++ prev :: dle :: after) := htree' ▸ h.toTreeSound
    have hsound : TreeSound spa (pre ++ prev :: after) :=
      hall.sublist (List.Sublist.append_left (List.Sublist.cons_cons _ (sublist_cons_self _ _)) _)
    obtain ⟨prev'', hq, hkey, htop, hreach⟩ := dleEnqueueSubobj_spec hfits (hall.tops prev (by simp)) dle.dleMintxg
      (hall.tops dle (by simp))
    rw [hchange, ok.injEq] at hq
    subst hq
    obtain ⟨hprevs, hdles⟩ := pairwise_cons.1 (pairwise_append.1 hall.apart).2.1
    obtain ⟨hsound', hperm⟩ := hsound.replace hkey htop dle.reach hreach (by
      refine fun bp hbp => ⟨(hprevs dle mem_cons_self).1.trans (hall.above dle (by simp) bp hbp), fun next hnext => ?_⟩
      exact ((pairwise_cons.1 hdles).1 next hnext).2 bp hbp)
    have hperm' : (storedBps (pre ++ [prev'] ++ after)).Perm (storedBps dl.dlTree) := by
      rw [append_assoc, singleton_append, htree']
      refine hperm.trans ?_
      simp only [storedBps_append, storedBps_cons, append_assoc]
      exact List.Perm.append_left _ (List.Perm.append_left _ perm_append_comm)
    refine ⟨h.of_perm ?_ [] ?_ (add_zero _).symm, hperm'⟩
    · rw [append_assoc]; exact hsound'
    · rw [append_nil]; exact hperm'

variable {birth : Nat}

section
variable (h : dl.Sound spa) (hfits : FitsBlock oneBlock) (hobj : (obj.getD bpobjAlloc).Top spa)
  (hbirths : ∀ bp ∈ (obj.getD bpobjAlloc).reach, birth < bp.blkBirth ∧ ∀ key ∈ dl.dlTree.map dleMintxg, birth < key → bp.blkBirth ≤ key)
include h hfits hobj hbirths

/-- The object goes into the bucket of its key, or of the last key before. -/
lemma insertBpobj_placed
    {pre post : List DslDeadlistEntry} {dle dle' : DslDeadlistEntry} (htree : dl.dlTree = pre ++ dle :: post)
    (hle : dle.dleMintxg ≤ birth) (hpost : ∀ next ∈ post, birth < next.dleMintxg)
    (hchange : dleEnqueueSubobj oneBlock dle birth obj = .ok dle') (hdl : dl'.dlTree = pre ++ dle' :: post)
    (htot : dl'.totals = dl.totals + bpobjSpace (obj.getD bpobjAlloc)) :
    dl'.Sound spa ∧ (storedBps dl'.dlTree).Perm (storedBps dl.dlTree ++ (obj.getD bpobjAlloc).reach) ∧
      dl'.dlTree.map dleMintxg = dl.dlTree.map dleMintxg := by
  have hsound : TreeSound spa (pre ++ dle :: post) := htree ▸ h.toTreeSound
  obtain ⟨dle'', hq, hkey, htop, hreach⟩ := dleEnqueueSubobj_spec hfits (hsound.tops dle (by simp)) birth hobj
  rw [hchange, ok.injEq] at hq
  subst hq
  obtain ⟨hsound', hperm⟩ := hsound.replace hkey htop _ hreach (by
    refine fun bp hbp => ⟨hle.trans_lt (hbirths bp hbp).1, fun next hnext => ?_⟩
    exact (hbirths bp hbp).2 _ (mem_map_of_mem (by simp [htree, hnext])) (hpost next hnext))
  rw [← htree, ← hdl] at hperm
  refine ⟨h.of_perm (hdl ▸ hsound') _ hperm ?_, hperm, ?_⟩
  · rw [htot, hobj.1.space_eq, add_zero]
  · rw [hdl, htree]
    simp [hkey]

/-- **`dsl_deadlist_insert_bpobj`** stores the block pointers of the object. -/
theorem dslDeadlistInsertBpobj_spec (hrun : dslDeadlistInsertBpobj oneBlock dl obj birth = .ok dl') :
    dl'.Sound spa ∧ (storedBps dl'.dlTree).Perm (storedBps dl.dlTree ++ (obj.getD bpobjAlloc).reach) ∧
      dl'.dlTree.map dleMintxg = dl.dlTree.map dleMintxg := by
  obtain ⟨before, found, after, hfind, htree, hbefore, hfound, hafter⟩ := dlTreeFind_spec h.sorted birth
  unfold dslDeadlistInsertBpobj at hrun
  dsimp only [charge] at hrun
  rw [hfind] at hrun
  cases found with
  | some dle =>
    obtain ⟨dle', hchange, heq⟩ := bind_returns.1 hrun
    cases heq
    exact insertBpobj_placed h hfits hobj hbirths htree (hfound dle rfl).le hafter hchange rfl rfl
  | none =>
    obtain ⟨before', hprev, heq⟩ := bind_returns.1 hrun
    cases heq
    obtain ⟨pre, dle, dle', rfl, hchange, rfl⟩ := onPrevious_returns hprev
    have htree' : dl.dlTree = pre ++ dle :: after := by rw [htree]; simp
    have hdl : pre ++ [dle'] ++ after = pre ++ dle' :: after := by simp
    exact insertBpobj_placed h hfits hobj hbirths htree' (hbefore dle (by simp)).le hafter hchange hdl rfl

end

/-- **`dsl_deadlist_merge`** stores the block pointers of all entries. -/
theorem dslDeadlistMerge_spec (hfits : FitsBlock oneBlock) (zas : List DslDeadlistEntry) : ∀ {dl : DslDeadlist}, dl.Sound spa →
      (∀ za ∈ zas, (za.dleBpobj.getD bpobjAlloc).Top spa ∧ ∀ bp ∈ za.reach, za.dleMintxg < bp.blkBirth ∧
        ∀ key ∈ dl.dlTree.map dleMintxg, za.dleMintxg < key → bp.blkBirth ≤ key) →
      dslDeadlistMerge oneBlock dl zas = .ok dl' →
      dl'.Sound spa ∧ (storedBps dl'.dlTree).Perm (storedBps dl.dlTree ++ storedBps zas) := by
  induction zas with
  | nil =>
    intro dl h _ hrun
    cases hrun
    exact ⟨h, by simp⟩
  | cons za zas ih =>
    intro dl h hzas hrun
    obtain ⟨dl1, hinsert, hrest⟩ := bind_returns.1 hrun
    obtain ⟨htop, hbirths⟩ := hzas za mem_cons_self
    obtain ⟨h1, hperm1, hkeys⟩ := dslDeadlistInsertBpobj_spec h hfits htop hbirths hinsert
    obtain ⟨h', hperm'⟩ := ih h1 (fun za' hza' => hkeys ▸ hzas za' (mem_cons_of_mem _ hza')) hrest
    refine ⟨h', hperm'.trans ?_⟩
    rw [storedBps_cons, ← append_assoc]
    exact hperm1.append_right _

lemma dleSpace_eq {dle : DslDeadlistEntry} (htop : (dle.dleBpobj.getD bpobjAlloc).Top spa) :
    dleSpace dle = sumTotals spa dle.reach := htop.1.space_eq.trans (add_zero _)

variable (spa) in
/-- **The loop of `dsl_deadlist_move_bpobj`** hands the objects over. -/
theorem moveLoop_spec (hfits : FitsBlock oneBlock) (dles : List DslDeadlistEntry) :
    ∀ (dl : DslDeadlist) (bpo : Bpobj), dl.totals = sumTotals spa (storedBps dl.dlTree) + sumTotals spa (storedBps dles) →
      (∀ dle ∈ dles, (dle.dleBpobj.getD bpobjAlloc).Top spa) → bpo.Top spa →
      ∃ dl' bpo', moveLoop oneBlock dl bpo dles = .ok (dl', bpo') ∧ dl'.dlTree = dl.dlTree ∧
        dl'.totals = sumTotals spa (storedBps dl.dlTree) ∧ bpo'.Top spa ∧ bpo'.reach.Perm (bpo.reach ++ storedBps dles) := by
  induction dles with
  | nil => exact fun dl bpo htot _ htop => ⟨dl, bpo, rfl, rfl, htot.trans (add_zero _), htop, by simp⟩
  | cons dle dles ih =>
    intro dl bpo htot htops htop
    have hdle := htops dle mem_cons_self
    obtain ⟨bpo1, heq1, htop1, hreach1⟩ := bpobjEnqueueObj_spec hfits htop dle.dleMintxg hdle
    have hspace := dleSpace_eq hdle
    rw [storedBps_cons, sumTotals_append, ← hspace] at htot
    have hle : dleSpace dle ≤ dl.totals := by
      have h1 := sumTotals_nonneg spa (storedBps dl.dlTree)
      have h2 := sumTotals_nonneg spa (storedBps dles)
      rw [htot]
      exact (le_add_of_nonneg_right h2).trans (le_add_of_nonneg_left h1)
    have htot1 : (dl.release (dleSpace dle).1 (dleSpace dle).2.1 (dleSpace dle).2.2).totals =
        sumTotals spa (storedBps dl.dlTree) + sumTotals spa (storedBps dles) := by
      show dl.totals - dleSpace dle = _
      rw [htot, add_sub_assoc, add_sub_cancel_left]
    obtain ⟨dl', bpo', heq', htree', htot', htop', hreach'⟩ := ih _ bpo1 htot1
      (fun e he => htops e (mem_cons_of_mem _ he)) htop1
    refine ⟨dl', bpo', ?_, htree', htot', htop', hreach'.trans ?_⟩
    · rw [moveLoop, heq1, ok_bind]
      dsimp only
      rw [ASSERT_bind (show dl.dlUsed ≥ _ from hle.1), ASSERT_bind (show dl.dlComp ≥ _ from hle.2.1),
        ASSERT_bind (show dl.dlUncomp ≥ _ from hle.2.2), heq']
    · rw [storedBps_cons, ← append_assoc]
      exact hreach1.append_right _

/-- **`dsl_deadlist_move_bpobj`** gives the buckets from a key on to the object. -/
theorem dslDeadlistMoveBpobj_spec (h : dl.Sound spa) (hfits : FitsBlock oneBlock) (htop : bpo.Top spa) (mintxg : Nat) :
    ∃ dl' bpo' out, dslDeadlistMoveBpobj oneBlock dl bpo mintxg = .ok (dl', bpo') ∧ dl'.Sound spa ∧ bpo'.Top spa ∧
      bpo'.reach.Perm (bpo.reach ++ out) ∧ (storedBps dl.dlTree).Perm (out ++ storedBps dl'.dlTree) := by
  obtain ⟨before, found, after, hfind, htree, -, -, -⟩ := dlTreeFind_spec h.sorted mintxg
  have hall : TreeSound spa (before ++ (found.toList ++ after)) := htree ▸ h.toTreeSound
  obtain ⟨dl', bpo', heq, htree', htot, htop', hreach⟩ := moveLoop_spec spa hfits (found.toList ++ after)
    { dl with dlTree := before } bpo
    (by rw [← sumTotals_append, ← storedBps_append, ← htree]; exact h.totals_eq)
    (fun e he => hall.tops e (mem_append_right _ he)) htop
  refine ⟨dl', bpo', storedBps (found.toList ++ after), ?_, ⟨?_, ?_⟩, htop', hreach, ?_⟩
  · unfold dslDeadlistMoveBpobj
    rw [hfind]
    exact heq
  · rw [htree']; exact hall.sublist (sublist_append_left _ _)
  · rw [htree']; exact htot
  · rw [htree', htree, storedBps_append]
    exact perm_append_comm

end

section
variable {spa : Spa} {maxtxg : Nat}

lemma spaceLoop_eq (tree : List DslDeadlistEntry) (h : TreeSound spa tree)
    (hmax : (∃ dle ∈ tree, dle.dleMintxg = maxtxg) ∨ (∀ bp ∈ storedBps tree, bp.blkBirth ≤ maxtxg) ∨
      ∀ dle ∈ tree, maxtxg ≤ dle.dleMintxg) :
    spaceLoop maxtxg tree = sumTotals spa ((storedBps tree).filter fun bp => decide (bp.blkBirth ≤ maxtxg)) := by
  induction tree with
  | nil => rfl
  | cons dle tree ih =>
    obtain ⟨hdle, -⟩ := pairwise_cons.1 h.apart
    rw [spaceLoop, storedBps_cons, filter_append, sumTotals_append]
    split
    next hlt =>
      have hall : ∀ bp ∈ dle.reach, bp.blkBirth ≤ maxtxg := by
        intro bp hbp
        rcases hmax with ⟨e, he, rfl⟩ | hb | hge
        · rcases mem_cons.1 he with rfl | he
          · omega
          · exact (hdle e he).2 bp hbp
        · exact hb bp (by simp [hbp])
        · exact absurd (hge dle mem_cons_self) (by omega)
      have hrest := ih (h.sublist (sublist_cons_self _ _)) (by
        rcases hmax with ⟨e, he, rfl⟩ | hb | hge
        · rcases mem_cons.1 he with rfl | he
          · omega
          · exact .inl ⟨e, he, rfl⟩
        · exact .inr (.inl fun bp hbp => hb bp (by simp [hbp]))
        · exact absurd (hge dle mem_cons_self) (by omega))
      rw [hrest, dleSpace_eq (h.tops dle mem_cons_self), filter_eq_self.2 fun bp hbp => decide_eq_true (hall bp hbp)]
    next hge =>
      have hlater : ∀ bp ∈ dle.reach ++ storedBps tree, ¬ bp.blkBirth ≤ maxtxg := by
        intro bp hbp
        rcases mem_append.1 hbp with hbp | hbp
        · have := h.above dle mem_cons_self bp hbp
          omega
        · obtain ⟨e, he, hin⟩ := mem_flatMap.1 hbp
          have := h.above e (mem_cons_of_mem _ he) bp hin
          have := (hdle e he).1
          omega
      rw [← sumTotals_append, ← filter_append, filter_eq_nil_iff.2 fun bp hbp => by simpa using hlater bp hbp]
      rfl

/-- **`dsl_deadlist_space_range`** is the space of the births in the range. -/
theorem dslDeadlistSpaceRange_spec {dl : DslDeadlist} (h : dl.Sound spa) (hmin : ∃ dle ∈ dl.dlTree, dle.dleMintxg = mintxg)
    (hmax : (∃ dle ∈ dl.dlTree, dle.dleMintxg = maxtxg) ∨ ∀ bp ∈ storedBps dl.dlTree, bp.blkBirth ≤ maxtxg) :
    dslDeadlistSpaceRange dl mintxg maxtxg = .ok (sumTotals spa
      ((storedBps dl.dlTree).filter fun bp => decide (mintxg < bp.blkBirth ∧ bp.blkBirth ≤ maxtxg))) := by
  obtain ⟨before, found, after, hfind, htree, hbefore, hfound, hafter⟩ := dlTreeFind_spec h.sorted mintxg
  have hall : TreeSound spa (before ++ (found.toList ++ after)) := htree ▸ h.toTreeSound
  unfold dslDeadlistSpaceRange
  rw [hfind]
  cases found with
  | none =>
    obtain ⟨e, he, hkey⟩ := hmin
    rw [htree] at he
    rcases mem_append.1 he with he | he
    · exact absurd (hbefore e he) (by omega)
    · exact absurd (hafter e (by simpa using he)) (by omega)
  | some dle =>
    have hkey := hfound dle rfl
    have hsuffix : TreeSound spa (dle :: after) := hall.sublist (sublist_append_right _ _)
    have hcross := (pairwise_append.1 hall.apart).2.2
    have hmax' : (∃ e ∈ dle :: after, e.dleMintxg = maxtxg) ∨ (∀ bp ∈ storedBps (dle :: after), bp.blkBirth ≤ maxtxg) ∨
        ∀ e ∈ dle :: after, maxtxg ≤ e.dleMintxg := by
      rcases hmax with ⟨e, he, rfl⟩ | hb
      · rw [htree] at he
        rcases mem_append.1 he with hin | hin
        · exact .inr (.inr fun e' he' => (hcross e hin e' he').1.le)
        · exact .inl ⟨e, hin, rfl⟩
      · refine .inr (.inl fun bp hbp => hb bp ?_)
        rw [htree, storedBps_append]
        exact mem_append_right _ hbp
    dsimp only
    rw [spaceLoop_eq _ hsuffix hmax', htree, storedBps_append, filter_append, sumTotals_append]
    have hbelow : (storedBps before).filter (fun bp => decide (mintxg < bp.blkBirth ∧ bp.blkBirth ≤ maxtxg)) = [] := by
      refine filter_eq_nil_iff.2 fun bp hbp => ?_
      obtain ⟨e, he, hin⟩ := mem_flatMap.1 hbp
      have := (hcross e he dle (by simp)).2 bp hin
      simp only [decide_eq_true_eq]
      omega
    have hfrom : (storedBps (dle :: after)).filter (fun bp => decide (mintxg < bp.blkBirth ∧ bp.blkBirth ≤ maxtxg)) =
        (storedBps (dle :: after)).filter fun bp => decide (bp.blkBirth ≤ maxtxg) := by
      refine filter_congr fun bp hbp => ?_
      obtain ⟨e, he, hin⟩ := mem_flatMap.1 hbp
      have hlow : mintxg ≤ e.dleMintxg := by
        rcases mem_cons.1 he with rfl | he
        · exact hkey.ge
        · exact (hafter e he).le
      have := hsuffix.above e he bp hin
      exact decide_eq_decide.2 ⟨fun hb => hb.2, fun hb => ⟨by omega, hb⟩⟩
    rw [hbelow, show (some dle).toList ++ after = dle :: after from rfl, hfrom, sumTotals_nil, zero_add]

end

/-- What `dsl_deadlist_merge` needs: a key of the target between two of the source is one of the source, and births
stop at the next key. -/
structure Mergeable (dl src : DslDeadlist) : Prop where
  between : ∀ dle ∈ dl.dlTree, ∀ za1 ∈ src.dlTree, ∀ za₂ ∈ src.dlTree, za1.dleMintxg < dle.dleMintxg →
    dle.dleMintxg < za₂.dleMintxg → ∃ za ∈ src.dlTree, za.dleMintxg = dle.dleMintxg
  births : ∀ dle ∈ dl.dlTree, (∀ za ∈ src.dlTree, za.dleMintxg < dle.dleMintxg) →
    ∀ bp ∈ storedBps src.dlTree, bp.blkBirth ≤ dle.dleMintxg

/-- The deadlists that operations reach, with what was inserted and what was moved out. -/
inductive DeadlistBuilt (spa : Spa) : DslDeadlist → Multiset Blkptr → Multiset Blkptr → Prop where
  | alloc : DeadlistBuilt spa dslDeadlistAlloc 0 0
  | insert {dl dl' : DslDeadlist} {inserted moved : Multiset Blkptr} {bp : Blkptr} :
      DeadlistBuilt spa dl inserted moved → dslDeadlistInsert spa dl bp = .ok dl' →
      DeadlistBuilt spa dl' (inserted + {storedBp bp}) moved
  | addKey {dl dl' : DslDeadlist} {inserted moved : Multiset Blkptr} {mintxg : Nat} : DeadlistBuilt spa dl inserted moved →
      (∀ dle ∈ dl.dlTree, dle.dleMintxg < mintxg ∧ ∀ bp ∈ dle.reach, bp.blkBirth ≤ mintxg) →
      dslDeadlistAddKey dl mintxg = .ok dl' → DeadlistBuilt spa dl' inserted moved
  | removeKey {dl dl' : DslDeadlist} {inserted moved : Multiset Blkptr} {mintxg : Nat} {oneBlock : Nat → Bpobj → Bool} :
      DeadlistBuilt spa dl inserted moved → FitsBlock oneBlock → dslDeadlistRemoveKey oneBlock dl mintxg = .ok dl' →
      DeadlistBuilt spa dl' inserted moved
  | merge {dl src dl' : DslDeadlist} {inserted moved inserted' moved' : Multiset Blkptr} {zas : List DslDeadlistEntry}
      {oneBlock : Nat → Bpobj → Bool} :
      DeadlistBuilt spa dl inserted moved → DeadlistBuilt spa src inserted' moved' → FitsBlock oneBlock →
      zas.Perm src.dlTree → Mergeable dl src → dslDeadlistMerge oneBlock dl zas = .ok dl' →
      DeadlistBuilt spa dl' (inserted + inserted') (moved + moved')
  | moveBpobj {dl dl' : DslDeadlist} {inserted moved out : Multiset Blkptr} {bpo bpo' : Bpobj} {mintxg : Nat}
      {oneBlock : Nat → Bpobj → Bool} :
      DeadlistBuilt spa dl inserted moved → FitsBlock oneBlock → bpo.Top spa →
      dslDeadlistMoveBpobj oneBlock dl bpo mintxg = .ok (dl', bpo') → (bpo'.reach : Multiset Blkptr) = bpo.reach + out →
      DeadlistBuilt spa dl' inserted (moved + out)

section
variable {spa : Spa} {dl src : DslDeadlist} {inserted moved : Multiset Blkptr}

lemma Bucketed.birth_le {tree : List DslDeadlistEntry} (h : Bucketed tree) {dle next : DslDeadlistEntry}
    (hdle : dle ∈ tree) (hnext : next ∈ tree) (hlt : dle.dleMintxg < next.dleMintxg) :
    ∀ bp ∈ dle.reach, bp.blkBirth ≤ next.dleMintxg := by
  obtain ⟨i, hi, rfl⟩ := mem_iff_getElem.1 hdle
  obtain ⟨j, hj, rfl⟩ := mem_iff_getElem.1 hnext
  have hpair := pairwise_iff_getElem.1 h.apart
  rcases Nat.lt_trichotomy i j with hij | rfl | hji
  · exact (hpair i j hi hj hij).2
  · exact absurd hlt (lt_irrefl _)
  · exact absurd (hpair j i hj hi hji).1 (by omega)

/-- Every source bucket ends before the next key of the target. -/
lemma Mergeable.fits (hm : Mergeable dl src) (hsrc : Bucketed src.dlTree) :
    ∀ za ∈ src.dlTree, ∀ bp ∈ za.reach, ∀ key ∈ dl.dlTree.map dleMintxg, za.dleMintxg < key → bp.blkBirth ≤ key := by
  intro za hza bp hbp key hkey hlt
  obtain ⟨dle, hdle, rfl⟩ := mem_map.1 hkey
  by_cases hlast : ∀ za' ∈ src.dlTree, za'.dleMintxg < dle.dleMintxg
  · exact hm.births dle hdle hlast bp (mem_flatMap.2 ⟨za, hza, hbp⟩)
  · push Not at hlast
    obtain ⟨za2, hza2, hge⟩ := hlast
    -- a key of the source at that place ends the bucket
    have hkey' : ∃ za' ∈ src.dlTree, za'.dleMintxg = dle.dleMintxg := by
      rcases hge.eq_or_lt with heq | hgt
      · exact ⟨za2, hza2, heq.symm⟩
      · exact hm.between dle hdle za hza za2 hza2 hlt hgt
    obtain ⟨za', hza', heq⟩ := hkey'
    rw [← heq] at hlt ⊢
    exact hsrc.birth_le hza hza' hlt bp hbp

lemma DeadlistBuilt.sound (h : DeadlistBuilt spa dl inserted moved) :
    dl.Sound spa ∧ inserted = moved + storedBps dl.dlTree := by
  induction h with
  | alloc => exact ⟨⟨⟨⟨by simp [dslDeadlistAlloc], .nil⟩, by simp [dslDeadlistAlloc]⟩, rfl⟩, rfl⟩
  | insert _ hrun ih =>
    obtain ⟨hsound, rfl⟩ := ih
    obtain ⟨hsound', hperm⟩ := dslDeadlistInsert_spec hsound hrun
    refine ⟨hsound', ?_⟩
    rw [coe_eq_coe.2 hperm, ← coe_add, add_assoc]
    rfl
  | addKey _ hlast hrun ih =>
    obtain ⟨hsound, rfl⟩ := ih
    obtain ⟨dl', heq, hsound', hstored⟩ := dslDeadlistAddKey_spec hsound hlast
    rw [hrun, ok.injEq] at heq
    subst heq
    exact ⟨hsound', by rw [hstored]⟩
  | removeKey _ hfits hrun ih =>
    obtain ⟨hsound, rfl⟩ := ih
    obtain ⟨hsound', hperm⟩ := dslDeadlistRemoveKey_spec hsound hfits hrun
    exact ⟨hsound', by rw [coe_eq_coe.2 hperm]⟩
  | merge _ _ hfits hzas hm hrun ih ih' =>
    obtain ⟨hsound, rfl⟩ := ih
    obtain ⟨hsrc, rfl⟩ := ih'
    obtain ⟨hsound', hperm⟩ := dslDeadlistMerge_spec hfits _ hsound
      (fun za hza => ⟨hsrc.tops za (hzas.subset hza), fun bp hbp =>
        ⟨hsrc.above za (hzas.subset hza) bp hbp, hm.fits hsrc.toBucketed za (hzas.subset hza) bp hbp⟩⟩) hrun
    refine ⟨hsound', ?_⟩
    rw [coe_eq_coe.2 (hperm.trans (List.Perm.append_left _ (hzas.flatMap_right _))), ← coe_add]
    exact add_add_add_comm ..
  | @moveBpobj dl dl' inserted moved out bpo bpo' mintxg oneBlock _ hfits htop hrun hout ih =>
    obtain ⟨hsound, rfl⟩ := ih
    obtain ⟨dl'', bpo'', out', heq, hsound', -, hreach, hperm⟩ := dslDeadlistMoveBpobj_spec hsound hfits htop mintxg
    rw [hrun, ok.injEq, Prod.mk.injEq] at heq
    obtain ⟨rfl, rfl⟩ := heq
    rw [coe_eq_coe.2 hreach, ← coe_add] at hout
    refine ⟨hsound', ?_⟩
    rw [coe_eq_coe.2 hperm, ← coe_add, add_left_cancel hout, add_assoc]

/-- **Buckets and totals of a deadlist.** Every stored block pointer is under the last key below its birth, none is
lost or there twice, and the totals and `dsl_deadlist_space_range` are right. -/
theorem deadlist_accounting (h : DeadlistBuilt spa dl inserted moved) :
    dl.dlTree.Pairwise (fun dle next => dle.dleMintxg < next.dleMintxg) ∧
    (∀ dle ∈ dl.dlTree, ∀ bp ∈ dle.reach, dle.dleMintxg < bp.blkBirth ∧
      ∀ next ∈ dl.dlTree, dle.dleMintxg < next.dleMintxg → bp.blkBirth ≤ next.dleMintxg) ∧
    inserted = moved + storedBps dl.dlTree ∧ (dl.dlUsed, dl.dlComp, dl.dlUncomp) = sumTotals spa (storedBps dl.dlTree) ∧
    (∀ mintxg maxtxg, (∃ dle ∈ dl.dlTree, dle.dleMintxg = mintxg) →
      ((∃ dle ∈ dl.dlTree, dle.dleMintxg = maxtxg) ∨ ∀ bp ∈ storedBps dl.dlTree, bp.blkBirth ≤ maxtxg) →
      dslDeadlistSpaceRange dl mintxg maxtxg = .ok (sumTotals spa
        ((storedBps dl.dlTree).filter fun bp => decide (mintxg < bp.blkBirth ∧ bp.blkBirth ≤ maxtxg)))) ∧
    ∀ (bpo : Bpobj) (mintxg : Nat) (oneBlock : Nat → Bpobj → Bool), bpo.Top spa → FitsBlock oneBlock →
      ∃ dl' bpo' out, dslDeadlistMoveBpobj oneBlock dl bpo mintxg = .ok (dl', bpo') ∧
        (bpo'.reach : Multiset Blkptr) = bpo.reach + out ∧ DeadlistBuilt spa dl' inserted (moved + out) := by
  obtain ⟨hsound, hsplit⟩ := h.sound
  refine ⟨hsound.sorted, fun dle hdle bp hbp => ⟨hsound.above dle hdle bp hbp, fun next hnext hlt => ?_⟩, hsplit,
    hsound.totals_eq, fun _ _ hmin hmax => dslDeadlistSpaceRange_spec hsound hmin hmax, fun bpo mintxg oneBlock htop hfits => ?_⟩
  · exact hsound.birth_le hdle hnext hlt bp hbp
  · obtain ⟨dl', bpo', out, heq, -, -, hreach, -⟩ := dslDeadlistMoveBpobj_spec hsound hfits htop mintxg
    have hout : (bpo'.reach : Multiset Blkptr) = bpo.reach + out := Multiset.coe_eq_coe.2 hreach
    exact ⟨dl', bpo', out, heq, hout, .moveBpobj h hfits htop heq hout⟩

/-- One block with birth 7 under the key 5. -/
def sectorDeadlist : DslDeadlist :=
  ⟨512, 512, 512, [⟨5, some (.mk ⟨512, 512, 512, false, 0⟩ [storedBp sectorBp] [])⟩]⟩

lemma sectorDeadlist_built : DeadlistBuilt flatSpa sectorDeadlist (0 + {storedBp sectorBp}) 0 := by
  have hkey : DeadlistBuilt flatSpa ⟨0, 0, 0, [⟨5, none⟩]⟩ 0 0 := .addKey .alloc (by simp [dslDeadlistAlloc]) rfl
  exact .insert hkey rfl

lemma fitsBlock_never : FitsBlock fun _ _ => false := fun _ _ h => nomatch h

/-- The same sector, written again with birth 9. -/
def laterBp : Blkptr := { sectorBp with blkBirth := 9 }

/-- The births 7 and 9 under the keys 5 and 7. -/
def twoKeyDeadlist : DslDeadlist :=
  ⟨1024, 1024, 1024, [⟨5, some (.mk ⟨512, 512, 512, false, 0⟩ [storedBp sectorBp] [])⟩,
    ⟨7, some (.mk ⟨512, 512, 512, false, 0⟩ [storedBp laterBp] [])⟩]⟩

lemma twoKeyDeadlist_built : DeadlistBuilt flatSpa twoKeyDeadlist (0 + {storedBp sectorBp} + {storedBp laterBp}) 0 := by
  have hkey : DeadlistBuilt flatSpa _ (0 + {storedBp sectorBp}) 0 :=
    .addKey sectorDeadlist_built (by decide) (show dslDeadlistAddKey sectorDeadlist 7 = _ from rfl)
  exact .insert hkey rfl

lemma twoKeyDeadlist_mergeable : Mergeable twoKeyDeadlist sectorDeadlist := ⟨by decide, by decide⟩

/-- The births up to 7 of a deadlist with two keys, after another one is merged into it. -/
theorem deadlist_accounting_merged : ∃ dl, dslDeadlistMerge (fun _ _ => false) twoKeyDeadlist sectorDeadlist.dlTree = .ok dl ∧
    DeadlistBuilt flatSpa dl (0 + {storedBp sectorBp} + {storedBp laterBp} + (0 + {storedBp sectorBp})) (0 + 0) ∧
      dslDeadlistSpaceRange dl 5 7 = .ok (1024, 1024, 1024) := by
  have hbuilt : DeadlistBuilt flatSpa _ (0 + {storedBp sectorBp} + {storedBp laterBp} + (0 + {storedBp sectorBp})) (0 + 0) :=
    .merge twoKeyDeadlist_built sectorDeadlist_built fitsBlock_never (.refl _) twoKeyDeadlist_mergeable
      (show dslDeadlistMerge (fun _ _ => false) twoKeyDeadlist sectorDeadlist.dlTree = _ from rfl)
  exact ⟨_, rfl, hbuilt, ((deadlist_accounting hbuilt).2.2.2.2.1 5 7 ⟨_, mem_cons_self, rfl⟩
    (.inl ⟨_, mem_cons_of_mem _ mem_cons_self, rfl⟩)).trans rfl⟩

/-- A new key below a birth that is stored under the key before it. -/
theorem dslDeadlistAddKey_splits_bucket :
    DeadlistBuilt flatSpa sectorDeadlist (0 + {storedBp sectorBp}) 0 ∧ (∀ dle ∈ sectorDeadlist.dlTree, dle.dleMintxg < 6) ∧
      ∃ dl', dslDeadlistAddKey sectorDeadlist 6 = .ok dl' ∧ ∃ dle ∈ dl'.dlTree, ∃ next ∈ dl'.dlTree,
        dle.dleMintxg < next.dleMintxg ∧ ∃ bp ∈ dle.reach, ¬ bp.blkBirth ≤ next.dleMintxg := by
  refine ⟨sectorDeadlist_built, by simp [sectorDeadlist], _, rfl, _, mem_cons_self, ⟨6, none⟩, ?_, by decide,
    storedBp sectorBp, mem_cons_self, by decide⟩
  exact mem_cons_of_mem _ mem_cons_self

end

end Unleashed.Zfs
