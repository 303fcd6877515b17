import Unleashed.Zfs.Bpobj.Basic

/-!
# What a bpobj holds and accounts for

The block pointers reachable from a bpobj, in the order of a visit, are drained by
`bpobj_iterate`, and its totals are their sums. An object whose list of sub-objects was moved to
its parent keeps the space of these in its own totals; that stale part never changes again.
-/

namespace Unleashed.Zfs

open Lib List Bpobj BpobjPhys

/-- Used, compressed and uncompressed space. -/
abbrev Totals := Int × Int × Int

def BpobjPhys.totals (phys : BpobjPhys) : Totals := (phys.bpoBytes, phys.bpoComp, phys.bpoUncomp)

/-- The space of a block. -/
def bpTotals (spa : Spa) (bp : Blkptr) : Totals := (bpGetDsizeSync spa bp, bpGetPsize bp, bpGetUcsize spa bp)

def sumTotals (spa : Spa) (bps : List Blkptr) : Totals := (bps.map (bpTotals spa)).sum

mutual

/-- The block pointers reachable from an object, in the order of a visit. -/
def Bpobj.reach : Bpobj → List Blkptr
  | .mk _ bps subs => bps ++ reachAll subs

def reachAll : List Bpobj → List Blkptr
  | [] => []
  | sub :: subs => sub.reach ++ reachAll subs

end

mutual

/-- The totals are those of the reachable block pointers and a stale part, the sub-objects moved. -/
def Bpobj.Sound (spa : Spa) : Bpobj → Totals → Prop
  | .mk phys bps subs, stale =>
    phys.totals = sumTotals spa (bps ++ reachAll subs) + stale ∧ 0 ≤ stale ∧
    (phys.bpoSubobjs = true → phys.bpoNumSubobjs = subs.length ∧ stale = 0) ∧
    (phys.bpoSubobjs = false → subs = [] ∧ (phys.bpoNumSubobjs = 0 → stale = 0)) ∧
    SoundAll spa subs

def SoundAll (spa : Spa) : List Bpobj → Prop
  | [] => True
  | sub :: subs => (∃ stale, sub.Sound spa stale) ∧ SoundAll spa subs

end

variable {subs : List Bpobj}

section
variable {spa : Spa} {phys : BpobjPhys}

@[simp] lemma release_totals (t : Totals) : (phys.release t.1 t.2.1 t.2.2).totals = phys.totals - t := rfl
@[simp] lemma charge_totals (phys : BpobjPhys) (t : Totals) : (phys.charge t.1 t.2.1 t.2.2).totals = phys.totals + t := rfl
@[simp] lemma sumTotals_nil : sumTotals spa [] = 0 := rfl

@[simp] lemma sumTotals_cons (bp : Blkptr) (bps : List Blkptr) :
    sumTotals spa (bp :: bps) = bpTotals spa bp + sumTotals spa bps := by
  simp [sumTotals]

@[simp] lemma sumTotals_append (bps bps' : List Blkptr) :
    sumTotals spa (bps ++ bps') = sumTotals spa bps + sumTotals spa bps' := by
  simp [sumTotals]

lemma bpTotals_nonneg (bp : Blkptr) : 0 ≤ bpTotals spa bp :=
  ⟨Int.natCast_nonneg _, Int.natCast_nonneg _, Int.natCast_nonneg _⟩

lemma sumTotals_nonneg (spa : Spa) (bps : List Blkptr) : 0 ≤ sumTotals spa bps :=
  sum_nonneg fun t ht => by
    obtain ⟨bp, -, rfl⟩ := mem_map.1 ht
    exact bpTotals_nonneg bp

/-- What is left out of a stored block pointer does not count for its sizes. -/
lemma bpTotals_storedBp (bp : Blkptr) : bpTotals spa (storedBp bp) = bpTotals spa bp := by
  have hprop : (storedBp bp).blkProp = bp.blkProp := by
    unfold storedBp
    split
    · rfl
    · split <;> rfl
  have hemb : bpIsEmbedded (storedBp bp) = bpIsEmbedded bp := by
    unfold bpIsEmbedded
    rw [hprop]
  have hmeta : bpIsMetadata spa (storedBp bp) = bpIsMetadata spa bp := by
    unfold bpIsMetadata
    rw [hprop]
  have hdsize : bpGetDsizeSync spa (storedBp bp) = bpGetDsizeSync spa bp := by
    rcases hb : bpIsEmbedded bp with _ | _
    · simp only [storedBp, hb, Bool.false_eq_true, if_false]
      split <;> rfl
    · simp [bpGetDsizeSync, bpGetNdvas, hemb, hb]
  have hlsize : bpGetLsize (storedBp bp) = bpGetLsize bp := by
    unfold bpGetLsize
    rw [hemb, hprop]
  have hpsize : bpGetPsize (storedBp bp) = bpGetPsize bp := by
    unfold bpGetPsize
    rw [hemb, hprop]
  unfold bpTotals bpGetUcsize
  rw [hdsize, hpsize, hlsize, hmeta]

lemma reachAll_append (subs subs' : List Bpobj) : reachAll (subs ++ subs') = reachAll subs ++ reachAll subs' := by
  induction subs with
  | nil => rfl
  | cons sub subs ih => simp only [cons_append, reachAll, ih, append_assoc]

lemma soundAll_append {subs' : List Bpobj} : SoundAll spa (subs ++ subs') ↔ SoundAll spa subs ∧ SoundAll spa subs' := by
  induction subs with
  | nil => simp [SoundAll]
  | cons sub subs ih => simp only [cons_append, SoundAll, ih, and_assoc]

end

variable {bps : List Blkptr}

section
variable {σ : Type} {spa : Spa} (func : σ → Blkptr → Except Fault (σ × Nat))

/-- What the first loop leaves: `rest` of the block pointers, and `t`, the rest of the totals. -/
def BlkptrsLeft (spa : Spa) (phys : BpobjPhys) (t : Totals) (s : BpobjPhys × List Blkptr) (rest : List Blkptr)
    (err : Nat) : Prop :=
  s.2 = rest ∧ s.1.totals = sumTotals spa rest + t ∧ s.1.bpoSubobjs = phys.bpoSubobjs ∧
    s.1.bpoNumSubobjs = phys.bpoNumSubobjs ∧ (err = 0 → rest = [])

/-- **The loop over the block pointers** drains them. -/
theorem iterateBlkptrs_sameRun {t : Totals} (ht : 0 ≤ t) (bps : List Blkptr) :
    ∀ (phys : BpobjPhys) (arg : σ), phys.totals = sumTotals spa bps + t →
      SameRun (BlkptrsLeft spa phys t) (iterateBlkptrs spa func phys bps arg) (drain func bps arg) := by
  induction bps with
  | nil => exact fun phys arg h => .done arg ⟨rfl, h, rfl, rfl, fun _ => rfl⟩
  | cons bp bps ih =>
    intro phys arg h
    rw [iterateBlkptrs, drain]
    cases func arg bp with
    | error f => exact .fault f
    | ok p =>
      obtain ⟨arg, err⟩ := p
      dsimp only [ok_bind]
      rcases eq_or_ne err 0 with rfl | herr
      · have htot : (phys.release (bpGetDsizeSync spa bp) (bpGetPsize bp) (bpGetUcsize spa bp)).totals =
            sumTotals spa bps + t := by
          rw [sumTotals_cons] at h
          exact (release_totals (bpTotals spa bp)).trans (by rw [h]; abel)
        have hpos : (0 : Totals) ≤ sumTotals spa bps + t := add_nonneg (sumTotals_nonneg spa bps) ht
        rw [if_neg (by simp), if_pos rfl, ASSERT_bind (by rw [← htot] at hpos; exact hpos.1)]
        exact ih _ arg htot
      · rw [if_pos herr, if_neg herr]
        exact .done arg ⟨rfl, h, rfl, rfl, fun h0 => absurd h0 herr⟩

/-- What a visit of an object with header `phys` leaves. -/
def ObjectLeft (spa : Spa) (phys : BpobjPhys) (stale : Totals) (bpo : Bpobj) (rest : List Blkptr) (err : Nat) : Prop :=
  bpo.Sound spa stale ∧ bpo.reach = rest ∧ (err = 0 → bpo.blkptrs = [] ∧ bpo.subobjs = []) ∧
    (bpo.phys.bpoSubobjs = false → phys.bpoSubobjs = false ∧ bpo.phys.bpoNumSubobjs = phys.bpoNumSubobjs)

/-- What the loop over the sub-objects leaves. -/
def SubobjsLeft (spa : Spa) (phys : BpobjPhys) (t : Totals) (s : BpobjPhys × List Bpobj) (rest : List Blkptr)
    (err : Nat) : Prop :=
  reachAll s.2 = rest ∧ SoundAll spa s.2 ∧ s.1.totals = sumTotals spa rest + t ∧
    s.1.bpoSubobjs = phys.bpoSubobjs ∧ s.1.bpoNumSubobjs = s.2.length ∧ (err = 0 → s.2 = [])

lemma bpobjIsEmpty_iff {phys : BpobjPhys} : bpobjIsEmpty (.mk phys bps subs) = true ↔ bps = [] ∧ phys.bpoNumSubobjs = 0 := by
  unfold bpobjIsEmpty
  rw [Bool.and_eq_true, List.isEmpty_iff, decide_eq_true_iff]
  rfl

variable {stale : Totals}

lemma Bpobj.Sound.space_eq {bpo : Bpobj} (h : bpo.Sound spa stale) : bpobjSpace bpo = sumTotals spa bpo.reach + stale := by
  obtain ⟨phys, bps, subs⟩ := bpo
  exact h.1

/-- A sound object passes the checks at the end of a visit. -/
lemma iterateOut_eq {bpo : Bpobj} (h : bpo.Sound spa stale) (arg : σ) (err : Nat) :
    iterateOut bpo arg err = .ok (bpo, arg, err) := by
  obtain ⟨phys, bps, subs⟩ := bpo
  obtain ⟨htot, -, hlist, hnone, -⟩ := h
  unfold iterateOut
  split
  next he =>
    obtain ⟨rfl, hnum⟩ := bpobjIsEmpty_iff.1 he
    have hzero : phys.totals = 0 := by
      cases hs : phys.bpoSubobjs with
      | true =>
        obtain ⟨hlen, rfl⟩ := hlist hs
        obtain rfl : subs = [] := length_eq_zero_iff.1 (by omega)
        exact htot
      | false =>
        obtain ⟨rfl, hstale⟩ := hnone hs
        rw [htot, hstale hnum]
        rfl
    simp only [totals, Prod.mk_eq_zero] at hzero
    rw [ASSERT_bind (show (Bpobj.mk phys [] subs).phys.bpoBytes = 0 from hzero.1),
      ASSERT_bind (show (Bpobj.mk phys [] subs).phys.bpoComp = 0 from hzero.2.1),
      ASSERT_bind (show (Bpobj.mk phys [] subs).phys.bpoUncomp = 0 from hzero.2.2)]
  · rfl

mutual

/-- **A visit of an object** drains what is reachable from it. -/
theorem bpobjIterateImpl_sameRun : ∀ (bpo : Bpobj) (stale : Totals) (arg : σ), bpo.Sound spa stale →
    SameRun (ObjectLeft spa bpo.phys stale) (bpobjIterateImpl spa func bpo arg) (drain func bpo.reach arg)
  | .mk phys bps subs, stale, arg, h => by
    obtain ⟨htot, hnn, hlist, hnone, hsubs⟩ := h
    rw [sumTotals_append, add_assoc] at htot
    have hrun := iterateBlkptrs_sameRun func (add_nonneg (sumTotals_nonneg spa (reachAll subs)) hnn) bps phys arg htot
    rw [bpobjIterateImpl, reach, drain_append]
    generalize iterateBlkptrs spa func phys bps arg = x at hrun ⊢
    generalize drain func bps arg = y at hrun ⊢
    cases hrun with
    | fault f => exact .fault f
    | @done s rest arg err hleft =>
      obtain ⟨phys', bps'⟩ := s
      obtain ⟨rfl, htot', hsub, hnum, herr⟩ := hleft
      dsimp only [ok_bind]
      have hstill : (Bpobj.mk phys' bps' subs).Sound spa stale := by
        refine ⟨?_, hnn, ?_, ?_, hsubs⟩
        · rw [sumTotals_append, add_assoc]; exact htot'
        · rw [hsub, hnum]; exact hlist
        · rw [hsub, hnum]; exact hnone
      rcases eq_or_ne err 0 with rfl | hne
      · obtain rfl := herr rfl
        rw [if_pos rfl]
        cases hs : phys'.bpoSubobjs with
        | false =>
          obtain ⟨rfl, -⟩ := hnone (hsub ▸ hs)
          rw [if_pos (.inr rfl), iterateOut_eq hstill]
          exact .done arg ⟨hstill, rfl, fun _ => ⟨rfl, rfl⟩, fun _ => ⟨hsub ▸ hs, hnum⟩⟩
        | true =>
          rw [if_neg (by simp)]
          obtain ⟨hlen, rfl⟩ := hlist (hsub ▸ hs)
          have hrun := iterateSubobjs_sameRun subs phys' 0 arg le_rfl (by simpa using htot') (hnum.trans hlen) hsubs
          generalize iterateSubobjs spa func phys' subs arg = x at hrun ⊢
          generalize drain func (reachAll subs) arg = y at hrun ⊢
          cases hrun with
          | fault f => exact .fault f
          | @done s rest arg err hleft =>
            obtain ⟨phys'', subs'⟩ := s
            obtain ⟨rfl, hsubs', htot'', hsub', hnum', herr'⟩ := hleft
            dsimp only at hsubs' htot'' hsub' hnum' herr'
            have hdone : (Bpobj.mk phys'' [] subs').Sound spa 0 :=
              ⟨htot'', le_rfl, fun _ => ⟨hnum', rfl⟩, fun h0 => absurd ((hsub'.trans hs).symm.trans h0) (by decide), hsubs'⟩
            dsimp only [ok_bind]
            rw [iterateOut_eq hdone]
            exact .done arg ⟨hdone, rfl, fun h0 => ⟨rfl, herr' h0⟩,
              fun h0 => absurd ((hsub'.trans hs).symm.trans h0) (by decide)⟩
      · rw [if_neg hne, if_pos (.inl hne), iterateOut_eq hstill]
        exact .done arg ⟨hstill, rfl, fun h0 => absurd h0 hne, fun h0 => ⟨hsub ▸ h0, hnum⟩⟩

/-- **The loop over the sub-objects** drains them in turn and adjusts the parent's totals. -/
theorem iterateSubobjs_sameRun : ∀ (subs : List Bpobj) (phys : BpobjPhys) (t : Totals) (arg : σ), 0 ≤ t →
    phys.totals = sumTotals spa (reachAll subs) + t → phys.bpoNumSubobjs = subs.length → SoundAll spa subs →
    SameRun (SubobjsLeft spa phys t) (iterateSubobjs spa func phys subs arg) (drain func (reachAll subs) arg)
  | [], phys, t, arg, _, htot, hnum, _ => by
    rw [iterateSubobjs]
    exact .done arg ⟨rfl, trivial, htot, rfl, hnum, fun _ => rfl⟩
  | sub :: subs, phys, t, arg, ht, htot, hnum, hsound => by
    obtain ⟨⟨stale, hsub⟩, hsubs⟩ := hsound
    have hrun := bpobjIterateImpl_sameRun sub stale arg hsub
    have hbefore := hsub.space_eq
    rw [iterateSubobjs, reachAll, drain_append]
    rw [reachAll, sumTotals_append] at htot
    generalize bpobjIterateImpl spa func sub arg = x at hrun ⊢
    generalize drain func sub.reach arg = y at hrun ⊢
    cases hrun with
    | fault f => exact .fault f
    | @done sub' rest arg err hleft =>
      obtain ⟨hsub', rfl, hempty, -⟩ := hleft
      have hafter := hsub'.space_eq
      dsimp only [ok_bind]
      generalize hphys : phys.release _ _ _ = phys1
      -- the difference of the totals of the sub-object does not show its stale part
      have htot' : phys1.totals = sumTotals spa (sub'.reach ++ reachAll subs) + t := by
        have hdiff : phys1.totals = phys.totals - (bpobjSpace sub - bpobjSpace sub') := by rw [← hphys]; rfl
        rw [hdiff, htot, hbefore, hafter, sumTotals_append]
        abel
      have hnum' : phys1.bpoNumSubobjs = subs.length + 1 := by rw [← hphys]; exact hnum
      have hsame : phys1.bpoSubobjs = phys.bpoSubobjs := by rw [← hphys]; rfl
      have hpos : (0 : Totals) ≤ phys1.totals := by
        rw [htot']
        exact add_nonneg (sumTotals_nonneg spa _) ht
      rw [ASSERT_bind (show phys1.bpoBytes ≥ 0 from hpos.1)]
      rcases eq_or_ne err 0 with rfl | hne
      · obtain ⟨hbps, hnil⟩ := hempty rfl
        have hreach : sub'.reach = [] := by
          obtain ⟨phys', bps', subs'⟩ := sub'
          obtain rfl : bps' = [] := hbps
          obtain rfl : subs' = [] := hnil
          rfl
        rw [if_neg (by simp), if_pos rfl, ASSERT_bind (by omega)]
        rw [hreach, nil_append] at htot'
        have hrest := iterateSubobjs_sameRun subs { phys1 with bpoNumSubobjs := phys1.bpoNumSubobjs - 1 } t arg ht htot'
          (by dsimp only; omega) hsubs
        refine hrest.mono ?_
        rintro s rest err ⟨h1, h2, h3, h4, h5⟩
        exact ⟨h1, h2, h3, h4.trans hsame, h5⟩
      · rw [if_pos hne, if_neg hne]
        exact .done arg ⟨rfl, ⟨⟨stale, hsub'⟩, hsubs⟩, htot', hsame, hnum', fun h0 => absurd h0 hne⟩

end

end

/-! ## Objects as they are built -/

/-- A top-level object has no stale part. -/
def Bpobj.Top (spa : Spa) (bpo : Bpobj) : Prop :=
  bpo.Sound spa 0 ∧ (bpo.phys.bpoSubobjs = false → bpo.phys.bpoNumSubobjs = 0)

section
variable {spa : Spa} {bpo sub : Bpobj}

lemma bpobjAlloc_top : bpobjAlloc.Top spa :=
  ⟨⟨rfl, le_rfl, fun h => absurd h (by decide), fun _ => ⟨rfl, fun _ => rfl⟩, trivial⟩, fun _ => rfl⟩

/-- **`bpobj_enqueue`** adds the stored block pointer in front. -/
theorem bpobjEnqueue_spec (h : bpo.Top spa) {bp : Blkptr} (hbp : bpIsHole bp = false) :
    ∃ bpo', bpobjEnqueue spa bpo bp = .ok bpo' ∧ bpo'.Top spa ∧ bpo'.reach = storedBp bp :: bpo.reach := by
  obtain ⟨phys, bps, subs⟩ := bpo
  obtain ⟨⟨htot, hnn, hlist, hnone, hsubs⟩, hnum⟩ := h
  unfold bpobjEnqueue
  rw [ASSERT_bind hbp]
  refine ⟨_, rfl, ⟨⟨?_, hnn, hlist, hnone, hsubs⟩, hnum⟩, rfl⟩
  show (phys.charge _ _ _).totals = sumTotals spa (storedBp bp :: (bps ++ reachAll subs)) + 0
  rw [sumTotals_cons, bpTotals_storedBp]
  refine (charge_totals phys (bpTotals spa bp)).trans ?_
  rw [htot]
  abel

/-- What the list of sub-objects and its length are to a top-level object. -/
lemma Bpobj.Top.numSubobjs {phys : BpobjPhys} (h : (Bpobj.mk phys bps subs).Top spa) : phys.bpoNumSubobjs = subs.length := by
  obtain ⟨⟨-, -, hlist, hnone, -⟩, hnum⟩ := h
  cases hs : phys.bpoSubobjs with
  | true => exact (hlist hs).1
  | false => rw [(hnone hs).1]; exact hnum hs

/-- The space of a list handed over stays as the stale part. -/
lemma Bpobj.Top.handOver {phys : BpobjPhys} (h : (Bpobj.mk phys bps subs).Top spa) :
    (Bpobj.mk { phys with bpoSubobjs := false } bps []).Sound spa (sumTotals spa (reachAll subs)) := by
  have hnum := h.numSubobjs
  obtain ⟨⟨htot, -⟩, -⟩ := h
  refine ⟨?_, sumTotals_nonneg spa _, fun h0 => absurd h0 Bool.false_ne_true, fun _ => ⟨rfl, fun h0 => ?_⟩, trivial⟩
  · rw [add_zero, sumTotals_append] at htot
    rw [reachAll, append_nil]
    exact htot
  · obtain rfl : subs = [] := length_eq_zero_iff.1 (hnum.symm.trans h0)
    rfl

/-- **`bpobj_enqueue_subobj`** makes what the sub-object reaches reachable. -/
theorem bpobjEnqueueSubobj_spec (h : bpo.Top spa) (hsub : sub.Top spa) {oneBlock : Bool}
    (hblk : oneBlock = true → sub.phys.bpoNumSubobjs ≤ subobjEpb) :
    ∃ bpo', bpobjEnqueueSubobj bpo sub oneBlock = .ok bpo' ∧ bpo'.Top spa ∧ bpo'.reach.Perm (bpo.reach ++ sub.reach) := by
  obtain ⟨phys, bps, subs⟩ := bpo
  obtain ⟨sphys, sbps, ssubs⟩ := sub
  have hnum := h.numSubobjs
  have hsnum := hsub.numSubobjs
  have hflat := hsub.handOver
  obtain ⟨htot, -, -, -, hsound⟩ := h.1
  have hssound := hsub.1
  obtain ⟨hstot, -, -, -, hssubs⟩ := hsub.1
  unfold bpobjEnqueueSubobj
  dsimp only
  rcases he : bpobjIsEmpty (.mk sphys sbps ssubs) with _ | _
  · rw [if_neg Bool.false_ne_true]
    -- the object with its new list `l`, which reaches as much as the old list and the sub-object
    have build : ∀ (n : Nat) (l : List Bpobj), n = l.length → SoundAll spa l →
        (reachAll l).Perm (reachAll subs ++ (sbps ++ reachAll ssubs)) →
        (Bpobj.mk (({ phys with bpoSubobjs := true, bpoNumSubobjs := n } : BpobjPhys).charge sphys.bpoBytes
            sphys.bpoComp sphys.bpoUncomp) bps l).Top spa ∧
          (bps ++ reachAll l).Perm (bps ++ reachAll subs ++ (sbps ++ reachAll ssubs)) := by
      intro n l hn hl hperm
      have hperm' : (bps ++ reachAll l).Perm (bps ++ reachAll subs ++ (sbps ++ reachAll ssubs)) := by
        rw [append_assoc]
        exact hperm.append_left bps
      refine ⟨⟨⟨?_, le_rfl, fun _ => ⟨hn, rfl⟩, fun h0 => absurd h0.symm Bool.false_ne_true, hl⟩,
        fun h0 => absurd h0.symm Bool.false_ne_true⟩, hperm'⟩
      have hsum : sumTotals spa (bps ++ reachAll l) = phys.totals + sphys.totals := by
        rw [htot, hstot, add_zero, add_zero, ← sumTotals_append]
        exact (hperm'.map _).sum_eq
      rw [hsum, add_zero]
      rfl
    cases hc : (Bpobj.mk sphys sbps ssubs).phys.bpoSubobjs && oneBlock with
    | true =>
      have hone : oneBlock = true := (Bool.and_eq_true_iff.1 hc).2
      have hroom : (Bpobj.mk sphys sbps ssubs).phys.bpoNumSubobjs * 8 ≤ subobjEpb * 8 := Nat.mul_le_mul_right 8 (hblk hone)
      rw [if_pos rfl, VERIFY_bind hroom]
      obtain ⟨htop, hreach⟩ := build (phys.bpoNumSubobjs + 1 + sphys.bpoNumSubobjs)
        (ssubs ++ .mk { sphys with bpoSubobjs := false } sbps [] :: subs)
        (by rw [length_append, length_cons]; omega) (soundAll_append.2 ⟨hssubs, ⟨_, hflat⟩, hsound⟩) (by
          rw [reachAll_append, reachAll, reach, reachAll, append_nil]
          refine (perm_append_comm).trans ?_
          rw [append_assoc]
          exact perm_append_comm_assoc _ _ _)
      exact ⟨_, rfl, htop, hreach⟩
    | false =>
      rw [if_neg Bool.false_ne_true]
      obtain ⟨htop, hreach⟩ := build (phys.bpoNumSubobjs + 1) (.mk sphys sbps ssubs :: subs)
        (by rw [length_cons]; omega) ⟨⟨0, hssound⟩, hsound⟩ (by
          rw [reachAll, reach]
          exact perm_append_comm)
      exact ⟨_, rfl, htop, hreach⟩
  · rw [if_pos rfl]
    obtain ⟨rfl, h0⟩ := bpobjIsEmpty_iff.1 he
    obtain rfl : ssubs = [] := length_eq_zero_iff.1 (hsnum.symm.trans h0)
    exact ⟨_, rfl, h, by rw [reach, reach, reachAll, append_nil, append_nil]⟩

/-- **`bpobj_iterate`** drains what is reachable from the object. -/
theorem bpobjIterate_sameRun (h : bpo.Top spa) {σ : Type} (func : σ → Blkptr → Except Fault (σ × Nat)) (arg : σ) :
    SameRun (fun bpo' rest err => bpo'.Top spa ∧ bpo'.reach = rest ∧ (err = 0 → bpobjIsEmpty bpo' = true))
      (bpobjIterate spa func bpo arg) (drain func bpo.reach arg) := by
  refine (bpobjIterateImpl_sameRun func bpo 0 arg h.1).mono ?_
  rintro ⟨phys, bps, subs⟩ rest err ⟨hsound, hreach, hempty, hlist⟩
  have htop : (Bpobj.mk phys bps subs).Top spa := ⟨hsound, fun h0 => (hlist h0).2.trans (h.2 (hlist h0).1)⟩
  refine ⟨htop, hreach, fun h0 => bpobjIsEmpty_iff.2 ⟨(hempty h0).1, ?_⟩⟩
  rw [htop.numSubobjs, show subs = [] from (hempty h0).2]
  rfl

/-- A call that returns has flattened one block of sub-objects, or has not looked at the size of the list. -/
lemma bpobjEnqueueSubobj_fits {oneBlock : Bool} {bpo' : Bpobj} (hrun : bpobjEnqueueSubobj bpo sub oneBlock = .ok bpo') :
    ∃ oneBlock', bpobjEnqueueSubobj bpo sub oneBlock' = .ok bpo' ∧
      (oneBlock' = true → sub.phys.bpoNumSubobjs ≤ subobjEpb) := by
  by_cases hfit : sub.phys.bpoNumSubobjs ≤ subobjEpb
  · exact ⟨oneBlock, hrun, fun _ => hfit⟩
  · refine ⟨false, ?_, nofun⟩
    obtain ⟨phys, bps, subs⟩ := bpo
    obtain ⟨sphys, sbps, ssubs⟩ := sub
    unfold bpobjEnqueueSubobj at hrun ⊢
    dsimp only at hrun ⊢
    rw [Bool.and_false, if_neg Bool.false_ne_true]
    split_ifs at hrun ⊢ with hempty hflat
    · exact hrun
    · obtain ⟨_, hverify, -⟩ := bind_returns.1 hrun
      exact absurd (Nat.le_of_mul_le_mul_right (VERIFY_eq_ok.1 hverify) (by decide)) hfit
    · exact hrun

/-- An object built by any calls, the block pointers stored in it, and those passed on with success. -/
inductive Built (spa : Spa) : Bpobj → Multiset Blkptr → Multiset Blkptr → Prop
  | alloc : Built spa bpobjAlloc 0 0
  | enqueue {bpo bpo' : Bpobj} {enqueued passed : Multiset Blkptr} {bp : Blkptr} (h : Built spa bpo enqueued passed)
      (hrun : bpobjEnqueue spa bpo bp = .ok bpo') : Built spa bpo' (storedBp bp ::ₘ enqueued) passed
  | enqueueSubobj {bpo sub bpo' : Bpobj} {enqueued enqueued' passed passed' : Multiset Blkptr} {oneBlock : Bool}
      (h : Built spa bpo enqueued passed) (hsub : Built spa sub enqueued' passed')
      (hrun : bpobjEnqueueSubobj bpo sub oneBlock = .ok bpo') :
      Built spa bpo' (enqueued + enqueued') (passed + passed')
  | iterate {bpo bpo' : Bpobj} {enqueued passed : Multiset Blkptr} {σ : Type}
      {func : σ → Blkptr → Except Fault (σ × Nat)} {arg arg' : σ} {done : List Blkptr} {err : Nat}
      (h : Built spa bpo enqueued passed)
      (hrun : bpobjIterate spa (recorded func) bpo (arg, []) = .ok (bpo', (arg', done), err)) :
      Built spa bpo' enqueued (passed + done)

/-- **Invariant of the calls.** A stored block pointer is reachable or was passed on with success. -/
theorem Built.top {enqueued passed : Multiset Blkptr} (h : Built spa bpo enqueued passed) :
    bpo.Top spa ∧ enqueued = passed + bpo.reach := by
  induction h with
  | alloc => exact ⟨bpobjAlloc_top, rfl⟩
  | @enqueue bpo _ enqueued passed bp _ hrun ih =>
    obtain ⟨htop, rfl⟩ := ih
    obtain ⟨_, hbp, -⟩ := bind_returns.1 hrun
    obtain ⟨bpo'', heq, htop', hreach⟩ := bpobjEnqueue_spec htop (ASSERT_eq_ok.1 hbp)
    obtain rfl := Except.ok.inj (heq.symm.trans hrun)
    refine ⟨htop', ?_⟩
    rw [hreach, ← Multiset.cons_coe, Multiset.add_cons]
  | @enqueueSubobj bpo sub _ _ _ passed passed' oneBlock _ _ hrun ih ih' =>
    obtain ⟨htop, rfl⟩ := ih
    obtain ⟨hsub, rfl⟩ := ih'
    obtain ⟨oneBlock', hrun, hblk⟩ := bpobjEnqueueSubobj_fits hrun
    obtain ⟨bpo'', heq, htop', hperm⟩ := bpobjEnqueueSubobj_spec htop hsub hblk
    obtain rfl := Except.ok.inj (heq.symm.trans hrun)
    refine ⟨htop', ?_⟩
    rw [Multiset.coe_eq_coe.2 hperm, ← Multiset.coe_add]
    exact add_add_add_comm _ _ _ _
  | @iterate bpo _ enqueued passed σ func arg _ done _ _ hrun ih =>
    obtain ⟨htop, rfl⟩ := ih
    have hsame := bpobjIterate_sameRun htop (recorded func) (arg, [])
    rw [hrun] at hsame
    generalize hy : drain (recorded func) bpo.reach (arg, []) = y at hsame
    cases hsame with
    | done _ h =>
      obtain ⟨htop', rfl, -⟩ := h
      refine ⟨htop', ?_⟩
      rw [add_assoc, Multiset.coe_add, drain_recorded hy, nil_append]

/-- **Accounting of a bpobj.** The totals are the sums over the reachable block pointers; a stored one is reachable or
was passed to a successful callback, never both; `bpobj_iterate` goes on where a callback failed. -/
theorem bpobj_accounting {enqueued passed : Multiset Blkptr} (h : Built spa bpo enqueued passed) :
    bpobjSpace bpo = sumTotals spa bpo.reach ∧ enqueued = passed + bpo.reach ∧
      ∀ (σ : Type) (func : σ → Blkptr → Except Fault (σ × Nat)) (arg : σ),
        SameRun (fun bpo' rest err => bpo'.reach = rest ∧ bpobjSpace bpo' = sumTotals spa rest ∧
            (err = 0 → bpobjIsEmpty bpo' = true ∧ rest = [] ∧ bpobjSpace bpo' = 0))
          (bpobjIterate spa func bpo arg) (drain func bpo.reach arg) := by
  obtain ⟨htop, hsplit⟩ := h.top
  refine ⟨htop.1.space_eq.trans (add_zero _), hsplit, fun σ func arg => ?_⟩
  refine (bpobjIterate_sameRun htop func arg).mono ?_
  rintro ⟨phys, bps, subs⟩ rest err ⟨htop', rfl, hempty⟩
  have hspace := htop'.1.space_eq.trans (add_zero _)
  refine ⟨rfl, hspace, fun h0 => ?_⟩
  obtain ⟨rfl, hnum⟩ := bpobjIsEmpty_iff.1 (hempty h0)
  obtain rfl : subs = [] := List.length_eq_zero_iff.1 (htop'.numSubobjs.symm.trans hnum)
  exact ⟨hempty h0, rfl, hspace⟩

end

/-- A pool without deflation. -/
def flatSpa : Spa := ⟨false, fun _ => 512, fun _ => false⟩

/-- A data block of one sector on vdev 0. -/
def sectorBp : Blkptr := ⟨⟨1, 8⟩, ⟨0, 0⟩, ⟨0, 0⟩, 0, 0, 0, 0, 7, 1, ⟨1, 2, 3, 4⟩⟩

/-- A sub-object that has a sub-object of its own is flattened. -/
theorem bpobj_accounting_sector :
    ∃ leaf sub bpo, bpobjEnqueue flatSpa bpobjAlloc sectorBp = .ok leaf ∧ bpobjEnqueueSubobj leaf leaf true = .ok sub ∧
      bpobjEnqueueSubobj bpobjAlloc sub true = .ok bpo ∧ bpo.subobjs.length = 2 ∧
      Built flatSpa bpo {storedBp sectorBp, storedBp sectorBp} 0 ∧ bpo.reach = [storedBp sectorBp, storedBp sectorBp] ∧
      bpobjSpace bpo = (1024, 1024, 1024) := by
  have hleaf : Built flatSpa _ (storedBp sectorBp ::ₘ 0) 0 := .enqueue .alloc rfl
  have hsub : Built flatSpa _ (storedBp sectorBp ::ₘ 0 + storedBp sectorBp ::ₘ 0) (0 + 0) :=
    .enqueueSubobj hleaf hleaf (show bpobjEnqueueSubobj _ _ true = _ from rfl)
  have hbpo : Built flatSpa _ (0 + (storedBp sectorBp ::ₘ 0 + storedBp sectorBp ::ₘ 0)) (0 + (0 + 0)) :=
    .enqueueSubobj .alloc hsub (show bpobjEnqueueSubobj _ _ true = _ from rfl)
  exact ⟨_, _, _, rfl, rfl, rfl, rfl, hbpo, rfl, (bpobj_accounting hbpo).1⟩

end Unleashed.Zfs
