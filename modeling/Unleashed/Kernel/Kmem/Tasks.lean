import Unleashed.Kernel.Kmem.Calls

/-!
# The task

A resize disables every CPU cache, drains the depot and only then changes the type. The calls in between do not touch
the depot from a disabled CPU cache.
-/

namespace Unleashed.Kernel.Kmem

open Lib Fault Function

variable {c : Cache} {S : SlabLayer} {m m' : MagLayer} {i : Nat} {rest : Multiset Nat}

/-- The CPU caches are disabled. -/
def AllOff (c : Cache) (m : MagLayer) : Prop := ∀ j < c.ncpus, (m.cpu j).ccMagsize = 0

/-- A reap takes all of the list. -/
structure Drains (ml : Maglist) : Prop where
  mlMin : ml.mlMin = ml.mlTotal
  mlReaplimit : ml.mlReaplimit = ml.mlTotal

/-- A resize that has disabled the CPU caches. -/
structure Resizing (c : Cache) (m : MagLayer) : Prop where
  off : AllOff c m
  next : m.cacheMagtype + 1 < kmemMagtype.length

/-- What holds for the task. -/
def TaskOk (c : Cache) (m : MagLayer) : Task → Prop
  | .purge i => (∀ j < i, j < c.ncpus → (m.cpu j).ccMagsize = 0) ∧ m.cacheMagtype + 1 < kmemMagtype.length
  | .purgeFree i _ => (∀ j < i, j < c.ncpus → (m.cpu j).ccMagsize = 0) ∧ m.cacheMagtype + 1 < kmemMagtype.length
  | .reap true => Resizing c m ∧ Drains m.cacheFull ∧ Drains m.cacheEmpty
  | .reapFull n true => Resizing c m ∧ n = m.cacheFull.mlTotal ∧ Drains m.cacheEmpty
  | .reapFree n _ true => Resizing c m ∧ n = m.cacheFull.mlTotal ∧ Drains m.cacheEmpty
  | .reapRead true => Resizing c m ∧ m.cacheFull.mlTotal = 0 ∧ Drains m.cacheEmpty
  | .reapEmpty n true => Resizing c m ∧ m.cacheFull.mlTotal = 0 ∧ n = m.cacheEmpty.mlTotal
  | .setType => Resizing c m ∧ m.cacheFull.mlTotal = 0 ∧ m.cacheEmpty.mlTotal = 0
  | .enable i => ∀ j, i ≤ j → j < c.ncpus → (m.cpu j).ccMagsize = 0
  | _ => True

/-- What the others may do to a list while the CPU caches are disabled. -/
structure Settled (ml ml' : Maglist) : Prop where
  mlTotal : ml'.mlTotal = ml.mlTotal
  drains : Drains ml → Drains ml'

lemma Settled.refl (ml : Maglist) : Settled ml ml := ⟨rfl, id⟩

lemma Settled.wsUpdate (ml : Maglist) : Settled ml ml.wsUpdate := ⟨rfl, fun h => ⟨rfl, h.mlMin⟩⟩

lemma Settled.wsZero (ml : Maglist) : Settled ml ml.wsZero := ⟨rfl, fun _ => ⟨rfl, rfl⟩⟩

/-- What the others may do while the task is between two steps. -/
structure Quiet (c : Cache) (m m' : MagLayer) : Prop where
  magtype : m'.cacheMagtype = m.cacheMagtype
  magsize : ∀ j, (m'.cpu j).ccMagsize = (m.cpu j).ccMagsize
  full : AllOff c m → Settled m.cacheFull m'.cacheFull
  empty : AllOff c m → Settled m.cacheEmpty m'.cacheEmpty

lemma Quiet.refl (m : MagLayer) : Quiet c m m := ⟨rfl, fun _ => rfl, fun _ => .refl _, fun _ => .refl _⟩

lemma Frame.quiet (hi : i < c.ncpus) (h : Frame i m m') : Quiet c m m' := by
  refine ⟨h.magtype, fun j => ?_, fun hoff => ?_, fun hoff => ?_⟩
  · rcases eq_or_ne j i with rfl | hne
    · exact h.magsize
    · rw [h.other j hne]
  · rw [(h.depot (hoff i hi)).1]
    exact .refl _
  · rw [(h.depot (hoff i hi)).2]
    exact .refl _

lemma Quiet.wsUpdate (m : MagLayer) : Quiet c m (kmemDepotWsUpdate m) :=
  ⟨rfl, fun _ => rfl, fun _ => .wsUpdate _, fun _ => .wsUpdate _⟩

lemma Quiet.wsZero (m : MagLayer) : Quiet c m (kmemDepotWsZero m) :=
  ⟨rfl, fun _ => rfl, fun _ => .wsZero _, fun _ => .wsZero _⟩

lemma Resizing.quiet (h : Resizing c m) (hq : Quiet c m m') : Resizing c m' :=
  ⟨fun j hj => (hq.magsize j).trans (h.off j hj), by rw [hq.magtype]; exact h.next⟩

variable {t : Task}

lemma TaskOk.quiet (h : TaskOk c m t) (hq : Quiet c m m') : TaskOk c m' t := by
  match t, h with
  | .purge i, h => exact ⟨fun j hj hn => (hq.magsize j).trans (h.1 j hj hn), by rw [hq.magtype]; exact h.2⟩
  | .purgeFree i _, h => exact ⟨fun j hj hn => (hq.magsize j).trans (h.1 j hj hn), by rw [hq.magtype]; exact h.2⟩
  | .reap true, h => exact ⟨h.1.quiet hq, (hq.full h.1.off).drains h.2.1, (hq.empty h.1.off).drains h.2.2⟩
  | .reapFull n true, h => exact ⟨h.1.quiet hq, h.2.1.trans (hq.full h.1.off).mlTotal.symm, (hq.empty h.1.off).drains h.2.2⟩
  | .reapFree n _ true, h => exact ⟨h.1.quiet hq, h.2.1.trans (hq.full h.1.off).mlTotal.symm, (hq.empty h.1.off).drains h.2.2⟩
  | .reapRead true, h => exact ⟨h.1.quiet hq, (hq.full h.1.off).mlTotal.trans h.2.1, (hq.empty h.1.off).drains h.2.2⟩
  | .reapEmpty n true, h =>
    exact ⟨h.1.quiet hq, (hq.full h.1.off).mlTotal.trans h.2.1, h.2.2.trans (hq.empty h.1.off).mlTotal.symm⟩
  | .setType, h => exact ⟨h.1.quiet hq, (hq.full h.1.off).mlTotal.trans h.2.1, (hq.empty h.1.off).mlTotal.trans h.2.2⟩
  | .enable i, h => exact fun j hj hn => (hq.magsize j).trans (h j hj hn)
  | .idle, _ => trivial
  | .reap false, _ => trivial
  | .reapFull _ false, _ => trivial
  | .reapFree _ _ false, _ => trivial
  | .reapRead false, _ => trivial
  | .reapEmpty _ false, _ => trivial

/-- What a step of the task does; `rest` is what others have. -/
structure TaskDone (c : Cache) (S : SlabLayer) (m : MagLayer) (t : Task) (rest : Multiset Nat) (S' : SlabLayer) (m' : MagLayer) (t' : Task) :
    Prop where
  slabs : SlabOk c (t'.held + (rest + m'.held c)) S'
  mags : MagOk c m'
  task : TaskOk c m' t'
  shrinks : Shrinks S S'
  cpus : ∀ i < c.ncpus, (m.cpu i).ccMagsize ≠ 0 → t.wants c ≠ some i → m'.cpu i = m.cpu i ∧ m'.cacheMagtype = m.cacheMagtype

lemma kmemSlabFree_task {b : Nat} {bufs : List Nat} (hS : SlabOk c ((b :: bufs : List Nat) + (rest + m.held c)) S) :
    ∃ S', kmemSlabFree c S b = .ok S' ∧ SlabOk c ((bufs : Multiset Nat) + (rest + m.held c)) S' ∧ Shrinks S S' := by
  rw [← Multiset.cons_coe, Multiset.cons_add] at hS
  exact kmemSlabFree_spec hS

/-- A step of the task leaves the enabled CPU caches alone. -/
lemma TaskDone.mags_only {t' : Task} (hS : SlabOk c (t.held + (rest + m.held c)) S) (hm : MagOk c m') (ht : TaskOk c m' t')
    (hheld : t'.held + m'.held c = t.held + m.held c)
    (hcpus : ∀ i < c.ncpus, (m.cpu i).ccMagsize ≠ 0 → t.wants c ≠ some i → m'.cpu i = m.cpu i ∧ m'.cacheMagtype = m.cacheMagtype) :
    TaskDone c S m t rest S m' t' := by
  refine ⟨?_, hm, ht, .refl S, hcpus⟩
  rw [add_left_comm, hheld, add_left_comm]
  exact hS

variable {mt : Nat}

lemma CpuOk.of_off {cc : CpuCache} (h : CpuOk mt cc) (hmt : mt < kmemMagtype.length) (h0 : cc.ccMagsize = 0) :
    cc = ⟨none, none, -1, -1, 0⟩ := by
  have hpos := mtMagsize_pos mt hmt
  cases h with
  | disabled => rfl
  | unloaded => exact absurd h0 (Nat.ne_of_gt hpos)
  | one mp n h hn => exact absurd h0 (Nat.ne_of_gt hpos)
  | two mp pmp n p h hp hn hpn => exact absurd h0 (Nat.ne_of_gt hpos)

lemma MaglistOk.of_total_zero {mt' : Nat} {ml : Maglist} (h : MaglistOk mt ml) (h0 : ml.mlTotal = 0) : MaglistOk mt' ml := by
  have hnil : ml.mlList = [] := List.eq_nil_of_length_eq_zero (h.mlTotal.symm.trans h0)
  exact ⟨fun mp hmp => (by rw [hnil] at hmp; cases hmp), h.mlTotal, h.mlMin⟩

lemma taskRun_spec (hS : SlabOk c (t.held + (rest + m.held c)) S) (hm : MagOk c m) (ht : TaskOk c m t) :
    ∃ S' m' t', taskRun c S m t = .ok (S', m', t') ∧ TaskDone c S m t rest S' m' t' := by
  have hkeep : ∀ i < c.ncpus, (m.cpu i).ccMagsize ≠ 0 → t.wants c ≠ some i → m.cpu i = m.cpu i ∧ m.cacheMagtype = m.cacheMagtype :=
    fun _ _ _ _ => ⟨rfl, rfl⟩
  match t with
  | .idle => exact ⟨_, _, _, rfl, .mags_only hS hm ht rfl hkeep⟩
  | .purge i =>
    by_cases hi : i < c.ncpus
    · obtain ⟨bufs, m', hpurge, hok, hheld, hoff, hother, hmt⟩ := cpuPurge_spec hm hi
      rw [taskRun, if_pos hi, hpurge, ok_bind]
      refine ⟨_, _, _, rfl, .mags_only hS hok ⟨fun j hj hn => ?_, by rw [hmt]; exact ht.2⟩ ?_ ?_⟩
      · rcases eq_or_ne j i with rfl | hne
        · exact hoff
        · rw [hother j hne]
          exact ht.1 j (by omega) hn
      · exact hheld.trans (zero_add _).symm
      · intro j hj _ hw
        refine ⟨hother j fun heq => hw ?_, hmt⟩
        rw [heq, Task.wants, if_pos hi]
    · rw [taskRun, if_neg hi]
      refine ⟨_, _, _, rfl, .mags_only hS ⟨hm.magtype, hm.cpus, hm.full.wsZero, hm.empty.wsZero⟩
        ⟨⟨fun j hj => ht.1 j (by omega) hj, ht.2⟩, ⟨rfl, rfl⟩, ⟨rfl, rfl⟩⟩ rfl fun _ _ _ _ => ⟨rfl, rfl⟩⟩
  | .purgeFree i [] => exact ⟨_, _, _, rfl, .mags_only hS hm ht rfl hkeep⟩
  | .purgeFree i (b :: bufs) =>
    obtain ⟨S', hfree, hok, hsh⟩ := kmemSlabFree_task hS
    rw [taskRun, hfree, ok_bind]
    exact ⟨_, _, _, rfl, hok, hm, ht, hsh, hkeep⟩
  | .reap r =>
    refine ⟨_, _, _, rfl, .mags_only hS hm ?_ rfl hkeep⟩
    cases r with
    | false => trivial
    | true => exact ⟨ht.1, by rw [ht.2.1.mlMin, ht.2.1.mlReaplimit, min_self], ht.2.2⟩
  | .reapFull 0 r =>
    refine ⟨_, _, _, rfl, .mags_only hS hm ?_ rfl hkeep⟩
    cases r with
    | false => trivial
    | true => exact ⟨ht.1, ht.2.1.symm, ht.2.2⟩
  | .reapFull (n + 1) r =>
    rcases Maglist.alloc_spec hm.full with ⟨hnil, halloc⟩ | ⟨mp, ml', halloc, htype, hok, hlist, htotal⟩
    · rw [taskRun, halloc, ok_bind]
      refine ⟨_, _, _, rfl, .mags_only hS hm ?_ rfl hkeep⟩
      cases r with
      | false => trivial
      | true => exact ⟨ht.1, by rw [hm.full.mlTotal, hnil, List.length_nil], ht.2.2⟩
    · rw [taskRun, halloc, ok_bind]
      refine ⟨_, _, _, rfl, .mags_only hS ⟨hm.magtype, hm.cpus, hok, hm.empty⟩ ?_ ?_ fun _ _ _ _ => ⟨rfl, rfl⟩⟩
      · cases r with
        | false => trivial
        | true => exact ⟨⟨ht.1.off, ht.1.next⟩, by rw [htotal, ← ht.2.1]; rfl, ht.2.2⟩
      · show ((rounds (some mp) (mtMagsize m.cacheMagtype) : List Nat) : Multiset Nat) + (_ + ml'.held) = 0 + (_ + m.cacheFull.held)
        rw [← htype]
        unfold Maglist.held
        rw [hlist, List.map_cons, List.sum_cons, zero_add, add_left_comm]
        rfl
  | .reapFree n [] r =>
    refine ⟨_, _, _, rfl, .mags_only hS hm ?_ rfl hkeep⟩
    cases r with
    | false => trivial
    | true => exact ht
  | .reapFree n (b :: bufs) r =>
    obtain ⟨S', hfree, hok, hsh⟩ := kmemSlabFree_task hS
    rw [taskRun, hfree, ok_bind]
    refine ⟨_, _, _, rfl, hok, hm, ?_, hsh, hkeep⟩
    cases r with
    | false => trivial
    | true => exact ht
  | .reapRead r =>
    refine ⟨_, _, _, rfl, .mags_only hS hm ?_ rfl hkeep⟩
    cases r with
    | false => trivial
    | true => exact ⟨ht.1, ht.2.1, by rw [ht.2.2.mlMin, ht.2.2.mlReaplimit, min_self]⟩
  | .reapEmpty 0 r =>
    cases r with
    | false => exact ⟨_, _, _, rfl, .mags_only hS hm trivial rfl hkeep⟩
    | true => exact ⟨_, _, _, rfl, .mags_only hS hm ⟨ht.1, ht.2.1, ht.2.2.symm⟩ rfl hkeep⟩
  | .reapEmpty (n + 1) r =>
    rcases Maglist.alloc_spec hm.empty with ⟨hnil, halloc⟩ | ⟨mp, ml', halloc, htype, hok, hlist, htotal⟩
    · have hzero : m.cacheEmpty.mlTotal = 0 := by rw [hm.empty.mlTotal, hnil, List.length_nil]
      cases r with
      | false =>
        rw [taskRun, halloc, ok_bind]
        exact ⟨_, _, _, rfl, .mags_only hS hm trivial rfl hkeep⟩
      | true =>
        rw [taskRun, halloc, ok_bind]
        exact ⟨_, _, _, rfl, .mags_only hS hm ⟨ht.1, ht.2.1, hzero⟩ rfl hkeep⟩
    · rw [taskRun, halloc, ok_bind]
      refine ⟨_, _, _, rfl, .mags_only hS ⟨hm.magtype, hm.cpus, hm.full, hok⟩ ?_ rfl fun _ _ _ _ => ⟨rfl, rfl⟩⟩
      cases r with
      | false => trivial
      | true => exact ⟨⟨ht.1.off, ht.1.next⟩, ht.2.1, by rw [htotal, ← ht.2.2]; rfl⟩
  | .setType =>
    refine ⟨_, _, _, rfl, .mags_only hS ⟨ht.1.next, fun j hj => ?_, hm.full.of_total_zero ht.2.1, hm.empty.of_total_zero ht.2.2⟩
      (fun j _ hj => ht.1.off j hj) rfl fun j hj hne _ => absurd (ht.1.off j hj) hne⟩
    rw [(hm.cpus j hj).of_off hm.magtype (ht.1.off j hj)]
    exact .disabled
  | .enable i =>
    by_cases hi : c.noMagazine = false ∧ i < c.ncpus
    · have hcc := (hm.cpus i hi.2).of_off hm.magtype (ht i le_rfl hi.2)
      have hother : ∀ j, j ≠ i → update m.cpu i { m.cpu i with ccMagsize := mtMagsize m.cacheMagtype } j = m.cpu j :=
        fun j hj => update_of_ne hj _ _
      rw [taskRun, if_pos hi]
      refine ⟨_, _, _, rfl, .mags_only hS ⟨hm.magtype, fun j hj => ?_, hm.full, hm.empty⟩ (fun j hij hj => ?_) ?_ ?_⟩
      · show CpuOk _ (update m.cpu i _ j)
        rcases eq_or_ne j i with rfl | hne
        · rw [update_self, hcc]
          exact .unloaded
        · rw [hother j hne]
          exact hm.cpus j hj
      · show (update m.cpu i _ j).ccMagsize = 0
        rw [hother j (by omega)]
        exact ht j (by omega) hj
      · refine MagLayer.held_frame hi.2 hother ?_
        show _ + ((update m.cpu i _ i).held + _) = _
        rw [update_self]
        rfl
      · intro j _ _ hw
        exact ⟨hother j fun heq => hw (by rw [heq]; rfl), rfl⟩
    · rw [taskRun, if_neg hi]
      exact ⟨_, _, _, rfl, .mags_only hS hm trivial rfl hkeep⟩

end Unleashed.Kernel.Kmem
