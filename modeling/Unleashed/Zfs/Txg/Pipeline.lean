import Unleashed.Zfs.Txg.Basic

/-!
# The order of transaction groups

The last synced, the syncing, the quiescing or quiesced and the open txg are consecutive. All handles and callbacks
are of these, at most three at a time, so that they have different slots.
-/

namespace Unleashed.Zfs.Txg

open Lib Function Finset Multiset Nat SyncPhase TxState

lemma txgSlot_eq (txg : Nat) : txgSlot txg = txg % 4 := and_two_pow_sub_one_eq_mod txg 2

lemma txgSlot_lt (txg : Nat) : txgSlot txg < txgSize := by
  rw [txgSlot_eq]
  exact mod_lt _ (by decide)

section
variable {α : Type} (f : Nat → Nat → α) (c g : Nat) (x : α)

lemma setSlot_apply (c' g' : Nat) : setSlot f c g x c' g' = if c' = c ∧ g' = g then x else f c' g' := by
  unfold setSlot
  rcases eq_or_ne c' c with rfl | hc
  · rw [update_self]
    rcases eq_or_ne g' g with rfl | hg
    · rw [update_self, if_pos ⟨rfl, rfl⟩]
    · rw [update_of_ne hg, if_neg fun h => hg h.2]
  · rw [update_of_ne hc, if_neg fun h => hc h.1]

end

/-- All callbacks that wait for their txg. -/
def TxState.pending (s : TxState) : Multiset TxCallback :=
  ∑ c ∈ Finset.range s.maxNcpus, ∑ g ∈ Finset.range txgSize, s.tcCallbacks c g

lemma sum_setSlot {n c g : Nat} (f : Nat → Nat → Multiset TxCallback) (x : Multiset TxCallback) (hc : c < n) (hg : g < txgSize) :
    (∑ c' ∈ Finset.range n, ∑ g' ∈ Finset.range txgSize, setSlot f c g x c' g') + f c g =
      (∑ c' ∈ Finset.range n, ∑ g' ∈ Finset.range txgSize, f c' g') + x := by
  have hinner : ∑ g' ∈ Finset.range txgSize, setSlot f c g x c g' + f c g = ∑ g' ∈ Finset.range txgSize, f c g' + x := by
    rw [← add_sum_erase _ _ (mem_range.2 hg), ← add_sum_erase _ (f c) (mem_range.2 hg),
      setSlot_apply, if_pos ⟨rfl, rfl⟩, sum_congr rfl fun g' hg' => by
        rw [setSlot_apply, if_neg fun h => (mem_erase.1 hg').1 h.2]]
    abel
  rw [← add_sum_erase _ _ (mem_range.2 hc),
    ← add_sum_erase _ (fun c' => ∑ g' ∈ Finset.range txgSize, f c' g') (mem_range.2 hc),
    sum_congr rfl fun c' hc' => sum_congr rfl fun g' _ => by
      rw [setSlot_apply, if_neg fun h => (mem_erase.1 hc').1 h.1],
    add_right_comm, hinner, add_right_comm]

/-- The txgs around the quiesce thread; `m` was given last to the sync thread. -/
def StageOk (n m : Nat) (s : TxState) : Prop :=
  match s.quiesce with
  | .idle => s.txQuiescingTxg = 0 ∧ (s.txQuiescedTxg = 0 ∧ s.txOpenTxg = m + 1 ∨ s.txQuiescedTxg = m + 1 ∧ s.txOpenTxg = m + 2)
  | .locking c => s.txQuiescingTxg = m + 1 ∧ s.txQuiescedTxg = 0 ∧ s.txOpenTxg = m + 1 ∧ c ≤ n
  | .releasing c => s.txQuiescingTxg = m + 1 ∧ s.txQuiescedTxg = 0 ∧ s.txOpenTxg = m + 2 ∧ c ≤ n
  | .waiting c => s.txQuiescingTxg = m + 1 ∧ s.txQuiescedTxg = 0 ∧ s.txOpenTxg = m + 2 ∧ c ≤ n

/-- The txgs around the sync thread; `b` is the last one that it synced. -/
def SyncOk (n b m : Nat) (s : TxState) : Prop :=
  match s.sync with
  | .idle => s.txSyncingTxg = 0 ∧ m = b
  | .syncing => s.txSyncingTxg = b + 1 ∧ m = b + 1
  | .dispatching c => s.txSyncingTxg = 0 ∧ m = b ∧ s.txSyncedTxg = b ∧ c ≤ n

/-- A CPU that may still have handles of the quiescing txg. -/
def NotPassed (s : TxState) (c : Nat) : Prop :=
  match s.quiesce with
  | .releasing _ => True
  | .waiting k => k ≤ c
  | _ => False

/-- The CPUs whose `tc_open_lock` the quiesce thread has. -/
def QuiescePhase.Locked : QuiescePhase → Nat → Prop
  | .locking k, c => c < k
  | .releasing k, c => k ≤ c
  | _, _ => False

/-- **The invariant of the pipeline.** A thread in `txg_hold_open` has read the txg that is still open, because the
quiesce thread needs its lock to open the next one. -/
structure Pipeline (n first b m : Nat) (s : TxState) : Prop where
  ncpus : s.maxNcpus = n
  start : 0 < first
  synced : s.txSyncedTxg = b ∧ first ≤ b ∨ s.txSyncedTxg = 0 ∧ b + 1 = first
  sync : SyncOk n b m s
  stage : StageOk n m s
  syncs : s.spaSyncs = List.range' first (m + 1 - first)
  entering : ∀ c txg, s.tcOpenLock c = .entering txg → c < n ∧ txg = s.txOpenTxg
  locked : ∀ c < n, s.quiesce.Locked c → s.tcOpenLock c = .quiesce
  live : ∀ th ∈ s.handles, th.thCpu < n ∧ (th.thTxg = s.txOpenTxg ∨ th.thTxg = s.txQuiescingTxg ∧ NotPassed s th.thCpu)
  counts : ∀ c g, s.tcCount c g = s.handles.countP fun th => th.thCpu = c ∧ txgSlot th.thTxg = g
  waiting : ∀ c g, ∀ cb ∈ s.tcCallbacks c g, c < n ∧ g = txgSlot cb.txg ∧ cb.txg ≤ s.txOpenTxg ∧
    (b < cb.txg ∨ cb.txg = b ∧ ∃ k ≤ c, s.sync = .dispatching k)
  kept : s.registered = s.pending + s.dispatched.map Prod.fst
  after : ∀ x ∈ s.dispatched, x.1.txg = x.2 ∧ x.2 ≤ b ∧ x.2 ≤ s.txSyncedTxg

section
variable {n first b m : Nat} {s : TxState}

lemma txgInit_pipeline (hfirst : 0 < first) : Pipeline n first (first - 1) (first - 1) (txgInit n first) := by
  refine ⟨rfl, hfirst, .inr ⟨rfl, by omega⟩, ⟨rfl, rfl⟩, ⟨rfl, .inl ⟨rfl, ?_⟩⟩, ?_, ?_, ?_, ?_, ?_, ?_, ?_, ?_⟩
  · show first = first - 1 + 1
    omega
  · rw [show first - 1 + 1 - first = 0 by omega]
    rfl
  · exact fun c txg hlock => absurd hlock OpenLock.noConfusion
  · exact fun c _ hlocked => absurd hlocked id
  · exact fun th hth => absurd hth (notMem_zero th)
  · exact fun _ _ => rfl
  · exact fun _ _ cb hcb => absurd hcb (notMem_zero cb)
  · simp [txgInit, TxState.pending]
  · exact fun x hx => absurd hx (notMem_zero x)

lemma Pipeline.order (h : Pipeline n first b m s) :
    s.txSyncedTxg ≤ b ∧ (s.txSyncingTxg = 0 ∧ m = b ∨ s.txSyncingTxg = b + 1 ∧ m = b + 1) ∧
      (s.txQuiescedTxg = 0 ∨ s.txQuiescedTxg = m + 1 ∧ s.txQuiescingTxg = 0 ∧ s.txOpenTxg = m + 2) ∧
      (s.txQuiescingTxg = 0 ∨ s.txQuiescingTxg = m + 1) ∧ m < s.txOpenTxg ∧ s.txOpenTxg ≤ m + 2 := by
  have hsynced := h.synced
  have hsync := h.sync
  have hstage := h.stage
  unfold SyncOk at hsync
  unfold StageOk at hstage
  cases hs : s.sync <;> cases hq : s.quiesce <;> simp only [hs, hq] at hsync hstage <;> omega

lemma Pipeline.open_bounds (h : Pipeline n first b m s) :
    b ≤ m ∧ m ≤ b + 1 ∧ m < s.txOpenTxg ∧ s.txOpenTxg ≤ m + 2 ∧ (s.txQuiescingTxg ≠ 0 → s.txQuiescingTxg = m + 1) ∧
      s.txQuiescingTxg ≤ s.txOpenTxg := by
  have horder := h.order
  omega

variable {th : TxgHandle}

/-- A handle's txg is after the last one given to the sync thread. -/
lemma Pipeline.handle_bounds (h : Pipeline n first b m s) (hth : th ∈ s.handles) :
    m < th.thTxg ∧ th.thTxg ≤ s.txOpenTxg := by
  obtain ⟨-, hmb, hlt, hle, hq, hqle⟩ := h.open_bounds
  rcases (h.live th hth).2 with heq | ⟨heq, hnot⟩
  · omega
  · have hne : s.txQuiescingTxg ≠ 0 := by
      have hstage := h.stage
      unfold StageOk at hstage
      unfold NotPassed at hnot
      cases hph : s.quiesce <;> simp only [hph] at hstage hnot <;> omega
    omega

variable {phase : QuiescePhase}

section
variable (h : Pipeline n first b m s)
include h

lemma Pipeline.stageAt (hq : s.quiesce = phase) : StageOk n m { s with quiesce := phase } := by
  subst hq
  exact h.stage

lemma Pipeline.syncAt {phase : SyncPhase} (hs : s.sync = phase) : SyncOk n b m { s with sync := phase } := by
  subst hs
  exact h.sync

/-- Before the next txg is open, all handles are of the open one. -/
lemma Pipeline.live_open (hq : s.quiesce = .idle ∨ ∃ c, s.quiesce = .locking c)
    (hth : th ∈ s.handles) : th.thCpu < n ∧ th.thTxg = s.txOpenTxg := by
  obtain ⟨hcpu, heq | ⟨-, hnot⟩⟩ := h.live th hth
  · exact ⟨hcpu, heq⟩
  · unfold NotPassed at hnot
    rcases hq with hq | ⟨c, hq⟩ <;> rw [hq] at hnot <;> exact absurd hnot id

/-- Before the callbacks of the synced txg are dispatched, none of them waits. -/
lemma Pipeline.waiting_after (hs : ∀ k, s.sync ≠ .dispatching k) {c g : Nat} {cb : TxCallback}
    (hcb : cb ∈ s.tcCallbacks c g) : c < n ∧ g = txgSlot cb.txg ∧ cb.txg ≤ s.txOpenTxg ∧ b < cb.txg := by
  obtain ⟨hc, hg, hle, hgt | ⟨-, k, -, hk⟩⟩ := h.waiting c g cb hcb
  · exact ⟨hc, hg, hle, hgt⟩
  · exact absurd hk (hs k)

lemma Pipeline.setWaiting (x y : Nat) : Pipeline n first b m { s with txSyncTxgWaiting := x, txQuiesceTxgWaiting := y } :=
  { h with }

/-- A lock that changes hands, to a thread that has read the open txg if it is in `txg_hold_open`. -/
lemma Pipeline.entering_update {c : Nat} {lock : OpenLock} (hlock : ∀ txg, lock = .entering txg → c < n ∧ txg = s.txOpenTxg)
    (c' txg : Nat) (hc' : update s.tcOpenLock c lock c' = .entering txg) : c' < n ∧ txg = s.txOpenTxg := by
  rcases eq_or_ne c' c with rfl | hne
  · rw [update_self] at hc'
    exact hlock txg hc'
  · rw [update_of_ne hne] at hc'
    exact h.entering c' txg hc'

/-- A thread other than the quiesce thread takes or drops a lock. -/
lemma Pipeline.setOpenLock {c : Nat} (lock : OpenLock) (hc : s.tcOpenLock c ≠ .quiesce)
    (hlock : ∀ txg, lock = .entering txg → c < n ∧ txg = s.txOpenTxg) :
    Pipeline n first b m { s with tcOpenLock := update s.tcOpenLock c lock } := by
  refine { h with entering := h.entering_update hlock, locked := fun c' hn hlocked => ?_ }
  have hold := h.locked c' hn hlocked
  have hne : c' ≠ c := fun heq => hc (heq ▸ hold)
  dsimp only
  rw [update_of_ne hne, hold]

/-- The txg that was read under the lock is the open one when it is counted. -/
lemma Pipeline.hold {c txg : Nat} (hlock : s.tcOpenLock c = .entering txg) : Pipeline n first b m { s with
      tcCount := setSlot s.tcCount c (txgSlot txg) (s.tcCount c (txgSlot txg) + 1)
      handles := ⟨c, txg⟩ ::ₘ s.handles
      tcOpenLock := update s.tcOpenLock c .held } := by
  obtain ⟨hc, rfl⟩ := h.entering c txg hlock
  have hset := h.setOpenLock (c := c) .held (by rw [hlock]; exact OpenLock.noConfusion) fun _ => OpenLock.noConfusion
  refine { hset with live := fun th hth => ?_, counts := fun c' g => ?_ }
  · rcases mem_cons.1 hth with rfl | hth
    · exact ⟨hc, .inl rfl⟩
    · exact h.live th hth
  · dsimp only
    rw [setSlot_apply, countP_cons]
    split
    next heq =>
      obtain ⟨rfl, rfl⟩ := heq
      rw [h.counts, if_pos ⟨rfl, rfl⟩]
    next hne => rw [h.counts, if_neg fun heq => hne ⟨heq.1.symm, heq.2.symm⟩, add_zero]

lemma Pipeline.registerCallbacks (hth : th ∈ s.handles) (idents : Multiset Nat) : Pipeline n first b m { s with
      tcCallbacks := setSlot s.tcCallbacks th.thCpu (txgSlot th.thTxg)
        (s.tcCallbacks th.thCpu (txgSlot th.thTxg) + idents.map fun ident => ⟨th.thTxg, ident⟩)
      registered := s.registered + idents.map fun ident => ⟨th.thTxg, ident⟩ } := by
  have hcpu := (h.live th hth).1
  obtain ⟨hgt, hle⟩ := h.handle_bounds hth
  have hb := h.open_bounds.1
  refine { h with waiting := fun c g cb hcb => ?_, kept := ?_ }
  · dsimp only at hcb ⊢
    rw [setSlot_apply] at hcb
    split at hcb
    next heq =>
      obtain ⟨rfl, rfl⟩ := heq
      rcases mem_add.1 hcb with hcb | hcb
      · exact h.waiting _ _ cb hcb
      · obtain ⟨ident, -, rfl⟩ := mem_map.1 hcb
        exact ⟨hcpu, rfl, hle, .inl (hb.trans_lt hgt)⟩
    next => exact h.waiting c g cb hcb
  · have hsum := sum_setSlot s.tcCallbacks (s.tcCallbacks th.thCpu (txgSlot th.thTxg) +
      idents.map fun ident => ⟨th.thTxg, ident⟩) (h.ncpus ▸ hcpu : th.thCpu < s.maxNcpus)
      (txgSlot_lt th.thTxg)
    have hpending : (∑ c' ∈ Finset.range s.maxNcpus, ∑ g' ∈ Finset.range txgSize,
        setSlot s.tcCallbacks th.thCpu (txgSlot th.thTxg) (s.tcCallbacks th.thCpu (txgSlot th.thTxg) +
          idents.map fun ident => ⟨th.thTxg, ident⟩) c' g') = s.pending + idents.map fun ident => ⟨th.thTxg, ident⟩ := by
      refine add_right_cancel (b := s.tcCallbacks th.thCpu (txgSlot th.thTxg)) ?_
      rw [hsum]
      unfold TxState.pending
      abel
    refine Eq.trans ?_ (congrArg (· + s.dispatched.map Prod.fst) hpending.symm)
    show s.registered + _ = _
    rw [h.kept, add_right_comm]

lemma Pipeline.releToSync (hth : th ∈ s.handles) : s.tcCount th.thCpu (txgSlot th.thTxg) ≠ 0 ∧ Pipeline n first b m { s with
      tcCount := setSlot s.tcCount th.thCpu (txgSlot th.thTxg) (s.tcCount th.thCpu (txgSlot th.thTxg) - 1)
      handles := s.handles.erase th } := by
  have hcons := cons_erase hth
  have hcount : ∀ c g, s.tcCount c g = (s.handles.erase th).countP (fun th => th.thCpu = c ∧ txgSlot th.thTxg = g) +
      if th.thCpu = c ∧ txgSlot th.thTxg = g then 1 else 0 := by
    intro c g
    rw [h.counts, ← countP_cons, hcons]
  have hown := hcount th.thCpu (txgSlot th.thTxg)
  rw [if_pos ⟨rfl, rfl⟩] at hown
  refine ⟨by omega, { h with live := fun th' hth' => h.live th' (mem_of_mem_erase hth'), counts := fun c g => ?_ }⟩
  dsimp only
  rw [setSlot_apply]
  split
  next heq =>
    obtain ⟨rfl, rfl⟩ := heq
    omega
  next hne =>
    rw [hcount, if_neg fun heq => hne ⟨heq.1.symm, heq.2.symm⟩, add_zero]

lemma Pipeline.quiesceStart (hq : s.quiesce = .idle) (h0 : s.txQuiescedTxg = 0) :
    Pipeline n first b m { s with txQuiescingTxg := s.txOpenTxg, quiesce := .locking 0 } := by
  have hopen : s.txOpenTxg = m + 1 := by
    rcases (h.stageAt hq).2 with ⟨-, hopen⟩ | ⟨hqd, -⟩
    · exact hopen
    · exact absurd (h0.symm.trans hqd) (succ_ne_zero m).symm
  refine { h with
    stage := ⟨hopen, h0, hopen, zero_le _⟩
    locked := fun c _ hc => absurd hc (not_lt_zero c)
    live := fun th hth => ?_ }
  obtain ⟨hcpu, heq⟩ := h.live_open (.inl hq) hth
  exact ⟨hcpu, .inl heq⟩

lemma Pipeline.quiesceLock {c : Nat} (hq : s.quiesce = .locking c) (hc : c < s.maxNcpus) :
    Pipeline n first b m { s with tcOpenLock := update s.tcOpenLock c .quiesce, quiesce := .locking (c + 1) } := by
  obtain ⟨hqg, hqd, hopen, -⟩ := h.stageAt hq
  refine { h with
    stage := ⟨hqg, hqd, hopen, h.ncpus ▸ hc⟩
    entering := h.entering_update fun _ => OpenLock.noConfusion
    locked := fun c' hn hlocked => ?_
    live := fun th hth => ?_ }
  · dsimp only
    rcases eq_or_ne c' c with rfl | hne
    · rw [update_self]
    · rw [update_of_ne hne]
      exact h.locked c' hn (by rw [hq]; exact lt_of_le_of_ne (le_of_lt_succ hlocked) hne)
  · obtain ⟨hcpu, heq⟩ := h.live_open (.inr ⟨c, hq⟩) hth
    exact ⟨hcpu, .inl heq⟩

/-- With all locks the quiesce thread has kept every thread out of `txg_hold_open`. -/
lemma Pipeline.none_entering (hq : s.quiesce = .locking s.maxNcpus) (c txg : Nat) : s.tcOpenLock c ≠ .entering txg := by
  intro hc
  obtain ⟨hn, -⟩ := h.entering c txg hc
  have hlocked := h.locked c hn (by rw [hq, h.ncpus]; exact hn)
  rw [hlocked] at hc
  exact absurd hc OpenLock.noConfusion

/-- The next txg is open; the handles of the old one wait. -/
lemma Pipeline.quiesceOpen (hq : s.quiesce = .locking s.maxNcpus) :
    s.txQuiescingTxg = s.txOpenTxg ∧ Pipeline n first b m { s with txOpenTxg := s.txOpenTxg + 1, quiesce := .releasing 0 } := by
  obtain ⟨hqg, hqd, hopen, -⟩ := h.stageAt hq
  dsimp only at hqg hopen
  refine ⟨by omega, { h with
    stage := ⟨hqg, hqd, by dsimp only; omega, zero_le _⟩
    entering := fun c txg hc => absurd hc (h.none_entering hq c txg)
    locked := fun c hn _ => h.locked c hn (by rw [hq, h.ncpus]; exact hn)
    live := fun th hth => ?_
    waiting := fun c g cb hcb => ?_ }⟩
  · obtain ⟨hcpu, heq⟩ := h.live_open (.inr ⟨_, hq⟩) hth
    exact ⟨hcpu, .inr ⟨by dsimp only; omega, trivial⟩⟩
  · obtain ⟨hc, hg, hle, hrest⟩ := h.waiting c g cb hcb
    exact ⟨hc, hg, hle.trans (le_succ _), hrest⟩

lemma Pipeline.quiesceRelease {c : Nat} (hq : s.quiesce = .releasing c) (hc : c < s.maxNcpus) :
    Pipeline n first b m { s with tcOpenLock := update s.tcOpenLock c .free, quiesce := .releasing (c + 1) } := by
  obtain ⟨hqg, hqd, hopen, -⟩ := h.stageAt hq
  refine { h with
    stage := ⟨hqg, hqd, hopen, h.ncpus ▸ hc⟩
    entering := h.entering_update fun _ => OpenLock.noConfusion
    locked := fun c' hn hlocked => ?_
    live := fun th hth => ?_ }
  · have hlt : c < c' := hlocked
    dsimp only
    rw [update_of_ne hlt.ne']
    exact h.locked c' hn (by rw [hq]; exact hlt.le)
  · obtain ⟨hcpu, heq | ⟨heq, -⟩⟩ := h.live th hth
    · exact ⟨hcpu, .inl heq⟩
    · exact ⟨hcpu, .inr ⟨heq, trivial⟩⟩

lemma Pipeline.quiesceReleased {c : Nat} (hq : s.quiesce = .releasing c) :
    Pipeline n first b m { s with quiesce := .waiting 0 } := by
  obtain ⟨hqg, hqd, hopen, -⟩ := h.stageAt hq
  refine { h with stage := ⟨hqg, hqd, hopen, zero_le _⟩, locked := fun _ _ hc => absurd hc id, live := fun th hth => ?_ }
  obtain ⟨hcpu, heq | ⟨heq, -⟩⟩ := h.live th hth
  · exact ⟨hcpu, .inl heq⟩
  · exact ⟨hcpu, .inr ⟨heq, zero_le _⟩⟩

lemma Pipeline.quiesceWait {c : Nat} (hq : s.quiesce = .waiting c) (hc : c < s.maxNcpus)
    (hcount : s.tcCount c (txgSlot s.txQuiescingTxg) = 0) : Pipeline n first b m { s with quiesce := .waiting (c + 1) } := by
  obtain ⟨hqg, hqd, hopen, -⟩ := h.stageAt hq
  refine { h with stage := ⟨hqg, hqd, hopen, h.ncpus ▸ hc⟩, locked := fun _ _ hc => absurd hc id, live := fun th hth => ?_ }
  obtain ⟨hcpu, heq | ⟨heq, hnot⟩⟩ := h.live th hth
  · exact ⟨hcpu, .inl heq⟩
  · unfold NotPassed at hnot
    rw [hq] at hnot
    refine ⟨hcpu, .inr ⟨heq, lt_of_le_of_ne hnot fun hce => ?_⟩⟩
    rw [h.counts, countP_eq_zero] at hcount
    exact hcount th hth ⟨hce.symm, by rw [heq]⟩

lemma Pipeline.quiesceDone (hq : s.quiesce = .waiting s.maxNcpus) :
    Pipeline n first b m { s with txQuiescedTxg := s.txQuiescingTxg, txQuiescingTxg := 0, quiesce := .idle } := by
  obtain ⟨hqg, -, hopen, -⟩ := h.stageAt hq
  refine { h with stage := ⟨rfl, .inr ⟨hqg, hopen⟩⟩, locked := fun _ _ hc => absurd hc id, live := fun th hth => ?_ }
  obtain ⟨hcpu, heq | ⟨-, hnot⟩⟩ := h.live th hth
  · exact ⟨hcpu, .inl heq⟩
  · unfold NotPassed at hnot
    rw [hq, h.ncpus] at hnot
    exact absurd hcpu (not_lt.2 hnot)

lemma Pipeline.syncStart (hs : s.sync = .idle) (h0 : s.txQuiescedTxg ≠ 0) : Pipeline n first b (m + 1) { s with
      txSyncingTxg := s.txQuiescedTxg
      txQuiescedTxg := 0
      sync := .syncing
      spaSyncs := s.spaSyncs ++ [s.txQuiescedTxg] } := by
  obtain ⟨-, rfl⟩ := h.syncAt hs
  have hb := h.synced
  have hstage := h.stage
  unfold StageOk at hstage
  have hq : s.quiesce = .idle := by
    cases hq : s.quiesce with
    | idle => rfl
    | locking c => simp only [hq] at hstage; omega
    | releasing c => simp only [hq] at hstage; omega
    | waiting c => simp only [hq] at hstage; omega
  rw [hq] at hstage
  have hqd : s.txQuiescedTxg = m + 1 := by omega
  refine { h with sync := ⟨hqd, rfl⟩, stage := ?_, syncs := ?_, waiting := fun c g cb hcb => ?_ }
  · unfold StageOk
    dsimp only
    rw [hq]
    exact ⟨hstage.1, .inl ⟨rfl, by omega⟩⟩
  · rw [h.syncs, hqd, show m + 1 + 1 - first = m + 1 - first + 1 by omega, List.range'_1_concat,
      show first + (m + 1 - first) = m + 1 by omega]
  · obtain ⟨hc, hg, hle, hgt⟩ := h.waiting_after (fun k hk => by rw [hs] at hk; cases hk) hcb
    exact ⟨hc, hg, hle, .inl hgt⟩

lemma Pipeline.syncDone (hs : s.sync = .syncing) :
    Pipeline n first m m { s with txSyncedTxg := s.txSyncingTxg, txSyncingTxg := 0, sync := .dispatching 0 } := by
  obtain ⟨hsy, rfl⟩ := h.syncAt hs
  dsimp only at hsy
  have hb := h.synced
  refine { h with synced := .inl ⟨hsy, by omega⟩, sync := ⟨rfl, rfl, hsy, Nat.zero_le _⟩, waiting := fun c g cb hcb => ?_, after := fun x hx => ?_ }
  · obtain ⟨hc, hg, hle, hgt⟩ := h.waiting_after (fun k hk => by rw [hs] at hk; cases hk) hcb
    refine ⟨hc, hg, hle, ?_⟩
    rcases Nat.eq_or_lt_of_le hgt with heq | hlt
    · exact .inr ⟨heq.symm, 0, Nat.zero_le _, rfl⟩
    · exact .inl hlt
  · obtain ⟨heq, hle, hle'⟩ := h.after x hx
    exact ⟨heq, hle.trans (Nat.le_succ _), by dsimp only; omega⟩

/-- The callbacks in the slot of the synced txg are its own. -/
lemma Pipeline.dispatch {c : Nat} (hs : s.sync = .dispatching c) (hc : c < s.maxNcpus) : Pipeline n first b m { s with
      tcCallbacks := setSlot s.tcCallbacks c (txgSlot s.txSyncedTxg) 0
      dispatched := s.dispatched + (s.tcCallbacks c (txgSlot s.txSyncedTxg)).map fun cb => (cb, s.txSyncedTxg)
      sync := .dispatching (c + 1) } := by
  have hbounds := h.open_bounds
  obtain ⟨hsy, rfl, hsynced, -⟩ := h.syncAt hs
  dsimp only at hsynced
  refine { h with sync := ⟨hsy, rfl, hsynced, h.ncpus ▸ hc⟩, waiting := fun c' g cb hcb => ?_, kept := ?_, after := fun x hx => ?_ }
  · dsimp only at hcb ⊢
    rw [setSlot_apply] at hcb
    split at hcb
    next => exact absurd hcb (Multiset.notMem_zero cb)
    next hne =>
      obtain ⟨hc', hg, hle, hgt | ⟨heq, k, hk, hd⟩⟩ := h.waiting c' g cb hcb
      · exact ⟨hc', hg, hle, .inl hgt⟩
      · rw [hs, dispatching.injEq] at hd
        subst hd
        refine ⟨hc', hg, hle, .inr ⟨heq, c + 1, Nat.lt_of_le_of_ne hk fun hcc => hne ⟨hcc.symm, ?_⟩, rfl⟩⟩
        rw [hg, heq, hsynced]
  · have hsum := sum_setSlot s.tcCallbacks 0 hc (txgSlot_lt s.txSyncedTxg)
    rw [add_zero] at hsum
    have hkept := h.kept
    unfold TxState.pending at hkept ⊢
    dsimp only
    rw [hkept, ← hsum, Multiset.map_add, Multiset.map_map]
    simp only [comp_def, Multiset.map_id']
    abel
  · rcases Multiset.mem_add.1 hx with hx | hx
    · exact h.after x hx
    · obtain ⟨cb, hcb, rfl⟩ := Multiset.mem_map.1 hx
      obtain ⟨-, hg, hle, hrange⟩ := h.waiting _ _ cb hcb
      rw [txgSlot_eq, txgSlot_eq] at hg
      dsimp only
      omega

lemma Pipeline.dispatchDone (hs : s.sync = .dispatching s.maxNcpus) : Pipeline n first b m { s with sync := .idle } := by
  obtain ⟨hsy, rfl, hsynced, -⟩ := h.syncAt hs
  refine { h with sync := ⟨hsy, rfl⟩, waiting := fun c g cb hcb => ?_ }
  obtain ⟨hc, hg, hle, hgt | ⟨-, k, hk, hd⟩⟩ := h.waiting c g cb hcb
  · exact ⟨hc, hg, hle, .inl hgt⟩
  · rw [hs, dispatching.injEq, h.ncpus] at hd
    omega

end

/-- **A step** that is enabled passes its checks and keeps the invariant. -/
theorem Pipeline.run (h : Pipeline n first b m s) (t : TxgStep) (ht : s.enabled t = true) :
    ∃ s' b' m', s.run t = .ok s' ∧ Pipeline n first b' m' s' := by
  cases t with
  | enter c =>
    obtain ⟨hc, hfree⟩ := of_decide_eq_true ht
    refine ⟨_, b, m, rfl, h.setOpenLock _ (by rw [hfree]; exact OpenLock.noConfusion) fun txg htxg => ?_⟩
    exact ⟨h.ncpus ▸ hc, (OpenLock.entering.inj htxg).symm⟩
  | hold c =>
    unfold enabled at ht
    dsimp only at ht
    split at ht
    next txg hlock => exact ⟨_, b, m, by rw [TxState.run, hlock], h.hold hlock⟩
    next => cases ht
  | releToQuiesce c =>
    obtain ⟨-, hheld⟩ := of_decide_eq_true ht
    exact ⟨_, b, m, rfl, h.setOpenLock .free (by rw [hheld]; exact OpenLock.noConfusion) fun _ => OpenLock.noConfusion⟩
  | registerCallbacks th idents => exact ⟨_, b, m, rfl, h.registerCallbacks (of_decide_eq_true ht) idents⟩
  | releToSync th =>
    obtain ⟨hne, h'⟩ := h.releToSync (of_decide_eq_true ht)
    exact ⟨_, b, m, by rw [TxState.run, ASSERT_bind hne], h'⟩
  | quiesceStart =>
    obtain ⟨-, ht⟩ := Bool.and_eq_true_iff.1 ht
    obtain ⟨hq, hnot⟩ := of_decide_eq_true ht
    exact ⟨_, b, m, rfl, h.quiesceStart hq (by_contra fun h0 => hnot (.inr h0))⟩
  | quiesceLock =>
    unfold enabled at ht
    dsimp only at ht
    split at ht
    next c hq => exact ⟨_, b, m, by rw [TxState.run, hq], h.quiesceLock hq (of_decide_eq_true ht).1⟩
    next => cases ht
  | quiesceOpen =>
    obtain ⟨heq, h'⟩ := h.quiesceOpen (of_decide_eq_true ht)
    exact ⟨_, b, m, by rw [TxState.run, ASSERT_bind heq], h'⟩
  | quiesceRelease =>
    unfold enabled at ht
    dsimp only at ht
    split at ht
    next c hq =>
      have hc : c ≤ s.maxNcpus := of_decide_eq_true ht
      rcases eq_or_ne c s.maxNcpus with heq | hne
      · exact ⟨_, b, m, by rw [TxState.run, hq]; exact if_pos heq, h.quiesceReleased hq⟩
      · exact ⟨_, b, m, by rw [TxState.run, hq]; exact if_neg hne, h.quiesceRelease hq (lt_of_le_of_ne hc hne)⟩
    next => cases ht
  | quiesceWait =>
    unfold enabled at ht
    dsimp only at ht
    split at ht
    next c hq =>
      obtain ⟨hc, hcount⟩ := of_decide_eq_true ht
      exact ⟨_, b, m, by rw [TxState.run, hq], h.quiesceWait hq hc hcount⟩
    next => cases ht
  | quiesceDone =>
    obtain ⟨-, ht⟩ := Bool.and_eq_true_iff.1 ht
    exact ⟨_, b, m, rfl, h.quiesceDone (of_decide_eq_true ht)⟩
  | syncPrompt => exact ⟨_, b, m, rfl, h.setWaiting _ _⟩
  | syncStart =>
    obtain ⟨hs, h0⟩ := of_decide_eq_true ht
    exact ⟨_, b, m + 1, by rw [TxState.run, ASSERT_bind h0], h.syncStart hs h0⟩
  | syncDone => exact ⟨_, m, m, rfl, h.syncDone (of_decide_eq_true ht)⟩
  | dispatch =>
    unfold enabled at ht
    dsimp only at ht
    split at ht
    next c hs =>
      have hc : c ≤ s.maxNcpus := of_decide_eq_true ht
      rcases eq_or_ne c s.maxNcpus with heq | hne
      · exact ⟨_, b, m, by rw [TxState.run, hs]; exact if_pos heq, h.dispatchDone (heq ▸ hs)⟩
      · exact ⟨_, b, m, by rw [TxState.run, hs]; exact if_neg hne, h.dispatch hs (lt_of_le_of_ne hc hne)⟩
    next => cases ht
  | waitSynced txg => exact ⟨_, b, m, rfl, h.setWaiting _ _⟩
  | waitOpen txg => exact ⟨_, b, m, rfl, h.setWaiting _ _⟩
  | kick =>
    rw [TxState.run]
    split
    · exact ⟨_, b, m, rfl, h.setWaiting _ _⟩
    · exact ⟨s, b, m, rfl, h⟩

/-- **Every reachable state** satisfies the invariant. -/
theorem TxReachable.pipeline (hfirst : 0 < first) (h : TxReachable n first s) : ∃ b m, Pipeline n first b m s := by
  induction h with
  | init => exact ⟨_, _, txgInit_pipeline hfirst⟩
  | step t _ ht heq ih =>
    obtain ⟨b, m, ih⟩ := ih
    obtain ⟨s', b', m', heq', h'⟩ := ih.run t ht
    rw [heq, Except.ok.injEq] at heq'
    exact ⟨b', m', heq' ▸ h'⟩

end

/-- A txg with a live handle or a pending callback. -/
def TxState.Active (s : TxState) (txg : Nat) : Prop :=
  (∃ th ∈ s.handles, th.thTxg = txg) ∨ ∃ c g, ∃ cb ∈ s.tcCallbacks c g, cb.txg = txg

/-- The last synced txg, or the one before the first. -/
def TxState.lastSynced (first : Nat) (s : TxState) : Nat := if s.txSyncedTxg = 0 then first - 1 else s.txSyncedTxg

section
variable {n first b m : Nat} {s : TxState}

lemma Pipeline.slots (h : Pipeline n first b m s) {t1 t2 : Nat} (h1 : s.Active t1) (h2 : s.Active t2)
    (heq : txgSlot t1 = txgSlot t2) : t1 = t2 := by
  obtain ⟨hb, hmb, hlt, hle, -, -⟩ := h.open_bounds
  have hwindow : ∀ t, s.Active t → t ≤ s.txOpenTxg ∧ (b < t ∨ t = b ∧ m = b) := by
    rintro t (⟨th, hth, rfl⟩ | ⟨c, g, cb, hcb, rfl⟩)
    · have := h.handle_bounds hth
      omega
    · obtain ⟨-, -, hcle, hgt | ⟨heq, k, -, hk⟩⟩ := h.waiting c g cb hcb
      · exact ⟨hcle, .inl hgt⟩
      · have hsync := h.sync
        unfold SyncOk at hsync
        rw [hk] at hsync
        exact ⟨hcle, .inr ⟨heq, hsync.2.1⟩⟩
  have hw1 := hwindow t1 h1
  have hw2 := hwindow t2 h2
  rw [txgSlot_eq, txgSlot_eq] at heq
  omega

/-- **The pipeline.** The synced, syncing, quiesced or quiescing and open txgs are in this order, at most three apart;
`spa_sync` gets them one after the other, none with a handle; no callback is lost, dispatched twice, or before its txg
has synced. No assertion fails. -/
theorem txg_pipeline (hfirst : 0 < first) (h : TxReachable n first s) :
    ((s.txSyncingTxg ≠ 0 → s.txSyncedTxg < s.txSyncingTxg ∧ s.txSyncingTxg < s.txOpenTxg) ∧
      (s.txQuiescedTxg ≠ 0 → s.txSyncedTxg < s.txQuiescedTxg ∧ s.txSyncingTxg < s.txQuiescedTxg ∧
        s.txQuiescedTxg < s.txOpenTxg ∧ s.txQuiescingTxg = 0) ∧
      (s.txQuiescingTxg ≠ 0 → s.txSyncedTxg < s.txQuiescingTxg ∧ s.txSyncingTxg < s.txQuiescingTxg ∧
        s.txQuiescingTxg ≤ s.txOpenTxg ∧ ((∀ c, s.quiesce ≠ .locking c) → s.txQuiescingTxg < s.txOpenTxg)) ∧
      s.txSyncedTxg < s.txOpenTxg ∧ s.txOpenTxg ≤ s.lastSynced first + txgConcurrentStates) ∧
    s.spaSyncs = List.range' first s.spaSyncs.length ∧
    (s.sync = .syncing → s.spaSyncs.getLast? = some s.txSyncingTxg ∧ ∀ th ∈ s.handles, th.thTxg ≠ s.txSyncingTxg) ∧
    (∀ t₁ t₂, s.Active t₁ → s.Active t₂ → txgSlot t₁ = txgSlot t₂ → t₁ = t₂) ∧
    s.registered = s.pending + s.dispatched.map Prod.fst ∧ (∀ x ∈ s.dispatched, x.1.txg = x.2 ∧ x.2 ≤ s.txSyncedTxg) ∧
    ∀ t, s.enabled t = true → ∃ s', s.run t = .ok s' := by
  obtain ⟨b, m, hp⟩ := h.pipeline hfirst
  have hsynced := hp.synced
  have hsync := hp.sync
  have hstage := hp.stage
  have hlen : s.spaSyncs.length = m + 1 - first := by rw [hp.syncs, List.length_range']
  have hlast : s.lastSynced first = b := by
    unfold lastSynced
    split <;> omega
  refine ⟨?_, by rw [hlen]; exact hp.syncs, fun hs => ?_, fun _ _ => hp.slots, hp.kept, fun x hx => ?_, fun t ht => ?_⟩
  · rw [hlast, txgConcurrentStates]
    have hstrict : s.txQuiescingTxg ≠ 0 → (∀ c, s.quiesce ≠ .locking c) → s.txQuiescingTxg < s.txOpenTxg := by
      intro h0 hno
      unfold StageOk at hstage
      cases hq : s.quiesce with
      | locking c => exact absurd hq (hno c)
      | idle => simp only [hq] at hstage; omega
      | releasing c => simp only [hq] at hstage; omega
      | waiting c => simp only [hq] at hstage; omega
    have horder := hp.order
    refine ⟨fun _ => ?_, fun _ => ?_, fun h0 => ⟨?_, ?_, ?_, hstrict h0⟩, ?_, ?_⟩ <;> omega
  · unfold SyncOk at hsync
    rw [hs] at hsync
    obtain ⟨hsy, rfl⟩ := hsync
    refine ⟨?_, fun th hth => ?_⟩
    · rw [hp.syncs, hsy, show b + 1 + 1 - first = b + 1 - first + 1 by omega, List.range'_1_concat, List.getLast?_concat,
        show first + (b + 1 - first) = b + 1 by omega]
    · have := hp.handle_bounds hth
      omega
  · obtain ⟨heq, -, hle⟩ := hp.after x hx
    exact ⟨heq, hle⟩
  · obtain ⟨s', -, -, heq, -⟩ := hp.run t ht
    exact ⟨s', heq⟩

/-- The first txg of a pool, waited for to be quiesced. -/
def firstQuiescing : TxState := { txgInit 1 4 with txQuiesceTxgWaiting := 5, txQuiescingTxg := 4, quiesce := .locking 0 }

lemma firstQuiescing_reachable : TxReachable 1 4 firstQuiescing :=
  .step .quiesceStart (.step (.waitOpen 5) .init rfl rfl) rfl rfl

theorem txg_pipeline_first : TxReachable 1 4 firstQuiescing ∧
    ∀ t₁ t₂, firstQuiescing.Active t₁ → firstQuiescing.Active t₂ → txgSlot t₁ = txgSlot t₂ → t₁ = t₂ :=
  ⟨firstQuiescing_reachable, (txg_pipeline (by decide) firstQuiescing_reachable).2.2.2.1⟩

/-- Before a txg has synced, the open one is far from `tx_synced_txg`. -/
theorem txg_quiescing_is_open : TxReachable 1 4 firstQuiescing ∧ firstQuiescing.txQuiescingTxg ≠ 0 ∧
    ¬ firstQuiescing.txQuiescingTxg < firstQuiescing.txOpenTxg ∧
    ¬ firstQuiescing.txOpenTxg ≤ firstQuiescing.txSyncedTxg + txgConcurrentStates :=
  ⟨firstQuiescing_reachable, by decide, by decide, by decide⟩

/-- **A txg that is held** has not been synced, and is not about to be. -/
theorem held_txg_unsynced (hfirst : 0 < first) (h : TxReachable n first s) {th : TxgHandle} (hth : th ∈ s.handles) :
    th.thTxg ∉ s.spaSyncs ∧ s.txSyncedTxg < th.thTxg ∧ s.txSyncingTxg < th.thTxg ∧ s.txQuiescedTxg < th.thTxg := by
  obtain ⟨b, m, hp⟩ := h.pipeline hfirst
  have hgt := hp.handle_bounds hth
  have horder := hp.order
  have hlive := (hp.live th hth).2
  refine ⟨?_, by omega, by omega, by omega⟩
  rw [hp.syncs, List.mem_range'_1]
  omega

theorem held_txg_unsynced_first : ∃ s, TxReachable 1 4 s ∧ ⟨0, 4⟩ ∈ s.handles ∧ 4 ∉ s.spaSyncs := by
  have h : TxReachable 1 4 _ := .step (.hold 0) (.step (.enter 0) .init rfl rfl) rfl rfl
  exact ⟨_, h, by decide, (held_txg_unsynced (by decide) h (by decide : ⟨0, 4⟩ ∈ _)).1⟩

end

end Unleashed.Zfs.Txg
