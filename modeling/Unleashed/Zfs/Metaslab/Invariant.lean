import Unleashed.Lib.Labels
import Unleashed.Zfs.Metaslab.Run

/-!
# The space partition of a metaslab

Every offset of a metaslab is in exactly one state: free, allocated in one of the last txgs, allocated on disk, freed,
or deferred. The trees are the sets of the offsets in these states, and the space map records the allocated ones, up
to what the current `metaslab_sync` has written.
-/

namespace Unleashed.Zfs

open Lib Lib.Segs Lib.Labels MetaslabRun RangeTree

/-- The state of an offset. -/
inductive SpaceState
  | free
  | allocating (t : Fin 4)
  | freed
  | deferred (t : Fin 2)
  | allocated
deriving DecidableEq, Fintype

lemma txgSlot_inj {a b : Nat} : txgSlot a = txgSlot b ↔ a % 4 = b % 4 := by
  simp [txgSlot, Fin.ext_iff]

section
variable (c : MetaslabConfig) (s : MetaslabRun) (owner : Nat → SpaceState)

/-- The offsets of the region in a state. -/
abbrev MetaslabConfig.sector (p : SpaceState) : Finset Nat := part c.span owner p

local instance deferIndex : NeZero 2 := ⟨by decide⟩

/-- What `metaslab_condense` writes as allocated. -/
def MetaslabRun.condenseSet : Finset Nat :=
  c.span \ (s.ms.msFreeing.cover ∪ c.sector owner .freed ∪ c.sector owner (.deferred 0) ∪
    c.sector owner (.deferred 1) ∪ c.sector owner (.allocating (txgSlot (s.lastSynced + 2))) ∪
    c.sector owner (.allocating (txgSlot (s.lastSynced + 3))))

/-- What the space map records at each point of a run. -/
def MetaslabRun.onDisk : Finset Nat :=
  match s.phase with
  | .metaslabSync _ .writeFree =>
    c.sector owner .allocated ∪ c.sector owner (.allocating (txgSlot (s.lastSynced + 1)))
  | .metaslabSync _ .finish =>
    (c.sector owner .allocated ∪ c.sector owner (.allocating (txgSlot (s.lastSynced + 1)))) \ s.ms.msFreeing.cover
  | .metaslabSync _ (.writeCondensed _) => ∅
  | .metaslabSync _ .writeAllocatable => s.condenseSet c owner
  | _ => c.sector owner .allocated

/-- The metaslab is in `metaslab_condense`, with the condense tree while it is needed. -/
def SpaPhase.condensing : SpaPhase → Option (Option RangeTree)
  | .metaslabSync _ (.truncate condenseTree) => some (some condenseTree)
  | .metaslabSync _ (.writeCondensed condenseTree) => some (some condenseTree)
  | .metaslabSync _ .writeAllocatable => some none
  | _ => none

/-- The number of the pass under way. -/
def SpaPhase.passNumber : SpaPhase → Option Nat
  | .idle => none
  | .pass n _ => some n
  | .metaslabSync n _ => some n

/-- `metaslab_sync` has not finished here in the syncing txg. -/
def SpaPhase.Fresh : SpaPhase → Prop
  | .idle => True
  | .pass n listed => n = 1 ∨ listed = false
  | .metaslabSync n _ => n = 1

/-- The invariant of a run, for the states `owner` of the offsets. -/
structure MetaslabRun.Inv : Prop where
  whole : ∀ x y, x / 2 ^ c.smShift = y / 2 ^ c.smShift → owner x = owner y
  allocating : ∀ t, (s.ms.msAllocating t).cover = c.sector owner (.allocating t)
  freed : s.ms.msFreed.cover = c.sector owner .freed
  defer : ∀ t, (s.ms.msDefer t).cover = c.sector owner (.deferred t)
  allocatable : s.ms.msLoaded = true → s.ms.msAllocatable.cover = c.sector owner .free
  -- an unloaded metaslab allocates nothing; what a load has read so far is kept apart
  unallocated : s.ms.msLoaded = false → ∀ t, c.sector owner (.allocating t) = ∅
  loading : s.ms.msLoaded = true → s.ms.msLoading = .no
  notRead : s.ms.msLoaded = false → s.ms.msLoading ≠ .read 0 → s.ms.msAllocatable.cover = ∅
  read : s.ms.msLoading = .read 0 → s.ms.msAllocatable.cover = c.span \ (c.sector owner .allocated ∪ c.sector owner .freed)
  pending : s.ms.msFreeing.cover ∪ s.ms.msCheckpointing.cover ⊆
    c.sector owner .allocated ∪ c.sector owner (.allocating (txgSlot (s.lastSynced + 1)))
  pending_disjoint : Disjoint s.ms.msFreeing.cover s.ms.msCheckpointing.cover
  freeing_whole : Whole (2 ^ c.smShift) s.ms.msFreeing.cover
  checkpointing_whole : Whole (2 ^ c.smShift) s.ms.msCheckpointing.cover
  clean : c.sector owner (.allocating (txgSlot s.lastSynced)) = ∅
  fresh : s.phase.Fresh → c.sector owner .freed = ∅
  passNumber : s.phase.passNumber ≠ some 0
  deferspace : s.ms.msDeferspace = ((c.sector owner (.deferred 0)).card + (c.sector owner (.deferred 1)).card : Nat)
  noSm : s.ms.msSm = none → c.sector owner .allocated = ∅ ∧ c.sector owner .freed = ∅ ∧
    (∀ t, c.sector owner (.deferred t) = ∅) ∧ ∀ n at_, s.phase ≠ .metaslabSync n at_
  sm : ∀ sm, s.ms.msSm = some sm → sm.toSpaceMapRegion = c.toSpaceMapRegion ∧ sm.Allocates (s.onDisk c owner) ∧
    (s.ms.msLoaded = false → sm.Synced (c.sector owner .allocated ∪ c.sector owner .freed))
  condensing : s.ms.msCondensing = s.phase.condensing.isSome
  condensing_loaded : s.ms.msCondensing = true → s.ms.msLoaded = true
  condenseTree : ∀ condenseTree, s.phase.condensing = some (some condenseTree) → condenseTree.cover = s.condenseSet c owner
  cursor : CursorFree c.mcOps (2 ^ c.smShift) (c.smStart + c.smSize) s.ms.msLbas (c.sector owner .free)
  selected : ∀ txg, s.lastSynced < txg → txg ≤ s.lastSynced + 3 →
    c.sector owner (.allocating (txgSlot txg)) ≠ ∅ → txg ≤ s.ms.msSelectedTxg + 3

end

variable {c : MetaslabConfig} {s s' : MetaslabRun} {owner : Nat → SpaceState}

lemma whole_span (c : MetaslabConfig) : Whole (2 ^ c.smShift) c.span :=
  whole_Ico (Nat.two_pow_pos _) c.aligned (c.aligned.add c.sized)

lemma MetaslabRun.Inv.whole_sector (h : s.Inv c owner) (p : SpaceState) : Whole (2 ^ c.smShift) (c.sector owner p) := by
  intro x y hxy
  rw [mem_part, mem_part, whole_span c x y hxy, h.whole x y hxy]

/-! ## Accounting -/

lemma sum_txgSlot (f : Fin 4 → Nat) (txg : Nat) :
    ∑ t, f t = f (txgSlot txg) + f (txgSlot (txg + 1)) + f (txgSlot (txg + 2)) + f (txgSlot (txg + 3)) := by
  have hslot : ∀ k, txgSlot (txg + k) = txgSlot (txg % 4 + k) := fun k => txgSlot_inj.2 (by omega)
  have h0 := hslot 0
  simp only [Nat.add_zero] at h0
  rw [h0, hslot 1, hslot 2, hslot 3, Fin.sum_univ_four]
  have := Nat.mod_lt txg (show 0 < 4 by norm_num)
  interval_cases txg % 4 <;> simp [txgSlot, Fin.ofNat] <;> ring

lemma sum_card_sector (c : MetaslabConfig) (owner : Nat → SpaceState) :
    (c.sector owner .free).card + ∑ t, (c.sector owner (.allocating t)).card +
      (c.sector owner .freed).card + (c.sector owner (.deferred 0)).card +
      (c.sector owner (.deferred 1)).card + (c.sector owner .allocated).card = c.smSize := by
  have huniv : (Finset.univ : Finset SpaceState) =
      {.free, .allocating 0, .allocating 1, .allocating 2, .allocating 3, .freed, .deferred 0,
        .deferred 1, .allocated} := by decide
  have hsum := sum_card_part c.span owner
  rw [huniv] at hsum
  have hspan : c.span.card = c.smSize := by simp [SpaceMapRegion.span]
  rw [Fin.sum_univ_four, ← hspan, ← hsum]
  simp
  ring

/-- **The equation of `metaslab_verify_space`** in syncing context. -/
theorem MetaslabRun.Inv.free_space_eq (h : s.Inv c owner) (hloaded : s.ms.msLoaded = true) {n : Nat}
    {listed : Bool} (hphase : s.phase = .pass n listed) {sm : SpaceMap} (hsm : s.ms.msSm = some sm) :
    BitVec.ofNat 64 c.smSize - sm.smAlloc - (sm.smpAlloc - sm.smAlloc) =
      BitVec.ofNat 64 (rangeTreeSpace s.ms.msAllocatable + ((List.range txgConcurrentStates).map fun t =>
          rangeTreeSpace (s.ms.msAllocating (txgSlot (s.lastSynced + 1 + t)))).sum) +
        BitVec.ofInt 64 s.ms.msDeferspace + BitVec.ofNat 64 (rangeTreeSpace s.ms.msFreed) := by
  have halloc : sm.smpAlloc = BitVec.ofNat 64 (c.sector owner .allocated).card := by
    have := (h.sm sm hsm).2.1.smpAlloc_eq
    rwa [onDisk, hphase] at this
  have hslots : ((List.range txgConcurrentStates).map fun t =>
      rangeTreeSpace (s.ms.msAllocating (txgSlot (s.lastSynced + 1 + t)))).sum =
      ∑ t, (c.sector owner (.allocating t)).card := by
    rw [sum_txgSlot _ s.lastSynced, h.clean]
    simp only [txgConcurrentStates, List.range_succ, List.range_zero, List.nil_append, List.map_append,
      List.map_cons, List.map_nil, List.sum_append, List.sum_cons, List.sum_nil, rangeTreeSpace,
      space_eq_card, h.allocating, Finset.card_empty, Nat.add_assoc, Nat.reduceAdd,
      Nat.add_zero, Nat.zero_add]
  rw [hslots, h.deferspace, halloc, ← sum_card_sector c owner]
  simp only [rangeTreeSpace, space_eq_card, h.allocatable hloaded, h.freed, BitVec.ofInt_natCast, BitVec.ofNat_add]
  ring

/-- The check succeeds, whether the flag for it is set or not. -/
lemma MetaslabRun.Inv.verifySpace (h : s.Inv c owner) {txg : Nat} (hgt : s.lastSynced < txg)
    (hquiet : ∀ n at_, s.phase = .metaslabSync n at_ → txg ≠ s.lastSynced + 1) {c' : MetaslabConfig}
    (hsize : c'.smSize = c.smSize) : metaslabVerifySpace c' s.ms txg s.spaSyncingTxg = .ok () := by
  unfold metaslabVerifySpace
  by_cases hflag : c'.debugMetaslabVerify = false
  · rw [if_pos hflag]
  rw [if_neg hflag]
  by_cases hskip : txg ≠ s.spaSyncingTxg ∨ s.ms.msLoaded = false
  · rw [if_pos hskip]
  rw [if_neg hskip]
  simp only [not_or, not_not, Bool.not_eq_false] at hskip
  obtain ⟨htxg, hloaded⟩ := hskip
  cases hsm : s.ms.msSm with
  | none => rfl
  | some sm =>
    -- the txg that syncs is checked only between two calls of `metaslab_sync`
    unfold spaSyncingTxg at htxg
    cases hphase : s.phase with
    | idle => rw [hphase] at htxg; simp only at htxg; omega
    | metaslabSync n at_ => rw [hphase] at htxg; exact absurd htxg (hquiet n at_ hphase)
    | pass n listed =>
      rw [hphase] at htxg
      simp only at htxg
      subst htxg
      exact VERIFY_eq_ok.2 (hsize ▸ h.free_space_eq hloaded hphase hsm)

/-! ## The beginning of a run -/

lemma MetaslabRun.Initial.inv (h : s.Initial c) : ∃ owner, s.Inv c owner := by
  obtain ⟨A, hA, hsm, hnone⟩ : ∃ A, Whole (2 ^ c.smShift) A ∧ (∀ sm, s.ms.msSm = some sm →
      sm.toSpaceMapRegion = c.toSpaceMapRegion ∧ sm.Allocates A ∧ sm.Synced A) ∧
      (s.ms.msSm = none → A = ∅) := by
    cases hs : s.ms.msSm with
    | none => exact ⟨∅, whole_empty _, by simp, by simp⟩
    | some sm =>
      obtain ⟨hreg, A, h1, h2, h3⟩ := h.sm sm hs
      refine ⟨A, h3, fun sm' hsm' => ?_, by simp⟩
      cases hsm'
      exact ⟨hreg, h1, h2⟩
  let owner : Nat → SpaceState := fun x => if x ∈ A then .allocated else .free
  have hother : ∀ p, p ≠ .free → p ≠ .allocated → c.sector owner p = ∅ := by
    intro p h1 h2
    apply Finset.eq_empty_of_forall_notMem
    intro x hx
    have := (mem_part.1 hx).2
    grind
  have halloc : ∀ sm, s.ms.msSm = some sm → c.sector owner .allocated = A := by
    intro sm hs
    obtain ⟨hreg, h1, -⟩ := hsm sm hs
    have hsub := h1.subset
    rw [hreg] at hsub
    apply Finset.Subset.antisymm
    · intro x hx
      have := (mem_part.1 hx).2
      grind
    · intro x hx
      exact mem_part.2 ⟨hsub hx, if_pos hx⟩
  have hallocating := fun t => hother (.allocating t) (by simp) (by simp)
  have hfreed := hother .freed (by simp) (by simp)
  have hdeferred := fun t => hother (.deferred t) (by simp) (by simp)
  refine ⟨owner, ?_⟩
  constructor
  case whole =>
    intro x y hxy
    simp only [owner, hA x y hxy]
  case allocating => intro t; rw [h.allocating, hallocating, cover_create]
  case freed => rw [h.freed, hfreed, cover_create]
  case defer => intro t; rw [h.defer, hdeferred, cover_create]
  case allocatable => simp [h.loaded]
  case unallocated => intro _ t; exact hallocating t
  case loading => simp [h.loaded]
  case notRead => intro _ _; rw [h.allocatable, cover_create]
  case read => simp [h.loading]
  case pending => simp [h.freeing, h.checkpointing]
  case pending_disjoint => simp [h.freeing]
  case freeing_whole => rw [h.freeing]; exact whole_empty _
  case checkpointing_whole => rw [h.checkpointing]; exact whole_empty _
  case clean => exact hallocating _
  case fresh => intro _; exact hfreed
  case passNumber => simp [h.phase, SpaPhase.passNumber]
  case deferspace => simp [h.deferspace, hdeferred]
  case noSm =>
    intro hs
    refine ⟨?_, hfreed, hdeferred, by simp [h.phase]⟩
    apply Finset.eq_empty_of_forall_notMem
    simp [owner, hnone hs]
  case sm =>
    intro sm hs
    obtain ⟨hreg, h1, h2⟩ := hsm sm hs
    rw [onDisk, h.phase, halloc sm hs, hfreed, Finset.union_empty]
    exact ⟨hreg, h1, fun _ => h2⟩
  case condensing => simp [h.condensing, h.phase, SpaPhase.condensing]
  case condensing_loaded => simp [h.condensing]
  case condenseTree => simp [h.phase, SpaPhase.condensing]
  case cursor => intro _; simp [h.lbas]
  case selected => intro txg _ _ hne; exact absurd (hallocating _) hne

end Unleashed.Zfs
