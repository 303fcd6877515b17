import Unleashed.Zfs.DslDir.Basic

/-!
# The counters of a tree of directories

What a directory has on its own is what its counters exceed its children's. A walk to the root changes that for its
start only: in between, a parent is off by what it is charged next.
-/

namespace Unleashed.Zfs

open Lib Function DslDirPhys Finset

/-- The counters that children pass on. -/
inductive Counter where
  | used (type : DdUsed)
  | compressed
  | uncompressed
deriving DecidableEq

namespace DslDirPhys

def value (phys : DslDirPhys) : Counter → Int
  | .used type => phys.ddUsedBreakdown type
  | .compressed => phys.ddCompressedBytes
  | .uncompressed => phys.ddUncompressedBytes

/-- What a directory adds to the counters of its parent. -/
def passed (phys : DslDirPhys) : Counter → Int
  | .used .child => phys.ddUsedBytes
  | .used .childRsrv => max 0 (phys.ddReserved - phys.ddUsedBytes)
  | .used _ => 0
  | .compressed => phys.ddCompressedBytes
  | .uncompressed => phys.ddUncompressedBytes

/-- A directory whose counters add up. -/
structure Fair (phys : DslDirPhys) : Prop where
  sum : phys.breakdownSum = phys.ddUsedBytes
  flag : phys.usedBreakdown = true
  nonneg : ∀ a, 0 ≤ phys.value a
  reserved : 0 ≤ phys.ddReserved

/-- No counter has grown by more than the given amount, and the reservation is the same. -/
structure Raised (phys phys' : DslDirPhys) (used compressed uncompressed : Int) : Prop where
  reserved : phys'.ddReserved = phys.ddReserved
  used : phys'.ddUsedBytes ≤ phys.ddUsedBytes + used
  compressed : phys'.ddCompressedBytes ≤ phys.ddCompressedBytes + compressed
  uncompressed : phys'.ddUncompressedBytes ≤ phys.ddUncompressedBytes + uncompressed

end DslDirPhys

/-- The arguments of `dsl_dir_diduse_space` as a change of the counters. -/
def charge (type : DdUsed) (used compressed uncompressed : Int) : Counter → Int
  | .used t => if t = type then used else 0
  | .compressed => compressed
  | .uncompressed => uncompressed

lemma charge_neg (type : DdUsed) (used compressed uncompressed : Int) (a : Counter) :
    charge type (-used) (-compressed) (-uncompressed) a = -charge type used compressed uncompressed a := by
  rcases a with t | _ | _
  · dsimp only [charge]; split <;> omega
  · rfl
  · rfl

variable {used compressed uncompressed : Int}

lemma charge_nonneg (type : DdUsed) (hu : 0 ≤ used) (hc : 0 ≤ compressed)
    (huc : 0 ≤ uncompressed) (a : Counter) : 0 ≤ charge type used compressed uncompressed a := by
  rcases a with t | _ | _
  · dsimp only [charge]; split <;> omega
  · exact hc
  · exact huc

variable {type : DdUsed}

section
variable {phys : DslDirPhys}

lemma DslDirPhys.Raised.of_nonneg (phys : DslDirPhys) (hu : 0 ≤ used) (hc : 0 ≤ compressed) (huc : 0 ≤ uncompressed) :
    phys.Raised phys used compressed uncompressed :=
  ⟨rfl, le_add_of_nonneg_right hu, le_add_of_nonneg_right hc, le_add_of_nonneg_right huc⟩

lemma DslDirPhys.Raised.trans {phys1 phys2 : DslDirPhys} {used1 compressed1 uncompressed1 : Int}
    (h : phys.Raised phys1 used compressed uncompressed) (h1 : phys1.Raised phys2 used1 compressed1 uncompressed1) :
    phys.Raised phys2 (used + used1) (compressed + compressed1) (uncompressed + uncompressed1) := by
  have := h.used; have := h.compressed; have := h.uncompressed
  have := h1.used; have := h1.compressed; have := h1.uncompressed
  exact ⟨h1.reserved.trans h.reserved, by omega, by omega, by omega⟩

lemma DslDirPhys.Fair.le_used (h : phys.Fair) (type : DdUsed) : phys.ddUsedBreakdown type ≤ phys.ddUsedBytes := by
  have h0 := fun t => h.nonneg (.used t)
  have hsum := h.sum
  unfold breakdownSum at hsum
  have := h0 .head; have := h0 .snap; have := h0 .child; have := h0 .childRsrv; have := h0 .refrsrv
  dsimp only [value] at *
  cases type <;> omega

lemma DslDirPhys.Fair.used_nonneg (h : phys.Fair) : 0 ≤ phys.ddUsedBytes :=
  (h.nonneg (.used .head)).trans (h.le_used .head)

lemma DslDirPhys.Fair.passed_nonneg (h : phys.Fair) (a : Counter) : 0 ≤ phys.passed a := by
  rcases a with (_ | _ | _ | _ | _) | _ | _
  · exact le_rfl
  · exact le_rfl
  · exact h.used_nonneg
  · exact le_max_left _ _
  · exact le_rfl
  · exact h.nonneg .compressed
  · exact h.nonneg .uncompressed

/-- A change of one part of the breakdown changes its sum. -/
lemma breakdownSum_update (phys : DslDirPhys) (type : DdUsed) (x : Int) :
    ({ phys with ddUsedBreakdown := update phys.ddUsedBreakdown type x } : DslDirPhys).breakdownSum =
      phys.breakdownSum + (x - phys.ddUsedBreakdown type) := by
  unfold breakdownSum
  cases type <;> simp [update] <;> ring

/-- **A charge** that leaves no counter negative passes the checks. -/
theorem chargeDir_spec (h : phys.Fair) (hle : ∀ a, 0 ≤ phys.value a + charge type used compressed uncompressed a) :
    ∃ phys', chargeDir phys type used compressed uncompressed = .ok phys' ∧ phys'.Fair ∧
      (∀ a, phys'.value a = phys.value a + charge type used compressed uncompressed a) ∧
      phys'.ddReserved = phys.ddReserved ∧ phys'.ddUsedBytes = phys.ddUsedBytes + used := by
  have hused : 0 ≤ phys.ddUsedBreakdown type + used := by simpa [charge, value] using hle (.used type)
  have hcomp : 0 ≤ phys.ddCompressedBytes + compressed := hle .compressed
  have huncomp : 0 ≤ phys.ddUncompressedBytes + uncompressed := hle .uncompressed
  have hle_used := h.le_used type
  unfold chargeDir
  rw [ASSERT_bind (by omega), ASSERT_bind (by omega), ASSERT_bind (by omega), if_pos h.flag,
    ASSERT_bind (by show used > 0 ∨ phys.ddUsedBreakdown type ≥ -used; omega)]
  dsimp only
  have hvalue : ∀ a, value ({ phys with
      ddUsedBytes := phys.ddUsedBytes + used
      ddUncompressedBytes := phys.ddUncompressedBytes + uncompressed
      ddCompressedBytes := phys.ddCompressedBytes + compressed
      ddUsedBreakdown := update phys.ddUsedBreakdown type (phys.ddUsedBreakdown type + used) }) a =
      phys.value a + charge type used compressed uncompressed a := by
    rintro (t | _ | _)
    · dsimp only [value, charge]
      rcases eq_or_ne t type with rfl | hne
      · rw [update_self, if_pos rfl]
      · rw [update_of_ne hne, if_neg hne, add_zero]
    · rfl
    · rfl
  have hsum : breakdownSum ({ phys with
      ddUsedBytes := phys.ddUsedBytes + used
      ddUncompressedBytes := phys.ddUncompressedBytes + uncompressed
      ddCompressedBytes := phys.ddCompressedBytes + compressed
      ddUsedBreakdown := update phys.ddUsedBreakdown type (phys.ddUsedBreakdown type + used) }) =
      phys.ddUsedBytes + used := by
    have := breakdownSum_update phys type (phys.ddUsedBreakdown type + used)
    rw [add_sub_cancel_left, h.sum] at this
    exact this
  rw [ASSERT_bind hsum]
  exact ⟨_, rfl, ⟨hsum, h.flag, fun a => by rw [hvalue]; exact hle a, h.reserved⟩, hvalue, rfl, rfl⟩

/-- **A transfer** between two parts of the breakdown. -/
theorem dslDirTransferSpace_spec (h : phys.Fair) (delta : Int) (oldtype newtype : DdUsed)
    (hold : delta > 0 → phys.ddUsedBreakdown oldtype ≥ delta) (hnew : delta ≤ 0 → phys.ddUsedBreakdown newtype ≥ -delta) :
    ∃ phys', dslDirTransferSpace phys delta oldtype newtype = .ok phys' ∧ phys'.Fair ∧
      (∀ a, phys'.value a = phys.value a + charge newtype delta 0 0 a - charge oldtype delta 0 0 a) ∧
      phys'.passed = phys.passed ∧ phys.Raised phys' 0 0 0 := by
  unfold dslDirTransferSpace
  split
  next h0 =>
    have h0 : delta = 0 := h0.resolve_right (by rw [h.flag]; decide)
    subst h0
    refine ⟨phys, rfl, h, fun a => ?_, rfl, .of_nonneg phys le_rfl le_rfl le_rfl⟩
    rcases a with t | _ | _ <;> simp [charge]
  next h0 =>
    have hold' := h.le_used oldtype
    have hnew' := h.le_used newtype
    have habs : phys.ddUsedBytes ≥ |delta| := by
      rcases lt_or_ge 0 delta with hpos | hneg
      · rw [abs_of_pos hpos]; have := hold hpos; omega
      · rw [abs_of_nonpos hneg]; have := hnew hneg; omega
    have hassert : if delta > 0 then phys.ddUsedBreakdown oldtype ≥ delta else phys.ddUsedBreakdown newtype ≥ -delta := by
      split
      next hpos => exact hold hpos
      next hneg => exact hnew (not_lt.1 hneg)
    rw [ASSERT_bind hassert, ASSERT_bind habs]
    dsimp only
    generalize hbd : update phys.ddUsedBreakdown oldtype (phys.ddUsedBreakdown oldtype - delta) = breakdown
    have hvalue : ∀ a, value ({ phys with
        ddUsedBreakdown := update breakdown newtype (breakdown newtype + delta) }) a =
        phys.value a + charge newtype delta 0 0 a - charge oldtype delta 0 0 a := by
      have hb : ∀ t, breakdown t = phys.ddUsedBreakdown t - if t = oldtype then delta else 0 := by
        intro t
        rw [← hbd]
        rcases eq_or_ne t oldtype with rfl | hne
        · rw [update_self, if_pos rfl]
        · rw [update_of_ne hne, if_neg hne, sub_zero]
      rintro (t | _ | _)
      · dsimp only [value, charge]
        rcases eq_or_ne t newtype with rfl | hne
        · rw [update_self, if_pos rfl, hb]; ring
        · rw [update_of_ne hne, if_neg hne, hb, add_zero]
      · simp [value, charge]
      · simp [value, charge]
    have hsum : breakdownSum ({ phys with
        ddUsedBreakdown := update breakdown newtype (breakdown newtype + delta) }) = phys.ddUsedBytes := by
      have h1 := breakdownSum_update { phys with ddUsedBreakdown := breakdown } newtype (breakdown newtype + delta)
      have h2 := breakdownSum_update phys oldtype (phys.ddUsedBreakdown oldtype - delta)
      rw [hbd] at h2
      rw [h1, h2, h.sum]
      dsimp only
      ring
    refine ⟨_, rfl, ⟨hsum, h.flag, fun a => ?_, h.reserved⟩, hvalue, rfl,
      ⟨rfl, (add_zero _).ge, (add_zero _).ge, (add_zero _).ge⟩⟩
    rw [hvalue]
    rcases a with t | _ | _
    · have hnn : 0 ≤ phys.ddUsedBreakdown t := h.nonneg (.used t)
      dsimp only [value, charge]
      rcases lt_or_ge 0 delta with hpos | hneg
      · have := hold hpos
        split <;> split <;> (try subst t) <;> omega
      · have := hnew hneg
        split <;> split <;> (try subst t) <;> omega
    · simpa [charge] using h.nonneg .compressed
    · simpa [charge] using h.nonneg .uncompressed

end

section
variable {D : Type} [DecidableEq D] [Fintype D]

/-- What the counters of a directory exceed those of its children. -/
def own (parent : D → Option D) (dirs : D → DslDirPhys) (p : D) (a : Counter) : Int :=
  (dirs p).value a - ∑ c, if parent c = some p then (dirs c).passed a else 0

variable {parent : D → Option D} {dirs : D → DslDirPhys}

omit [DecidableEq D] in
lemma sum_sub_sum_of_ne (d : D) {f g : D → Int} (h : ∀ c, c ≠ d → f c = g c) : ∑ c, f c - ∑ c, g c = f d - g d := by
  rw [← sum_sub_distrib, sum_eq_single d]
  · intro c _ hne
    rw [h c hne, sub_self]
  · exact fun hd => absurd (mem_univ d) hd

/-- A change of a directory counts for itself and against its parent. -/
lemma own_update (d : D) (phys : DslDirPhys) (p : D) (a : Counter) :
    own parent (update dirs d phys) p a = own parent dirs p a + (if p = d then phys.value a - (dirs d).value a else 0) -
      (if parent d = some p then phys.passed a - (dirs d).passed a else 0) := by
  have hsum := sum_sub_sum_of_ne d (f := fun c => if parent c = some p then (update dirs d phys c).passed a else 0)
    (g := fun c => if parent c = some p then (dirs c).passed a else 0)
    fun c hne => by rw [update_of_ne hne]
  have hchange : (if parent d = some p then phys.passed a else 0) - (if parent d = some p then (dirs d).passed a else 0) =
      if parent d = some p then phys.passed a - (dirs d).passed a else 0 := by
    split
    · rfl
    · exact sub_self 0
  rw [update_self, hchange, sub_eq_iff_eq_add'] at hsum
  unfold own
  rw [hsum]
  rcases eq_or_ne p d with rfl | hne
  · rw [update_self, if_pos rfl]; ring
  · rw [update_of_ne hne, if_neg hne]; ring

/-- The counters of a parent are at least what a child passes on. -/
lemma passed_le_value (hfair : ∀ d, (dirs d).Fair) {d p : D} (hp : parent d = some p) {a : Counter}
    (hown : 0 ≤ own parent dirs p a) : (dirs d).passed a ≤ (dirs p).value a := by
  have hsingle := single_le_sum (f := fun c => if parent c = some p then (dirs c).passed a else 0) (fun c _ => by
      split
      · exact (hfair c).passed_nonneg a
      · exact le_rfl) (mem_univ d)
  rw [if_pos hp] at hsingle
  unfold own at hown
  omega

end

section
variable {D : Type} (tree : DirTree D)

lemma DirTree.not_below_of_parent {d p : D} (hp : tree.ddParent d = some p) : ¬ tree.Below p d := by
  intro hbelow
  have hcycle : Relation.TransGen (fun d p => tree.ddParent d = some p) d d := .head' hp hbelow
  have hwf := tree.wf.transGen
  exact hwf.irrefl.irrefl d (Relation.transGen_swap.1 hcycle)

variable [DecidableEq D] [Fintype D]

/-- What the parent of a charged directory still misses. -/
def behind (phys : DslDirPhys) (used compressed uncompressed : Int) : Counter → Int :=
  fun a => charge .child used compressed uncompressed a +
    charge .childRsrv (parentDelta phys phys.ddUsedBytes used - used) 0 0 a

lemma passed_of_charge {phys phys' : DslDirPhys}
    (hvalue : ∀ a, phys'.value a = phys.value a + charge type used compressed uncompressed a)
    (hres : phys'.ddReserved = phys.ddReserved) (hused : phys'.ddUsedBytes = phys.ddUsedBytes + used) (a : Counter) :
    phys'.passed a - phys.passed a = behind phys used compressed uncompressed a := by
  have hcomp : phys'.ddCompressedBytes = phys.ddCompressedBytes + compressed := hvalue .compressed
  have huncomp : phys'.ddUncompressedBytes = phys.ddUncompressedBytes + uncompressed := hvalue .uncompressed
  unfold behind
  rcases a with (_ | _ | _ | _ | _) | _ | _ <;> (simp [passed, charge, parentDelta, hcomp, huncomp, hres, hused]; try omega)

/-- What the parent is charged first does not take a counter below zero, since it counts the directory. -/
lemma nonneg_of_covered {phys pphys : DslDirPhys} (hfair : phys.Fair) (hpfair : pphys.Fair)
    (hcover : ∀ a, phys.passed a ≤ pphys.value a) (hused : 0 ≤ phys.ddUsedBytes + used)
    (hcomp : 0 ≤ phys.ddCompressedBytes + compressed) (huncomp : 0 ≤ phys.ddUncompressedBytes + uncompressed) (a : Counter) :
    0 ≤ pphys.value a + charge .child (parentDelta phys phys.ddUsedBytes used) compressed uncompressed a := by
  have hnn := hpfair.nonneg a
  have hcov := hcover a
  have hunused := hfair.used_nonneg
  have hacc : parentDelta phys phys.ddUsedBytes used =
      max (phys.ddUsedBytes + used) phys.ddReserved - max phys.ddUsedBytes phys.ddReserved := rfl
  rcases a with (_ | _ | _ | _ | _) | _ | _ <;> simp [value, passed, charge] at hnn hcov ⊢ <;> omega

/-- The charge and the transfer give the parent what it misses. -/
lemma charge_settles (phys : DslDirPhys) (used compressed uncompressed : Int) (a : Counter) :
    charge .child (parentDelta phys phys.ddUsedBytes used) compressed uncompressed a +
        charge .child (used - parentDelta phys phys.ddUsedBytes used) 0 0 a -
        charge .childRsrv (used - parentDelta phys phys.ddUsedBytes used) 0 0 a =
      behind phys used compressed uncompressed a := by
  unfold behind
  rcases a with (_ | _ | _ | _ | _) | _ | _ <;> simp [charge]

lemma parentDelta_le (phys : DslDirPhys) (used : Int) : parentDelta phys phys.ddUsedBytes used ≤ max 0 used := by
  unfold parentDelta
  dsimp only
  omega

omit [Fintype D] in
/-- A charge of the directory itself. -/
lemma raised_of_charge {dirs : D → DslDirPhys} {d : D} {phys : DslDirPhys}
    (hvalue : ∀ a, phys.value a = (dirs d).value a + charge type used compressed uncompressed a)
    (hres : phys.ddReserved = (dirs d).ddReserved) (hused : phys.ddUsedBytes = (dirs d).ddUsedBytes + used) (q : D) :
    (dirs q).Raised (update dirs d phys q) (max 0 used) (max 0 compressed) (max 0 uncompressed) := by
  rcases eq_or_ne q d with rfl | hne
  · have hcomp : phys.ddCompressedBytes = (dirs q).ddCompressedBytes + compressed := hvalue .compressed
    have huncomp : phys.ddUncompressedBytes = (dirs q).ddUncompressedBytes + uncompressed := hvalue .uncompressed
    rw [update_self]
    exact ⟨hres, by omega, by omega, by omega⟩
  · rw [update_of_ne hne]
    exact .of_nonneg _ (le_max_left ..) (le_max_left ..) (le_max_left ..)

/-- **`dsl_dir_diduse_space`** passes all checks, charges the directory alone, and raises no counter by more than it
charges. -/
theorem dslDirDiduseSpace_spec (parent : D → Option D) (d : D) :
    ∀ (dirs : D → DslDirPhys) (type : DdUsed) (used compressed uncompressed : Int), (∀ q, (dirs q).Fair) →
      (∀ q, tree.Below d q → parent q = tree.ddParent q) →
      (∀ p q, tree.ddParent d = some p → tree.Below p q → ∀ a, 0 ≤ own parent dirs q a) →
      (∀ a, 0 ≤ (dirs d).value a + charge type used compressed uncompressed a) →
      ∃ dirs', dslDirDiduseSpace tree dirs d type used compressed uncompressed = .ok dirs' ∧ (∀ q, (dirs' q).Fair) ∧
        (∀ q, ¬ tree.Below d q → dirs' q = dirs q) ∧
        (∀ a, (dirs' d).value a = (dirs d).value a + charge type used compressed uncompressed a) ∧
        (∀ q, (dirs q).Raised (dirs' q) (max 0 used) (max 0 compressed) (max 0 uncompressed)) ∧
        ∀ q a, own parent dirs' q a = own parent dirs q a + if q = d then charge type used compressed uncompressed a else 0 := by
  induction d using tree.wf.induction with
  | _ d ih =>
    intro dirs type used compressed uncompressed hfair hagree hown hle
    obtain ⟨phys, hcharge, hfair1, hvalue, hres, hused⟩ := chargeDir_spec (hfair d) hle
    have hpassed := passed_of_charge hvalue hres hused
    have hraised := raised_of_charge hvalue hres hused
    have hfairs1 : ∀ q, (update dirs d phys q).Fair := by
      intro q
      rcases eq_or_ne q d with rfl | hne
      · rw [update_self]; exact hfair1
      · rw [update_of_ne hne]; exact hfair q
    have hown1 : ∀ q a, own parent (update dirs d phys) q a = own parent dirs q a +
        (if q = d then charge type used compressed uncompressed a else 0) -
        (if parent d = some q then behind (dirs d) used compressed uncompressed a else 0) := by
      intro q a
      rw [own_update, hpassed, hvalue, add_sub_cancel_left]
    rw [dslDirDiduseSpace, hcharge, ok_bind]
    dsimp only
    split
    next hroot =>
      refine ⟨_, rfl, hfairs1, fun q hq => ?_, fun a => ?_, hraised, fun q a => ?_⟩
      · rw [update_of_ne]
        rintro rfl
        exact hq .refl
      · rw [update_self]; exact hvalue a
      · rw [hown1, hagree d .refl, hroot]
        simp
    next p hp =>
      have hparent : parent d = some p := (hagree d .refl).trans hp
      have hup : ¬ tree.Below p d := tree.not_below_of_parent hp
      have hne : p ≠ d := by
        rintro rfl
        exact hup .refl
      have hp1 : update dirs d phys p = dirs p := update_of_ne hne ..
      -- the counters of the parent cover what the directory passes on
      have hcover : ∀ a, (dirs d).passed a ≤ (dirs p).value a :=
        fun a => passed_le_value hfair hparent (hown p p hp .refl a)
      have hchild : (dirs d).ddUsedBytes ≤ (dirs p).ddUsedBreakdown .child := hcover (.used .child)
      have hrsrv : max 0 ((dirs d).ddReserved - (dirs d).ddUsedBytes) ≤ (dirs p).ddUsedBreakdown .childRsrv :=
        hcover (.used .childRsrv)
      have hnn := hfair1.used_nonneg
      have hle1 := nonneg_of_covered (hfair d) (hfair p) hcover (hused ▸ hnn) (hle .compressed) (hle .uncompressed)
      have hsettle := charge_settles (dirs d) used compressed uncompressed
      have hgrows := parentDelta_le (dirs d) used
      have hacc : parentDelta (dirs d) (dirs d).ddUsedBytes used =
          max ((dirs d).ddUsedBytes + used) (dirs d).ddReserved - max (dirs d).ddUsedBytes (dirs d).ddReserved := rfl
      generalize parentDelta (dirs d) (dirs d).ddUsedBytes used = acc at hacc hle1 hsettle hgrows ⊢
      have habove : ∀ p' q, tree.ddParent p = some p' → tree.Below p' q → ∀ a, 0 ≤ own parent (update dirs d phys) q a := by
        intro p' q hp' hq a
        have hqd : q ≠ d := by
          rintro rfl
          exact hup (.head hp' hq)
        have hqp : q ≠ p := by
          rintro rfl
          exact tree.not_below_of_parent hp' hq
        rw [hown1, if_neg hqd, if_neg (by rw [hparent]; simpa using hqp.symm), add_zero, sub_zero]
        exact hown p q hp (.head hp' hq) a
      obtain ⟨dirs2, hrun, hfair2, hframe2, hvalue2, hraised2, hown2⟩ :=
        ih p hp (update dirs d phys) .child acc compressed uncompressed hfairs1
          (fun q hq => hagree q (.head hp hq)) habove (fun a => by rw [hp1]; exact hle1 a)
      rw [hp1] at hvalue2
      have hchild2 : (dirs2 p).ddUsedBreakdown .child = (dirs p).ddUsedBreakdown .child + acc := by
        simpa [value, charge] using hvalue2 (.used .child)
      have hrsrv2 : (dirs2 p).ddUsedBreakdown .childRsrv = (dirs p).ddUsedBreakdown .childRsrv := by
        simpa [value, charge] using hvalue2 (.used .childRsrv)
      obtain ⟨phys3, htransfer, hfair3, hvalue3, hpassed3, hraised3⟩ := dslDirTransferSpace_spec (hfair2 p)
        (used - acc) .childRsrv .child (fun _ => by rw [hrsrv2]; omega) (fun _ => by rw [hchild2]; omega)
      have hd2 : dirs2 d = phys := by rw [hframe2 d hup, update_self]
      rw [hrun, ok_bind, htransfer]
      refine ⟨_, rfl, fun q => ?_, fun q hq => ?_, fun a => ?_, fun q => ?_, fun q a => ?_⟩
      · rcases eq_or_ne q p with rfl | hqp
        · rw [update_self]; exact hfair3
        · rw [update_of_ne hqp]; exact hfair2 q
      · have hqp : q ≠ p := by
          rintro rfl
          exact hq (.single hp)
        have hqd : q ≠ d := by
          rintro rfl
          exact hq .refl
        rw [update_of_ne hqp, hframe2 q fun hb => hq (.head hp hb), update_of_ne hqd]
      · rw [update_of_ne hne.symm, hd2]; exact hvalue a
      · have hq2 := hraised2 q
        rcases eq_or_ne q d with rfl | hqd
        · rw [update_of_ne hne.symm, hd2]
          simpa using hraised q
        rw [update_of_ne hqd] at hq2
        have := hq2.used
        rcases eq_or_ne q p with rfl | hqp
        · rw [update_self]
          have h3 := hq2.trans hraised3
          have := h3.used
          exact ⟨h3.reserved, by omega, by simpa using h3.compressed, by simpa using h3.uncompressed⟩
        · rw [update_of_ne hqp]
          exact ⟨hq2.reserved, by omega, hq2.compressed, hq2.uncompressed⟩
      · rw [own_update, hown2, hown1, hvalue3, hpassed3, sub_self, ite_self, sub_zero, hparent]
        have hsettled := hsettle a
        rcases eq_or_ne q p with rfl | hqp
        · rw [if_neg hne, if_pos rfl, if_pos rfl, if_pos rfl]
          linarith
        · have hsome : ¬ some p = some q := fun h => hqp (Option.some.inj h).symm
          rw [if_neg hqp, if_neg hqp, if_neg hsome]
          ring

end

end Unleashed.Zfs
