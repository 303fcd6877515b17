import Unleashed.Zfs.DslDir.Account

/-!
# Any sequence of changes to a tree of directories

A rename detaches the directory from its old parent and attaches it to the new one: the walks are those of the tree
without it.
-/

namespace Unleashed.Zfs

open Lib Function

variable {D : Type} [DecidableEq D] [Fintype D]

/-- Every directory has room for that much more below `2 ^ 63`, and no reservation reaches it. -/
def HasRoom (dirs : D → DslDirPhys) (used compressed uncompressed : Int) : Prop :=
  ∀ d, (dirs d).ddReserved < 2 ^ 63 ∧ (dirs d).ddUsedBytes + used < 2 ^ 63 ∧ (dirs d).ddCompressedBytes + compressed < 2 ^ 63 ∧
    (dirs d).ddUncompressedBytes + uncompressed < 2 ^ 63

/-- **A consistent tree**, with counters that a signed 64-bit integer holds. -/
structure Consistent (tree : DirTree D) (dirs : D → DslDirPhys) : Prop where
  fair : ∀ d, (dirs d).Fair
  child : ∀ d, (dirs d).ddUsedBreakdown .child = ∑ c, if tree.ddParent c = some d then (dirs c).ddUsedBytes else 0
  childRsrv : ∀ d, (dirs d).ddUsedBreakdown .childRsrv =
    ∑ c, if tree.ddParent c = some d then max 0 ((dirs c).ddReserved - (dirs c).ddUsedBytes) else 0
  compressed : ∀ d, ∑ c, (if tree.ddParent c = some d then (dirs c).ddCompressedBytes else 0) ≤ (dirs d).ddCompressedBytes
  uncompressed : ∀ d, ∑ c, (if tree.ddParent c = some d then (dirs c).ddUncompressedBytes else 0) ≤
    (dirs d).ddUncompressedBytes
  hasRoom : HasRoom dirs 0 0 0

/-- What is left to a directory in a consistent tree. -/
structure OwnOk (own : D → Counter → Int) : Prop where
  child : ∀ d, own d (.used .child) = 0
  childRsrv : ∀ d, own d (.used .childRsrv) = 0
  compressed : ∀ d, 0 ≤ own d .compressed
  uncompressed : ∀ d, 0 ≤ own d .uncompressed

section
variable {tree : DirTree D} {dirs dirs' : D → DslDirPhys}

lemma consistent_iff :
    Consistent tree dirs ↔ (∀ d, (dirs d).Fair) ∧ HasRoom dirs 0 0 0 ∧ OwnOk (own tree.ddParent dirs) := by
  constructor
  · intro h
    exact ⟨h.fair, h.hasRoom, fun d => sub_eq_zero.2 (h.child d), fun d => sub_eq_zero.2 (h.childRsrv d),
      fun d => sub_nonneg.2 (h.compressed d), fun d => sub_nonneg.2 (h.uncompressed d)⟩
  · rintro ⟨hfair, hfits, h⟩
    exact ⟨hfair, fun d => sub_eq_zero.1 (h.child d), fun d => sub_eq_zero.1 (h.childRsrv d),
      fun d => sub_nonneg.1 (h.compressed d), fun d => sub_nonneg.1 (h.uncompressed d), hfits⟩

omit [DecidableEq D] [Fintype D] in
/-- An operation that raises the counters by no more than there is room for. -/
lemma HasRoom.raise {used compressed uncompressed : Int} (h0 : HasRoom dirs 0 0 0) (h : HasRoom dirs used compressed uncompressed)
    (hraised : ∀ d, (dirs d).Raised (dirs' d) (max 0 used) (max 0 compressed) (max 0 uncompressed)) : HasRoom dirs' 0 0 0 := by
  intro d
  obtain ⟨hr, hu, hc, huc⟩ := hraised d
  obtain ⟨hres, hu0, hc0, huc0⟩ := h0 d
  obtain ⟨-, hu1, hc1, huc1⟩ := h d
  exact ⟨hr ▸ hres, by omega, by omega, by omega⟩

lemma OwnOk.nonneg {parent : D → Option D} (hfair : ∀ d, (dirs d).Fair) (h : OwnOk (own parent dirs)) (d : D) (a : Counter) :
    0 ≤ own parent dirs d a := by
  have hnone : ∀ t, (∀ phys : DslDirPhys, phys.passed (.used t) = 0) → 0 ≤ own parent dirs d (.used t) := by
    intro t ht
    unfold own
    rw [Finset.sum_eq_zero fun c _ => by rw [ht, ite_self], sub_zero]
    exact (hfair d).nonneg _
  rcases a with (_ | _ | _ | _ | _) | _ | _
  · exact hnone .head fun _ => rfl
  · exact hnone .snap fun _ => rfl
  · exact (h.child d).ge
  · exact (h.childRsrv d).ge
  · exact hnone .refrsrv fun _ => rfl
  · exact h.compressed d
  · exact h.uncompressed d

lemma own_le_value (parent : D → Option D) (hfair : ∀ d, (dirs d).Fair) (d : D) (a : Counter) :
    own parent dirs d a ≤ (dirs d).value a := by
  refine sub_le_self _ (Finset.sum_nonneg fun c _ => ?_)
  split
  · exact (hfair c).passed_nonneg a
  · exact le_rfl

section
variable (h : Consistent tree dirs) (dd : D)
include h dd

/-- **`dsl_dir_diduse_space`** of a directory's own space. -/
theorem Consistent.diduse {type : DdUsed} {used compressed uncompressed : Int}
    (hchild : type ≠ .child) (hrsrv : type ≠ .childRsrv) (hused : 0 ≤ (dirs dd).ddUsedBreakdown type + used)
    (hcomp : 0 ≤ own tree.ddParent dirs dd .compressed + compressed)
    (huncomp : 0 ≤ own tree.ddParent dirs dd .uncompressed + uncompressed)
    (hroom : HasRoom dirs used compressed uncompressed) :
    ∃ dirs', dslDirDiduseSpace tree dirs dd type used compressed uncompressed = .ok dirs' ∧ Consistent tree dirs' := by
  obtain ⟨hfair, hfits, hown⟩ := consistent_iff.1 h
  have hle := own_le_value tree.ddParent hfair dd
  obtain ⟨dirs', heq, hfair', -, -, hraised, hown'⟩ := dslDirDiduseSpace_spec tree tree.ddParent dd dirs type used
    compressed uncompressed hfair (fun _ _ => rfl) (fun _ q _ _ => hown.nonneg hfair q) (by
      rintro (t | _ | _)
      · dsimp only [charge, DslDirPhys.value]
        split
        next heq => rw [heq]; exact hused
        next hne => rw [add_zero]; exact (hfair dd).nonneg (.used t)
      · exact hcomp.trans (add_le_add_left (hle .compressed) _)
      · exact huncomp.trans (add_le_add_left (hle .uncompressed) _))
  refine ⟨dirs', heq, consistent_iff.2 ⟨hfair', hfits.raise hroom hraised, fun d => ?_, fun d => ?_, fun d => ?_, fun d => ?_⟩⟩
  · rw [hown', hown.child]; simp [charge, hchild.symm]
  · rw [hown', hown.childRsrv]; simp [charge, hrsrv.symm]
  · rw [hown']
    split
    next heq => rw [heq]; exact hcomp
    next hne => rw [add_zero]; exact hown.compressed d
  · rw [hown']
    split
    next heq => rw [heq]; exact huncomp
    next hne => rw [add_zero]; exact hown.uncompressed d

/-- **`dsl_dir_transfer_space`** between a directory's own types. -/
theorem Consistent.transfer {delta : Int} {oldtype newtype : DdUsed}
    (hold : oldtype ≠ .child ∧ oldtype ≠ .childRsrv) (hnew : newtype ≠ .child ∧ newtype ≠ .childRsrv)
    (hle : 0 ≤ (dirs dd).ddUsedBreakdown oldtype - delta) (hle' : 0 ≤ (dirs dd).ddUsedBreakdown newtype + delta) :
    ∃ phys, dslDirTransferSpace (dirs dd) delta oldtype newtype = .ok phys ∧ Consistent tree (update dirs dd phys) := by
  obtain ⟨hfair, hfits, hown⟩ := consistent_iff.1 h
  obtain ⟨phys, heq, hfair', hvalue, hpassed, hraised⟩ := dslDirTransferSpace_spec (hfair dd) delta oldtype newtype
    (fun _ => by omega) (fun _ => by omega)
  have hown' : ∀ d a, own tree.ddParent (update dirs dd phys) d a = own tree.ddParent dirs d a +
      if d = dd then charge newtype delta 0 0 a - charge oldtype delta 0 0 a else 0 := by
    intro d a
    rw [own_update, hpassed, sub_self, ite_self, sub_zero, hvalue]
    congr 2
    ring
  have hfits' : HasRoom (update dirs dd phys) 0 0 0 := hfits.raise hfits fun d => by
    rcases eq_or_ne d dd with rfl | hne
    · rw [update_self]; exact hraised
    · rw [update_of_ne hne]; exact .of_nonneg _ le_rfl le_rfl le_rfl
  refine ⟨phys, heq, consistent_iff.2 ⟨fun d => ?_, hfits', fun d => ?_, fun d => ?_, fun d => ?_, fun d => ?_⟩⟩
  · rcases eq_or_ne d dd with rfl | hne
    · rw [update_self]; exact hfair'
    · rw [update_of_ne hne]; exact hfair d
  · rw [hown', hown.child]; simp [charge, hold.1.symm, hnew.1.symm]
  · rw [hown', hown.childRsrv]; simp [charge, hold.2.symm, hnew.2.symm]
  · rw [hown']; simpa [charge] using hown.compressed d
  · rw [hown']; simpa [charge] using hown.uncompressed d

/-- **`dsl_dir_set_reservation_sync_impl`**. -/
theorem Consistent.setReservation {value : Int} (hvalue : 0 ≤ value) (hroom : HasRoom dirs value 0 0) :
    ∃ dirs', dslDirSetReservationSyncImpl tree dirs dd value = .ok dirs' ∧ Consistent tree dirs' := by
  obtain ⟨hfair, hfits, hown⟩ := consistent_iff.1 h
  have hlt : value < 2 ^ 63 := by
    have := (hroom dd).2.1
    have := (hfair dd).used_nonneg
    omega
  unfold dslDirSetReservationSyncImpl
  dsimp only
  generalize hphys : ({ dirs dd with ddReserved := value } : DslDirPhys) = phys
  have hval : phys.value = (dirs dd).value := by rw [← hphys]; rfl
  have hres : phys.ddReserved = value := by rw [← hphys]
  have hused : phys.ddUsedBytes = (dirs dd).ddUsedBytes := by rw [← hphys]
  have hfair1 : ∀ d, (update dirs dd phys d).Fair := by
    intro d
    rcases eq_or_ne d dd with rfl | hne
    · rw [update_self, ← hphys]
      exact ⟨(hfair d).sum, (hfair d).flag, (hfair d).nonneg, hvalue⟩
    · rw [update_of_ne hne]; exact hfair d
  have hfits1 (u : Int) (hu : HasRoom dirs u 0 0) : HasRoom (update dirs dd phys) u 0 0 := by
    intro d
    rcases eq_or_ne d dd with rfl | hne
    · rw [update_self, ← hphys]
      exact ⟨hlt, (hu d).2⟩
    · rw [update_of_ne hne]; exact hu d
  have hused0 := (hfair dd).used_nonneg
  generalize hdelta : max (dirs dd).ddUsedBytes value - max (dirs dd).ddUsedBytes (dirs dd).ddReserved = delta
  have hpassed : ∀ a, phys.passed a - (dirs dd).passed a = charge .childRsrv delta 0 0 a := by
    intro a
    have hcomp : phys.ddCompressedBytes = (dirs dd).ddCompressedBytes := congrFun hval .compressed
    have huncomp : phys.ddUncompressedBytes = (dirs dd).ddUncompressedBytes := congrFun hval .uncompressed
    rcases a with (_ | _ | _ | _ | _) | _ | _ <;> (simp [DslDirPhys.passed, charge, hcomp, huncomp, hres, hused]; try omega)
  have hown1 : ∀ q a, own tree.ddParent (update dirs dd phys) q a = own tree.ddParent dirs q a -
      if tree.ddParent dd = some q then charge .childRsrv delta 0 0 a else 0 := by
    intro q a
    rw [own_update, hpassed, hval, sub_self, ite_self, add_zero]
  split
  next hroot =>
    refine ⟨_, rfl, consistent_iff.2 ⟨hfair1, hfits1 0 hfits, ?_⟩⟩
    have hsame : own tree.ddParent (update dirs dd phys) = own tree.ddParent dirs := by
      funext q a
      rw [hown1, hroot]
      simp
    rw [hsame]
    exact hown
  next p hp =>
    have hne : p ≠ dd := by
      rintro rfl
      exact tree.not_below_of_parent hp .refl
    have hcover : max 0 ((dirs dd).ddReserved - (dirs dd).ddUsedBytes) ≤ (dirs p).ddUsedBreakdown .childRsrv :=
      passed_le_value hfair hp (hown.nonneg hfair p (.used .childRsrv))
    obtain ⟨dirs', heq, hfair', -, -, hraised, hown'⟩ := dslDirDiduseSpace_spec tree tree.ddParent p _ .childRsrv delta 0 0
      hfair1 (fun _ _ => rfl) (by
        intro p' q hp' hq a
        have hqp : q ≠ p := by
          rintro rfl
          exact tree.not_below_of_parent hp' hq
        rw [hown1, if_neg (by rw [hp]; simpa using hqp.symm), sub_zero]
        exact hown.nonneg hfair q a) (by
        intro a
        rw [update_of_ne hne]
        have hnn := (hfair p).nonneg a
        rcases a with (_ | _ | _ | _ | _) | _ | _ <;> simp [DslDirPhys.value, charge] at * <;> omega)
    have hroom' : HasRoom (update dirs dd phys) delta 0 0 := hfits1 delta fun d => by
      have := hroom d
      exact ⟨this.1, by omega, this.2.2⟩
    refine ⟨dirs', heq, consistent_iff.2 ⟨hfair', (hfits1 0 hfits).raise hroom' hraised, ?_⟩⟩
    have hsame : own tree.ddParent dirs' = own tree.ddParent dirs := by
      funext q a
      rw [hown', hown1, hp]
      rcases eq_or_ne q p with rfl | hqp
      · simp
      · rw [if_neg hqp, if_neg fun h => hqp (Option.some.inj h).symm]; ring
    rw [hsame]
    exact hown

end

end

section
variable {tree : DirTree D} {dirs : D → DslDirPhys} {dd : D}

lemma own_reparent (parent : D → Option D) (dirs : D → DslDirPhys) (dd : D) (x : Option D) (p : D) (a : Counter) :
    own (update parent dd x) dirs p a = own parent dirs p a +
      (if parent dd = some p then (dirs dd).passed a else 0) - (if x = some p then (dirs dd).passed a else 0) := by
  have hsum := sum_sub_sum_of_ne dd (f := fun c => if update parent dd x c = some p then (dirs c).passed a else 0)
    (g := fun c => if parent c = some p then (dirs c).passed a else 0)
    fun c hne => by rw [update_of_ne hne]
  rw [update_self, sub_eq_iff_eq_add'] at hsum
  unfold own
  rw [hsum]
  ring

lemma detached_walk {s : D} (hs : ¬ tree.Below s dd) (type : DdUsed) (used compressed uncompressed : Int)
    (hfair : ∀ d, (dirs d).Fair) (hown : ∀ q a, 0 ≤ own (update tree.ddParent dd none) dirs q a)
    (hle : ∀ a, 0 ≤ own (update tree.ddParent dd none) dirs s a + charge type used compressed uncompressed a) :
    ∃ dirs', dslDirDiduseSpace tree dirs s type used compressed uncompressed = .ok dirs' ∧ (∀ d, (dirs' d).Fair) ∧
      dirs' dd = dirs dd ∧ (∀ q a, 0 ≤ own (update tree.ddParent dd none) dirs' q a) ∧
      (∀ q, (dirs q).Raised (dirs' q) (max 0 used) (max 0 compressed) (max 0 uncompressed)) ∧
      ∀ q a, own (update tree.ddParent dd none) dirs' q a = own (update tree.ddParent dd none) dirs q a +
        if q = s then charge type used compressed uncompressed a else 0 := by
  have hagree : ∀ q, tree.Below s q → update tree.ddParent dd none q = tree.ddParent q := by
    intro q hq
    refine update_of_ne ?_ ..
    rintro rfl
    exact hs hq
  obtain ⟨dirs', heq, hfair', hframe, -, hraised, hown'⟩ := dslDirDiduseSpace_spec tree (update tree.ddParent dd none) s dirs
    type used compressed uncompressed hfair hagree (fun _ q _ _ => hown q)
    (fun a => (hle a).trans (add_le_add_left (own_le_value _ hfair s a) _))
  refine ⟨dirs', heq, hfair', hframe dd hs, fun q a => ?_, hraised, hown'⟩
  rw [hown']
  split
  next heq => rw [heq]; exact hle a
  next hne => rw [add_zero]; exact hown q a

lemma passed_eq (phys : DslDirPhys) (a : Counter) :
    phys.passed a = charge .child phys.ddUsedBytes phys.ddCompressedBytes phys.ddUncompressedBytes a +
      charge .childRsrv (max 0 (phys.ddReserved - phys.ddUsedBytes)) 0 0 a := by
  rcases a with (_ | _ | _ | _ | _) | _ | _ <;> simp [DslDirPhys.passed, charge]

variable {parent newparent : D}

section
variable (h : Consistent tree dirs) (hp : tree.ddParent dd = some parent) (hnew : ¬ tree.Below newparent dd)
include h hp hnew

/-- **The walks of a rename** move what the directory passes on. -/
theorem renameSpace_spec (hne : newparent ≠ parent) :
    ∃ dirs', renameSpace tree dirs dd parent newparent = .ok dirs' ∧ (∀ d, (dirs' d).Fair) ∧ dirs' dd = dirs dd ∧
      (∀ q, (dirs q).Raised (dirs' q) (max (dirs dd).ddUsedBytes (dirs dd).ddReserved) (dirs dd).ddCompressedBytes
        (dirs dd).ddUncompressedBytes) ∧
      ∀ q a, own (update tree.ddParent dd none) dirs' q a = own tree.ddParent dirs q a +
        if q = newparent then (dirs dd).passed a else 0 := by
  obtain ⟨hfair, -, hok⟩ := consistent_iff.1 h
  have hold : ¬ tree.Below parent dd := tree.not_below_of_parent hp
  have hnn := hok.nonneg hfair
  have hpass := passed_eq (dirs dd)
  have hpass0 := (hfair dd).passed_nonneg
  -- the old parent has on its own what the detached directory passed on
  have hown0 : ∀ q a, own (update tree.ddParent dd none) dirs q a = own tree.ddParent dirs q a +
      if q = parent then (dirs dd).passed a else 0 := by
    intro q a
    rw [own_reparent, hp, if_neg (fun h : none = some q => by cases h), sub_zero]
    simp only [Option.some.injEq, eq_comm]
  have hnn0 : ∀ q a, 0 ≤ own (update tree.ddParent dd none) dirs q a := by
    intro q a
    rw [hown0]
    split
    · exact add_nonneg (hnn q a) (hpass0 a)
    · rw [add_zero]; exact hnn q a
  generalize hrest : max 0 ((dirs dd).ddReserved - (dirs dd).ddUsedBytes) = unused at hpass
  have hunused : 0 ≤ unused := hrest ▸ le_max_left _ _
  have hrsrv0 := charge_nonneg .childRsrv hunused le_rfl le_rfl
  have hchild0 : ∀ a, 0 ≤ charge .child (dirs dd).ddUsedBytes (dirs dd).ddCompressedBytes (dirs dd).ddUncompressedBytes a :=
    charge_nonneg .child (hfair dd).used_nonneg ((hfair dd).nonneg .compressed) ((hfair dd).nonneg .uncompressed)
  have hneg := charge_neg .child (dirs dd).ddUsedBytes (dirs dd).ddCompressedBytes (dirs dd).ddUncompressedBytes
  have hneg' : ∀ a, charge .childRsrv (-unused) 0 0 a = -charge .childRsrv unused 0 0 a := charge_neg .childRsrv unused 0 0
  unfold renameSpace
  rw [if_neg hne]
  obtain ⟨dirs1, heq1, hfair1, hdd1, hnn1, hraised1, hown1⟩ := detached_walk hold .child _ _ _ hfair hnn0 (fun a => by
    rw [hown0, if_pos rfl, hneg, hpass]
    have := hnn parent a; have := hrsrv0 a
    linarith)
  rw [heq1, ok_bind, hdd1]
  obtain ⟨dirs2, heq2, hfair2, hdd2, hnn2, hraised2, hown2⟩ := detached_walk hnew .child _ _ _ hfair1 hnn1
    (fun a => add_nonneg (hnn1 newparent a) (hchild0 a))
  rw [heq2, ok_bind, hdd2, hdd1]
  have hown2' : ∀ q a, own (update tree.ddParent dd none) dirs2 q a = own tree.ddParent dirs q a +
      (if q = parent then charge .childRsrv unused 0 0 a else 0) +
      if q = newparent then charge .child (dirs dd).ddUsedBytes (dirs dd).ddCompressedBytes (dirs dd).ddUncompressedBytes a
        else 0 := by
    intro q a
    rw [hown2, hown1, hown0]
    rcases eq_or_ne q parent with rfl | hqp
    · rw [if_pos rfl, if_pos rfl, if_pos rfl, hneg, hpass]; ring
    · rw [if_neg hqp, if_neg hqp, if_neg hqp]; ring
  have hused0 := (hfair dd).used_nonneg
  have hcomp0 : 0 ≤ (dirs dd).ddCompressedBytes := (hfair dd).nonneg .compressed
  have huncomp0 : 0 ≤ (dirs dd).ddUncompressedBytes := (hfair dd).nonneg .uncompressed
  have hmoved (q : D) := (hraised1 q).trans (hraised2 q)
  split
  next hgt =>
    have hun : (dirs dd).ddReserved - (dirs dd).ddUsedBytes = unused := by omega
    rw [hun]
    obtain ⟨dirs3, heq3, hfair3, hdd3, hnn3, hraised3, hown3⟩ := detached_walk hold .childRsrv (-unused) 0 0 hfair2 hnn2 (fun a => by
        rw [hown2', if_pos rfl, if_neg hne.symm, hneg']
        have := hnn parent a
        linarith)
    obtain ⟨dirs4, heq4, hfair4, hdd4, -, hraised4, hown4⟩ := detached_walk hnew .childRsrv unused 0 0 hfair3 hnn3
      (fun a => add_nonneg (hnn3 newparent a) (hrsrv0 a))
    refine ⟨dirs4, by dsimp only; rw [heq3, ok_bind]; exact heq4, hfair4, by rw [hdd4, hdd3, hdd2, hdd1], fun q => ?_,
      fun q a => ?_⟩
    · obtain ⟨hr, hu, hc, huc⟩ := (hmoved q).trans ((hraised3 q).trans (hraised4 q))
      exact ⟨hr, by omega, by omega, by omega⟩
    rw [hown4, hown3, hown2', hneg', hpass]
    rcases eq_or_ne q parent with rfl | hqp
    · rw [if_pos rfl, if_pos rfl, if_neg hne.symm, if_neg hne.symm, if_neg hne.symm]; ring
    · rw [if_neg hqp, if_neg hqp]
      split <;> ring
  next hle =>
    have hun : unused = 0 := by omega
    refine ⟨dirs2, rfl, hfair2, by rw [hdd2, hdd1], fun q => ?_, fun q a => ?_⟩
    · obtain ⟨hr, hu, hc, huc⟩ := hmoved q
      exact ⟨hr, by omega, by omega, by omega⟩
    have hzero : charge .childRsrv unused 0 0 a = 0 := by
      rw [hun]
      rcases a with t | _ | _ <;> simp [charge]
    rw [hown2', hpass, hzero, ite_self, add_zero, add_zero]

/-- **`dsl_dir_rename_sync`**. -/
theorem Consistent.rename (hroom : HasRoom dirs (max (dirs dd).ddUsedBytes (dirs dd).ddReserved) (dirs dd).ddCompressedBytes
    (dirs dd).ddUncompressedBytes) : ∃ tree' dirs', dslDirRenameSync tree dirs dd newparent hnew = .ok (tree', dirs') ∧
      tree'.ddParent = update tree.ddParent dd (some newparent) ∧ Consistent tree' dirs' := by
  obtain ⟨hfair, hfits, hok⟩ := consistent_iff.1 h
  have hrun : ∀ dirs', renameSpace tree dirs dd parent newparent = .ok dirs' →
      dslDirRenameSync tree dirs dd newparent hnew = .ok
        (⟨update tree.ddParent dd (some newparent), wf_update fun _ h => Option.some.inj h ▸ hnew⟩, dirs') := by
    intro dirs' heq
    unfold dslDirRenameSync
    split
    next hroot => rw [hroot] at hp; cases hp
    next p hp' =>
      rw [hp, Option.some.injEq] at hp'
      subst hp'
      rw [heq]
      rfl
  rcases eq_or_ne newparent parent with rfl | hne
  · refine ⟨_, dirs, hrun dirs (by unfold renameSpace; rw [if_pos rfl]), rfl, consistent_iff.2 ⟨hfair, hfits, ?_⟩⟩
    dsimp only
    rw [← hp, update_eq_self]
    exact hok
  · obtain ⟨dirs', heq, hfair', hdd, hraised, hown⟩ := renameSpace_spec h hp hnew hne
    have hfits' : HasRoom dirs' 0 0 0 := fun d => by
      obtain ⟨hr, hu, hc, huc⟩ := hraised d
      obtain ⟨hres, hu1, hc1, huc1⟩ := hroom d
      exact ⟨hr ▸ hres, by omega, by omega, by omega⟩
    refine ⟨_, dirs', hrun dirs' heq, rfl, consistent_iff.2 ⟨hfair', hfits', ?_⟩⟩
    have hsame : own (update tree.ddParent dd (some newparent)) dirs' = own tree.ddParent dirs := by
      funext q a
      have hq := own_reparent tree.ddParent dirs' dd none q a
      rw [if_neg (fun h : none = some q => by cases h), sub_zero, hown q a] at hq
      rw [own_reparent, ← hq, hdd]
      rcases eq_or_ne q newparent with rfl | hqn
      · rw [if_pos rfl, if_pos rfl]; ring
      · rw [if_neg hqn, if_neg fun h => hqn (Option.some.inj h).symm]; ring
    dsimp only
    rw [hsame]
    exact hok

end

end

/-- An operation on the space of a tree of directories. -/
inductive DirOp (D : Type) where
  | diduse (dd : D) (type : DdUsed) (used compressed uncompressed : Int)
  | transfer (dd : D) (delta : Int) (oldtype newtype : DdUsed)
  | setReservation (dd : D) (value : Int)
  | rename (dd newparent : D)

/-- A tree with the counters of its directories. -/
abbrev DirState (D : Type) := DirTree D × (D → DslDirPhys)

/-- What the callers see to: no type of children, no counter below zero, no charge for children, and no counter that
leaves the signed 64-bit integers: every directory has room for all that the operation may add to it. -/
def DirOp.Allowed (s : DirState D) : DirOp D → Prop
  | .diduse dd type used compressed uncompressed =>
    (type ≠ .child ∧ type ≠ .childRsrv) ∧ 0 ≤ (s.2 dd).ddUsedBreakdown type + used ∧
      ∑ c, (if s.1.ddParent c = some dd then (s.2 c).ddCompressedBytes else 0) ≤ (s.2 dd).ddCompressedBytes + compressed ∧
      ∑ c, (if s.1.ddParent c = some dd then (s.2 c).ddUncompressedBytes else 0) ≤ (s.2 dd).ddUncompressedBytes + uncompressed ∧
      HasRoom s.2 used compressed uncompressed
  | .transfer dd delta oldtype newtype =>
    (oldtype ≠ .child ∧ oldtype ≠ .childRsrv) ∧ (newtype ≠ .child ∧ newtype ≠ .childRsrv) ∧
      0 ≤ (s.2 dd).ddUsedBreakdown oldtype - delta ∧ 0 ≤ (s.2 dd).ddUsedBreakdown newtype + delta
  | .setReservation _ value => 0 ≤ value ∧ HasRoom s.2 value 0 0
  | .rename dd newparent => ((∃ parent, s.1.ddParent dd = some parent) ∧ ¬ s.1.Below newparent dd) ∧
      HasRoom s.2 (max (s.2 dd).ddUsedBytes (s.2 dd).ddReserved) (s.2 dd).ddCompressedBytes (s.2 dd).ddUncompressedBytes

def DirOp.run (s : DirState D) : (op : DirOp D) → op.Allowed s → Except Fault (DirState D)
  | .diduse dd type used compressed uncompressed, _ => do
    let dirs ← dslDirDiduseSpace s.1 s.2 dd type used compressed uncompressed
    .ok (s.1, dirs)
  | .transfer dd delta oldtype newtype, _ => do
    let phys ← dslDirTransferSpace (s.2 dd) delta oldtype newtype
    .ok (s.1, update s.2 dd phys)
  | .setReservation dd value, _ => do
    let dirs ← dslDirSetReservationSyncImpl s.1 s.2 dd value
    .ok (s.1, dirs)
  | .rename dd newparent, h => dslDirRenameSync s.1 s.2 dd newparent h.1.2

/-- The states that operations reach from a state. -/
inductive DirReaches (s : DirState D) : DirState D → Prop where
  | refl : DirReaches s s
  | step {s' s'' : DirState D} (op : DirOp D) (h : op.Allowed s') : DirReaches s s' → op.run s' h = .ok s'' → DirReaches s s''

/-- **An operation** returns a consistent tree. -/
theorem DirOp.run_spec {s : DirState D} (hs : Consistent s.1 s.2) (op : DirOp D) (h : op.Allowed s) :
    ∃ s', op.run s h = .ok s' ∧ Consistent s'.1 s'.2 := by
  cases op with
  | diduse dd type used compressed uncompressed =>
    have hall := h
    obtain ⟨⟨hchild, hrsrv⟩, hused, hcomp, huncomp, hroom⟩ := hall
    have hcomp' : 0 ≤ own s.1.ddParent s.2 dd .compressed + compressed := by
      unfold own
      dsimp only [DslDirPhys.value, DslDirPhys.passed]
      linarith
    have huncomp' : 0 ≤ own s.1.ddParent s.2 dd .uncompressed + uncompressed := by
      unfold own
      dsimp only [DslDirPhys.value, DslDirPhys.passed]
      linarith
    obtain ⟨dirs', heq, h'⟩ := hs.diduse dd hchild hrsrv hused hcomp' huncomp' hroom
    exact ⟨(s.1, dirs'), by rw [DirOp.run, heq]; rfl, h'⟩
  | transfer dd delta oldtype newtype =>
    have hall := h
    obtain ⟨hold, hnew, hle, hle'⟩ := hall
    obtain ⟨phys, heq, h'⟩ := hs.transfer dd hold hnew hle hle'
    exact ⟨(s.1, _), by rw [DirOp.run, heq]; rfl, h'⟩
  | setReservation dd value =>
    obtain ⟨dirs', heq, h'⟩ := hs.setReservation dd h.1 h.2
    exact ⟨(s.1, dirs'), by rw [DirOp.run, heq]; rfl, h'⟩
  | rename dd newparent =>
    obtain ⟨⟨⟨parent, hp⟩, hnew⟩, hroom⟩ := h
    obtain ⟨tree', dirs', heq, -, h'⟩ := hs.rename hp hnew hroom
    exact ⟨(tree', dirs'), heq, h'⟩

/-- **Any sequence of operations** leaves a tree consistent: breakdowns add up, and the parts for children are their
sums. No assertion fails. -/
theorem dslDir_accounting {s s' : DirState D} (hs : Consistent s.1 s.2) (h : DirReaches s s') :
    Consistent s'.1 s'.2 ∧ ∀ (op : DirOp D) (hop : op.Allowed s'), ∃ s'', op.run s' hop = .ok s'' ∧ Consistent s''.1 s''.2 := by
  have hc : Consistent s'.1 s'.2 := by
    induction h with
    | refl => exact hs
    | step op hop _ heq ih =>
      obtain ⟨s1, heq₁, h1⟩ := DirOp.run_spec ih op hop
      rw [heq, Except.ok.injEq] at heq₁
      exact heq₁ ▸ h1
  exact ⟨hc, fun op hop => DirOp.run_spec hc op hop⟩

/-- A root and a directory below it. -/
def twoDirs : DirTree Bool where
  ddParent := fun d => if d then some false else none
  wf := by
    have hroot : Acc (fun p d : Bool => (if d then some false else none) = some p) false :=
      ⟨_, fun p hp => by cases hp⟩
    refine ⟨fun d => ?_⟩
    cases d with
    | false => exact hroot
    | true => exact ⟨_, fun p hp => Option.some.inj hp ▸ hroot⟩

/-- The directory uses 10 bytes of data, compressed or not. -/
def tenBytes : Bool → DslDirPhys
  | true => ⟨10, 10, 10, 0, true, fun t => if t = .head then 10 else 0⟩
  | false => ⟨10, 10, 10, 0, true, fun t => if t = .child then 10 else 0⟩

lemma tenBytes_consistent : Consistent twoDirs tenBytes := by
  refine ⟨fun d => ?_, by decide, by decide, by decide, by decide, by unfold HasRoom; decide⟩
  cases d <;> exact ⟨by decide, by decide, fun a => by rcases a with (_ | _ | _ | _ | _) | _ | _ <;> decide, by decide⟩

/-- The directory is given 4 bytes more. -/
theorem dslDir_accounting_two : Consistent twoDirs tenBytes ∧ ∃ s, DirOp.run (twoDirs, tenBytes) (.diduse true .snap 4 4 4)
        ⟨⟨by decide, by decide⟩, by decide, by decide, by decide, by unfold HasRoom; decide⟩ = .ok s ∧ Consistent s.1 s.2 :=
  ⟨tenBytes_consistent, (dslDir_accounting tenBytes_consistent .refl).2 _ _⟩

/-- The root's compressed bytes fall below those of its child. -/
theorem dslDirDiduseSpace_below_children :
    Consistent twoDirs tenBytes ∧ ∃ dirs, dslDirDiduseSpace twoDirs tenBytes false .head 0 (-5) 0 = .ok dirs ∧
      (∀ d a, 0 ≤ (dirs d).value a) ∧ (dirs false).ddCompressedBytes < (dirs true).ddCompressedBytes ∧
      ¬ Consistent twoDirs dirs := by
  have hcharge : chargeDir (tenBytes false) .head 0 (-5) 0 = .ok
      ⟨10, 5, 10, 0, true, update (fun t => if t = .child then 10 else 0) .head 0⟩ := rfl
  refine ⟨tenBytes_consistent, update tenBytes false
    ⟨10, 5, 10, 0, true, update (fun t => if t = .child then 10 else 0) .head 0⟩, ?_, ?_, by decide, fun h => ?_⟩
  · rw [dslDirDiduseSpace, hcharge, ok_bind]
    rfl
  · rintro (_ | _) ((_ | _ | _ | _ | _) | _ | _) <;> decide
  · exact absurd (h.compressed false) (by decide)

end Unleashed.Zfs
