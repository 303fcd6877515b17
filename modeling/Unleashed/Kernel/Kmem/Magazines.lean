import Unleashed.Kernel.Kmem.Basic

/-!
# The magazine layer

Each operation on a CPU cache is specified by `Moved`: what goes into the layer, what comes out, and what stays.
-/

namespace Unleashed.Kernel.Kmem

open Lib Fault Function List MagLayer Maglist

lemma mtMagsize_pos : ∀ mt < kmemMagtype.length, 0 < mtMagsize mt := by decide

lemma mtMagsize_inj : ∀ mt < kmemMagtype.length, ∀ mt' < kmemMagtype.length, mtMagsize mt = mtMagsize mt' → mt = mt' := by decide

lemma mtMaxbuf_next : ∀ mt < kmemMagtype.length, 0 < mtMaxbuf mt → mt + 1 < kmemMagtype.length := by decide

lemma rounds_zero (mp : Option Mag) : rounds mp 0 = [] := by
  cases mp <;> rfl

lemma rounds_succ (mp : Mag) (n : Nat) : rounds (some mp) ((n : Int) + 1) = rounds (some mp) n ++ [mp.magRound n] := by
  show (List.range ((n : Int) + 1).toNat).map mp.magRound = (List.range (n : Int).toNat).map mp.magRound ++ [mp.magRound n]
  rw [show ((n : Int) + 1).toNat = n + 1 by omega, Int.toNat_natCast, range_succ, map_append, map_singleton]

lemma rounds_push (mp : Mag) (n buf : Nat) :
    rounds (some { mp with magRound := update mp.magRound n buf }) ((n : Int) + 1) = rounds (some mp) n ++ [buf] := by
  rw [rounds_succ]
  congr 1
  · refine map_congr_left fun j hj => ?_
    rw [mem_range, Int.toNat_natCast] at hj
    exact update_of_ne (by omega) _ _
  · show [update mp.magRound n buf n] = [buf]
    rw [update_self]

@[simp] lemma rounds_none (n : Int) : rounds none n = [] := rfl

/-! ## The invariant -/

/-- What a full magazine holds. -/
def Mag.held (mp : Mag) : Multiset Nat := (rounds (some mp) (mtMagsize mp.mtType) : List Nat)

def CpuCache.held (cc : CpuCache) : Multiset Nat := (rounds cc.ccLoaded cc.ccRounds : List Nat) + (rounds cc.ccPloaded cc.ccProunds : List Nat)

def Maglist.held (ml : Maglist) : Multiset Nat := (ml.mlList.map Mag.held).sum

/-- The buffers in valid rounds of the magazines. -/
def MagLayer.held (c : Cache) (m : MagLayer) : Multiset Nat := ∑ i ∈ Finset.range c.ncpus, (m.cpu i).held + m.cacheFull.held

/-- The CPU caches for magazines of type `mt`. -/
inductive CpuOk (mt : Nat) : CpuCache → Prop
  | disabled : CpuOk mt ⟨none, none, -1, -1, 0⟩
  | unloaded : CpuOk mt ⟨none, none, -1, -1, mtMagsize mt⟩
  | one (mp : Mag) (n : Nat) (h : mp.mtType = mt) (hn : n ≤ mtMagsize mt) : CpuOk mt ⟨some mp, none, n, -1, mtMagsize mt⟩
  | two (mp pmp : Mag) (n p : Nat) (h : mp.mtType = mt) (hp : pmp.mtType = mt) (hn : n ≤ mtMagsize mt)
      (hpn : p = 0 ∨ p = mtMagsize mt) : CpuOk mt ⟨some mp, some pmp, n, p, mtMagsize mt⟩

structure MaglistOk (mt : Nat) (ml : Maglist) : Prop where
  mtType : ∀ mp ∈ ml.mlList, mp.mtType = mt
  mlTotal : ml.mlTotal = ml.mlList.length
  mlMin : ml.mlMin ≤ ml.mlTotal

structure MagOk (c : Cache) (m : MagLayer) : Prop where
  magtype : m.cacheMagtype < kmemMagtype.length
  cpus : ∀ i < c.ncpus, CpuOk m.cacheMagtype (m.cpu i)
  full : MaglistOk m.cacheMagtype m.cacheFull
  empty : MaglistOk m.cacheMagtype m.cacheEmpty

/-- What an operation on the CPU cache `i` leaves alone. -/
structure Frame (i : Nat) (m m' : MagLayer) : Prop where
  magtype : m'.cacheMagtype = m.cacheMagtype
  other : ∀ j, j ≠ i → m'.cpu j = m.cpu j
  magsize : (m'.cpu i).ccMagsize = (m.cpu i).ccMagsize
  depot : (m.cpu i).ccMagsize = 0 → m'.cacheFull = m.cacheFull ∧ m'.cacheEmpty = m.cacheEmpty

/-- An operation that takes the buffers `a` and gives `b`. -/
structure Moved (c : Cache) (i : Nat) (a b : Multiset Nat) (m m' : MagLayer) : Prop where
  ok : MagOk c m'
  held : b + m'.held c = a + m.held c
  frame : Frame i m m'

variable {c : Cache} {m m' m'' : MagLayer} {i : Nat} {a b d : Multiset Nat}

lemma Frame.refl (i : Nat) (m : MagLayer) : Frame i m m := ⟨rfl, fun _ _ => rfl, rfl, fun _ => ⟨rfl, rfl⟩⟩

lemma Frame.trans (h : Frame i m m') (h' : Frame i m' m'') : Frame i m m'' := by
  refine ⟨h'.magtype.trans h.magtype, fun j hj => (h'.other j hj).trans (h.other j hj), h'.magsize.trans h.magsize, fun h0 => ?_⟩
  obtain ⟨hf, he⟩ := h.depot h0
  obtain ⟨hf', he'⟩ := h'.depot (h.magsize.trans h0)
  exact ⟨hf'.trans hf, he'.trans he⟩

lemma Moved.refl (h : MagOk c m) (i : Nat) (a : Multiset Nat) : Moved c i a a m m := ⟨h, rfl, .refl i m⟩

lemma Moved.trans (h : Moved c i a b m m') (h' : Moved c i b d m' m'') : Moved c i a d m m'' :=
  ⟨h'.ok, h'.held.trans h.held, h.frame.trans h'.frame⟩

lemma MagLayer.held_frame (hi : i < c.ncpus) (hother : ∀ j, j ≠ i → m'.cpu j = m.cpu j)
    (h : b + ((m'.cpu i).held + m'.cacheFull.held) = a + ((m.cpu i).held + m.cacheFull.held)) : b + m'.held c = a + m.held c := by
  have hsum : ∑ j ∈ (Finset.range c.ncpus).erase i, (m'.cpu j).held = ∑ j ∈ (Finset.range c.ncpus).erase i, (m.cpu j).held :=
    Finset.sum_congr rfl fun j hj => by rw [hother j (Finset.mem_erase.1 hj).1]
  unfold held
  rw [← Finset.add_sum_erase _ (fun j => (m'.cpu j).held) (Finset.mem_range.2 hi),
    ← Finset.add_sum_erase _ (fun j => (m.cpu j).held) (Finset.mem_range.2 hi), hsum, add_right_comm, ← add_assoc, h, add_right_comm (m.cpu i).held]
  simp only [add_assoc]

variable {cc : CpuCache}

lemma Moved.intro (h : MagOk c m) (hi : i < c.ncpus) {full empty : Maglist} (hcc : CpuOk m.cacheMagtype cc)
    (hsize : cc.ccMagsize = (m.cpu i).ccMagsize) (hf : MaglistOk m.cacheMagtype full) (he : MaglistOk m.cacheMagtype empty)
    (hheld : b + (cc.held + full.held) = a + ((m.cpu i).held + m.cacheFull.held))
    (hdepot : (m.cpu i).ccMagsize = 0 → full = m.cacheFull ∧ empty = m.cacheEmpty) :
    Moved c i a b m ⟨update m.cpu i cc, full, empty, m.cacheMagtype⟩ := by
  have hother : ∀ j, j ≠ i → update m.cpu i cc j = m.cpu j := fun j hj => update_of_ne hj _ _
  refine ⟨⟨h.magtype, fun j hj => ?_, hf, he⟩, ?_, ⟨rfl, hother, ?_, hdepot⟩⟩
  · show CpuOk _ (update m.cpu i cc j)
    rcases eq_or_ne j i with rfl | hne
    · rw [update_self]
      exact hcc
    · rw [hother j hne]
      exact h.cpus j hj
  · refine held_frame hi hother ?_
    show b + ((update m.cpu i cc i).held + full.held) = _
    rw [update_self]
    exact hheld
  · show (update m.cpu i cc i).ccMagsize = _
    rw [update_self]
    exact hsize

lemma Moved.setCpu (h : MagOk c m) (hi : i < c.ncpus) (hcc : CpuOk m.cacheMagtype cc)
    (hsize : cc.ccMagsize = (m.cpu i).ccMagsize) (hheld : b + cc.held = a + (m.cpu i).held) : Moved c i a b m (m.setCpu i cc) :=
  .intro h hi hcc hsize h.full h.empty (by rw [← add_assoc, hheld, add_assoc]) fun _ => ⟨rfl, rfl⟩

/-- The CPU cache stays and the lists of the depot change. -/
lemma Moved.setDepot (h : MagOk c m) (hi : i < c.ncpus) {full empty : Maglist} (hen : (m.cpu i).ccMagsize ≠ 0)
    (hf : MaglistOk m.cacheMagtype full) (he : MaglistOk m.cacheMagtype empty) (hheld : b + full.held = a + m.cacheFull.held) :
    Moved c i a b m ⟨m.cpu, full, empty, m.cacheMagtype⟩ := by
  have hmv : Moved c i a b m ⟨update m.cpu i (m.cpu i), full, empty, m.cacheMagtype⟩ :=
    .intro h hi (h.cpus i hi) rfl hf he (by rw [add_left_comm, hheld, add_left_comm]) fun h0 => absurd h0 hen
  rwa [update_eq_self] at hmv

/-! ## The depot -/

variable {mt : Nat} {ml : Maglist} {mp : Mag}

lemma Maglist.alloc_spec (h : MaglistOk mt ml) : ml.mlList = [] ∧ ml.alloc mt = .ok (none, ml) ∨
    ∃ mp ml', ml.alloc mt = .ok (some mp, ml') ∧ mp.mtType = mt ∧ MaglistOk mt ml' ∧ ml.mlList = mp :: ml'.mlList ∧
      ml'.mlTotal = ml.mlTotal - 1 := by
  cases hl : ml.mlList with
  | nil => exact .inl ⟨rfl, by rw [alloc, hl]⟩
  | cons mp rest =>
    have htype := h.mtType mp (by rw [hl]; exact mem_cons_self)
    have htotal := h.mlTotal
    rw [hl, length_cons] at htotal
    refine .inr ⟨mp, { ml with mlList := rest, mlTotal := ml.mlTotal - 1, mlMin := min ml.mlMin (ml.mlTotal - 1) }, ?_, htype, ⟨?_, ?_, ?_⟩,
      rfl, rfl⟩
    · rw [alloc, hl]
      dsimp only
      rw [ASSERT_bind htype]
    · intro mp' hmp'
      exact h.mtType mp' (by rw [hl]; exact mem_cons_of_mem _ hmp')
    · show ml.mlTotal - 1 = rest.length
      omega
    · exact min_le_right _ _

lemma Maglist.free_spec (h : MaglistOk mt ml) (hmp : mp.mtType = mt) :
    ∃ ml', ml.free mt mp = .ok ml' ∧ MaglistOk mt ml' ∧ ml'.held = mp.held + ml.held := by
  refine ⟨_, by rw [free, ASSERT_bind hmp], ⟨fun mp' hmp' => ?_, ?_, ?_⟩, ?_⟩
  · rcases mem_cons.1 hmp' with rfl | hmp'
    · exact hmp
    · exact h.mtType mp' hmp'
  · rw [length_cons, h.mlTotal]
  · exact Nat.le_succ_of_le h.mlMin
  · show ((mp :: ml.mlList).map Mag.held).sum = _
    rw [map_cons, sum_cons]
    rfl

lemma CpuOk.mtType (h : CpuOk mt cc) : (∀ mp ∈ cc.ccLoaded, mp.mtType = mt) ∧ ∀ mp ∈ cc.ccPloaded, mp.mtType = mt := by
  cases h with
  | disabled => exact ⟨fun _ hmp => (by cases hmp), fun _ hmp => by cases hmp⟩
  | unloaded => exact ⟨fun _ hmp => (by cases hmp), fun _ hmp => by cases hmp⟩
  | one mp n h hn => exact ⟨fun _ hmp => (by cases hmp; exact h), fun _ hmp => by cases hmp⟩
  | two mp pmp n p h hp hn hpn => exact ⟨fun _ hmp => (by cases hmp; exact h), fun _ hmp => by cases hmp; exact hp⟩

lemma CpuOk.magsize (h : CpuOk mt cc) (hen : cc.ccMagsize ≠ 0) : cc.ccMagsize = mtMagsize mt := by
  cases h with
  | disabled => exact absurd rfl hen
  | unloaded => rfl
  | one mp n h hn => rfl
  | two mp pmp n p h hp hn hpn => rfl

lemma Maglist.freeOpt_spec (h : MaglistOk mt ml) {pl : Option Mag} (hpl : ∀ mp ∈ pl, mp.mtType = mt) :
    ∃ ml', ml.freeOpt mt pl = .ok ml' ∧ MaglistOk mt ml' ∧ ml'.held = (rounds pl (mtMagsize mt) : List Nat) + ml.held := by
  cases pl with
  | none => exact ⟨ml, rfl, h, (zero_add _).symm⟩
  | some mp =>
    obtain ⟨ml', hfree, hok, hheld⟩ := free_spec h (hpl mp rfl)
    rw [Mag.held, hpl mp rfl] at hheld
    exact ⟨ml', hfree, hok, hheld⟩

/-- Where the magazines of a CPU cache have `k` rounds each, the previous one makes way for one with the other rounds. -/
lemma kmemCpuReload_spec {k r : Nat} (hok : CpuOk mt cc) (hen : cc.ccMagsize ≠ 0) (hmp : mp.mtType = mt)
    (hk : k = 0 ∨ k = cc.ccMagsize) (hkr : k + r = cc.ccMagsize) (hrounds : ∀ n : Nat, cc.ccRounds = n → n = k)
    (hprounds : ∀ n : Nat, cc.ccProunds = n → n = k) :
    ∃ cc', kmemCpuReload cc (some mp) r = .ok cc' ∧ CpuOk mt cc' ∧ cc'.ccMagsize = cc.ccMagsize ∧
      cc'.held + (rounds cc.ccPloaded k : List Nat) = (rounds (some mp) r : List Nat) + cc.held := by
  have hpos : 0 < cc.ccMagsize := Nat.pos_of_ne_zero hen
  unfold kmemCpuReload
  cases hok with
  | disabled => exact absurd rfl hen
  | unloaded =>
    rw [ASSERT_bind (.inl ⟨rfl, rfl⟩), ASSERT_bind hpos]
    exact ⟨_, rfl, .one mp r hmp (Nat.le_of_add_left_le hkr.le), rfl, by simp [CpuCache.held]⟩
  | one mp' n hmp' hn =>
    obtain rfl := hrounds n rfl
    rw [ASSERT_bind (.inr ⟨rfl, by dsimp only at hkr ⊢; omega⟩), ASSERT_bind hpos]
    exact ⟨_, rfl, .two mp mp' r n hmp hmp' (Nat.le_of_add_left_le hkr.le) hk, rfl, by simp [CpuCache.held]⟩
  | two mp' pmp n p hmp' hpmp hn hpn =>
    obtain rfl := hrounds n rfl
    obtain rfl := hprounds p rfl
    rw [ASSERT_bind (.inr ⟨rfl, by dsimp only at hkr ⊢; omega⟩), ASSERT_bind hpos]
    exact ⟨_, rfl, .two mp mp' r p hmp hmp' (Nat.le_of_add_left_le hkr.le) hk, rfl, add_assoc _ _ _⟩

lemma MaglistOk.wsUpdate (h : MaglistOk mt ml) : MaglistOk mt ml.wsUpdate := ⟨h.mtType, h.mlTotal, le_rfl⟩

lemma MaglistOk.wsZero (h : MaglistOk mt ml) : MaglistOk mt ml.wsZero := ⟨h.mtType, h.mlTotal, le_rfl⟩

/-! ## The loop of an allocation -/

lemma kmemCpuReload_exchange (h : MagOk c m) (hi : i < c.ncpus) {mp pmp : Mag} {n p : Nat}
    (hcc : m.cpu i = ⟨some mp, some pmp, n, p, mtMagsize m.cacheMagtype⟩) (hmp : mp.mtType = m.cacheMagtype)
    (hpmp : pmp.mtType = m.cacheMagtype) (hn : n = 0 ∨ n = mtMagsize m.cacheMagtype) (hnp : n + p = mtMagsize m.cacheMagtype) :
    kmemCpuReload (m.cpu i) (m.cpu i).ccPloaded (m.cpu i).ccProunds = .ok ⟨some pmp, some mp, p, n, mtMagsize m.cacheMagtype⟩ ∧
      Moved c i a a m (m.setCpu i ⟨some pmp, some mp, p, n, mtMagsize m.cacheMagtype⟩) := by
  have hpos := mtMagsize_pos _ h.magtype
  refine ⟨?_, .setCpu h hi (.two pmp mp p n hpmp hmp (by omega) hn) (by rw [hcc]) ?_⟩
  · rw [hcc, kmemCpuReload]
    dsimp only
    rw [ASSERT_bind (.inr ⟨rfl, by omega⟩), ASSERT_bind hpos]
  · rw [hcc]
    exact congrArg (a + ·) (add_comm _ _)

lemma getLoop_loaded (h : MagOk c m) (hi : i < c.ncpus) (hr : 0 < (m.cpu i).ccRounds) (fuel : Nat) :
    ∃ buf m', getLoop i (fuel + 1) m = .ok (.done buf, m') ∧ Moved c i 0 {buf} m m' := by
  have hok := h.cpus i hi
  have hload : ∃ mp n pl pr, m.cpu i = ⟨some mp, pl, ((n + 1 : Nat) : Int), pr, mtMagsize m.cacheMagtype⟩ ∧
      CpuOk m.cacheMagtype ⟨some mp, pl, (n : Int), pr, mtMagsize m.cacheMagtype⟩ := by
    generalize m.cpu i = cc at hok hr
    cases hok with
    | disabled => exact absurd hr (by simp)
    | unloaded => exact absurd hr (by simp)
    | one mp n h hn =>
      obtain ⟨k, rfl⟩ := Nat.exists_eq_succ_of_ne_zero (show n ≠ 0 by rintro rfl; exact absurd hr (by simp))
      exact ⟨mp, k, none, -1, rfl, .one mp k h (by omega)⟩
    | two mp pmp n p h hp hn hpn =>
      obtain ⟨k, rfl⟩ := Nat.exists_eq_succ_of_ne_zero (show n ≠ 0 by rintro rfl; exact absurd hr (by simp))
      exact ⟨mp, k, some pmp, p, rfl, .two mp pmp k p h hp (by omega) hpn⟩
  obtain ⟨mp, n, pl, pr, hcc, hok'⟩ := hload
  refine ⟨mp.magRound n, m.setCpu i ⟨some mp, pl, n, pr, mtMagsize m.cacheMagtype⟩, ?_, .setCpu h hi hok' (by rw [hcc]) ?_⟩
  · rw [getLoop]
    rw [hcc, if_pos (by dsimp only; omega)]
    rw [show ((n + 1 : Nat) : Int) - 1 = n by omega, Int.toNat_natCast]
  · rw [hcc]
    unfold CpuCache.held
    rw [Nat.cast_succ, rounds_succ, ← Multiset.coe_add, Multiset.coe_singleton, zero_add, ← add_assoc, add_comm ({mp.magRound n} : Multiset Nat)]

/-- The CPU cache has used its rounds, and has a full magazine to load. -/
structure GetReady (m : MagLayer) (i : Nat) (fmp : Mag) : Prop where
  mtType : fmp.mtType = m.cacheMagtype
  enabled : (m.cpu i).ccMagsize ≠ 0
  rounds : (m.cpu i).ccRounds ≤ 0
  prounds : (m.cpu i).ccProunds ≤ 0

def GetResult.held : GetResult → Multiset Nat
  | .done buf => {buf}
  | .slab => 0
  | .full fmp => fmp.held

section
variable (h : MagOk c m) (hi : i < c.ncpus)
include h hi

lemma getLoop_spent (hr : (m.cpu i).ccRounds ≤ 0) (hp : (m.cpu i).ccProunds ≤ 0) (fuel : Nat) :
    ∃ r m', getLoop i (fuel + 1) m = .ok (r, m') ∧ Moved c i 0 r.held m m' ∧ ∀ fmp, r = .full fmp → GetReady m' i fmp := by
  rw [getLoop]
  rw [if_neg (by omega), if_neg (by omega)]
  by_cases hm : (m.cpu i).ccMagsize = 0
  · rw [if_pos hm]
    exact ⟨.slab, m, rfl, .refl h i 0, fun _ heq => by cases heq⟩
  rw [if_neg hm]
  rcases alloc_spec h.full with ⟨hnil, halloc⟩ | ⟨mp, ml', halloc, htype, hok, hlist, -⟩
  · rw [halloc]
    exact ⟨.slab, m, rfl, .refl h i 0, fun _ heq => by cases heq⟩
  · rw [halloc]
    refine ⟨.full mp, _, rfl, .setDepot h hi hm hok h.empty ?_, fun fmp heq => ?_⟩
    · unfold Maglist.held
      rw [hlist, map_cons, sum_cons, zero_add]
      rfl
    cases heq
    exact ⟨htype, hm, hr, hp⟩

lemma MagOk.two_of_prounds (hp : 0 ≤ (m.cpu i).ccProunds) :
    ∃ (mp pmp : Mag) (n p : Nat), m.cpu i = ⟨some mp, some pmp, n, p, mtMagsize m.cacheMagtype⟩ ∧
      mp.mtType = m.cacheMagtype ∧ pmp.mtType = m.cacheMagtype ∧
      n ≤ mtMagsize m.cacheMagtype ∧ (p = 0 ∨ p = mtMagsize m.cacheMagtype) := by
  have hok := h.cpus i hi
  generalize m.cpu i = cc at hok hp
  cases hok with
  | disabled => exact absurd hp (by decide)
  | unloaded => exact absurd hp (show ¬ (0 : Int) ≤ -1 by decide)
  | one mp n h hn => exact absurd hp (show ¬ (0 : Int) ≤ -1 by decide)
  | two mp pmp n p h hp' hn hpn => exact ⟨mp, pmp, n, p, rfl, h, hp', hn, hpn⟩

/-- The loop of `kmem_cache_alloc` to its first use of the depot. -/
lemma getLoop_spec :
    ∃ r m', getLoop i 2 m = .ok (r, m') ∧ Moved c i 0 r.held m m' ∧ ∀ fmp, r = .full fmp → GetReady m' i fmp := by
  by_cases hr : 0 < (m.cpu i).ccRounds
  · obtain ⟨buf, m', hget, hmv⟩ := getLoop_loaded h hi hr 1
    exact ⟨.done buf, m', hget, hmv, fun _ heq => by cases heq⟩
  by_cases hp : 0 < (m.cpu i).ccProunds
  · obtain ⟨mp, pmp, n, p, hcc, hmp, hpmp, hn, hpn⟩ := h.two_of_prounds hi (by omega)
    have hr' := hr
    have hp' := hp
    rw [hcc] at hr' hp'
    dsimp only at hr' hp'
    obtain rfl : n = 0 := by omega
    obtain rfl : p = mtMagsize m.cacheMagtype := by omega
    obtain ⟨hreload, hmv⟩ := kmemCpuReload_exchange (a := 0) h hi hcc hmp hpmp (.inl rfl) (zero_add _)
    obtain ⟨buf, m', hget, hmv'⟩ := getLoop_loaded hmv.ok hi (by
      show 0 < (update m.cpu i _ i).ccRounds
      rw [update_self]
      omega) 0
    refine ⟨.done buf, m', ?_, hmv.trans hmv', fun _ heq => by cases heq⟩
    rw [getLoop]
    rw [if_neg hr, if_pos hp, hreload, ok_bind]
    exact hget
  · exact getLoop_spent h hi (by omega) (by omega) 1

/-- The rest of the turn: the empty magazine goes to the depot. -/
lemma getFull_spec {fmp : Mag} (hr : GetReady m i fmp) : ∃ m', getFull i fmp m = .ok m' ∧ Moved c i fmp.held 0 m m' := by
  have hrounds := hr.rounds
  have hprounds := hr.prounds
  have hcpu := h.cpus i hi
  obtain ⟨cc, hreload, hok, hsize, hheld⟩ := kmemCpuReload_spec hcpu hr.enabled hr.mtType (.inl rfl) (zero_add _)
    (fun n hn => by omega) fun n hn => by omega
  obtain ⟨empty, hfree, hempty, -⟩ := freeOpt_spec h.empty hcpu.mtType.2
  rw [getFull, hfree, ok_bind, hreload, ok_bind]
  refine ⟨_, rfl, .intro h hi hok hsize h.full hempty ?_ fun h0 => absurd h0 hr.enabled⟩
  rw [Nat.cast_zero, rounds_zero, Multiset.coe_nil, add_zero, hcpu.magsize hr.enabled] at hheld
  rw [hheld, Mag.held, hr.mtType, zero_add, add_assoc]

end

/-! ## The loop of a free -/

lemma putLoop_room (h : MagOk c m) (hi : i < c.ncpus) (h0 : 0 ≤ (m.cpu i).ccRounds) (hr : (m.cpu i).ccRounds < (m.cpu i).ccMagsize)
    (buf fuel : Nat) : ∃ m', putLoop i buf (fuel + 1) m = .ok (.done, m') ∧ Moved c i {buf} 0 m m' := by
  have hload : ∃ mp n pl pr, m.cpu i = ⟨some mp, pl, (n : Nat), pr, mtMagsize m.cacheMagtype⟩ ∧ CpuOk m.cacheMagtype
      ⟨some { mp with magRound := update mp.magRound n buf }, pl, (n : Int) + 1, pr, mtMagsize m.cacheMagtype⟩ := by
    have hok := h.cpus i hi
    generalize m.cpu i = cc at hok h0 hr
    cases hok with
    | disabled => exact absurd h0 (by simp)
    | unloaded => exact absurd h0 (by simp)
    | one mp n h hn =>
      dsimp only at hr
      exact ⟨mp, n, none, -1, rfl, .one _ (n + 1) h (by omega)⟩
    | two mp pmp n p h hp hn hpn =>
      dsimp only at hr
      exact ⟨mp, n, some pmp, p, rfl, .two _ pmp (n + 1) p h hp (by omega) hpn⟩
  obtain ⟨mp, n, pl, pr, hcc, hok⟩ := hload
  rw [hcc] at hr
  refine ⟨_, ?_, .setCpu h hi hok (by rw [hcc]) ?_⟩
  · rw [putLoop]
    rw [hcc, if_pos ⟨by dsimp only; omega, hr⟩]
    rw [Int.toNat_natCast]
  · rw [hcc]
    unfold CpuCache.held
    rw [rounds_push, ← Multiset.coe_add, Multiset.coe_singleton, zero_add, ← add_assoc, add_comm ({buf} : Multiset Nat)]

/-- The CPU cache has no room, and has an empty magazine to load. -/
structure PutReady (m : MagLayer) (i : Nat) (emp : Mag) : Prop where
  mtType : emp.mtType = m.cacheMagtype
  enabled : (m.cpu i).ccMagsize ≠ 0
  rounds : (m.cpu i).ccRounds = (m.cpu i).ccMagsize ∨ (m.cpu i).ccRounds = -1
  prounds : (m.cpu i).ccProunds = (m.cpu i).ccMagsize ∨ (m.cpu i).ccProunds = -1

/-- What the call still has of its buffer. -/
def PutResult.held (buf : Nat) : PutResult → Multiset Nat
  | .done => 0
  | _ => {buf}

section
variable (h : MagOk c m) (hi : i < c.ncpus)
include h hi

/-- The loop of `kmem_cache_free` to its first use of the depot. -/
lemma putLoop_spec (buf : Nat) : ∃ r m', putLoop i buf 2 m = .ok (r, m') ∧
    Moved c i {buf} (r.held buf) m m' ∧ ∀ emp, r = .empty emp → PutReady m' i emp := by
  have hpos := mtMagsize_pos _ h.magtype
  by_cases hr : 0 ≤ (m.cpu i).ccRounds ∧ (m.cpu i).ccRounds < (m.cpu i).ccMagsize
  · obtain ⟨m', hput, hmv⟩ := putLoop_room h hi hr.1 hr.2 buf 1
    exact ⟨.done, m', hput, hmv, fun _ heq => by cases heq⟩
  by_cases hp : (m.cpu i).ccProunds = 0
  · obtain ⟨mp, pmp, n, p, hcc, hmp, hpmp, hn, hpn⟩ := h.two_of_prounds hi (by omega)
    have hr' := hr
    have hp' := hp
    rw [hcc] at hr' hp'
    dsimp only at hr' hp'
    obtain rfl : n = mtMagsize m.cacheMagtype := by omega
    obtain rfl : p = 0 := by omega
    obtain ⟨hreload, hmv⟩ := kmemCpuReload_exchange (a := {buf}) h hi hcc hmp hpmp (.inr rfl) (add_zero _)
    have hself : (update m.cpu i ⟨some pmp, some mp, (0 : Nat), (mtMagsize m.cacheMagtype : Nat), mtMagsize m.cacheMagtype⟩ i) =
      ⟨some pmp, some mp, (0 : Nat), (mtMagsize m.cacheMagtype : Nat), mtMagsize m.cacheMagtype⟩ := update_self ..
    obtain ⟨m', hput, hmv'⟩ := putLoop_room hmv.ok hi (by
      show 0 ≤ (update m.cpu i _ i).ccRounds
      rw [hself]
      exact le_rfl) (by
      show (update m.cpu i _ i).ccRounds < (update m.cpu i _ i).ccMagsize
      rw [hself]
      dsimp only
      omega) buf 0
    refine ⟨.done, m', ?_, hmv.trans hmv', fun _ heq => by cases heq⟩
    rw [putLoop]
    rw [if_neg hr, if_pos hp, hreload, ok_bind]
    exact hput
  rw [putLoop]
  rw [if_neg hr, if_neg hp]
  by_cases hm : (m.cpu i).ccMagsize = 0
  · rw [if_pos hm]
    exact ⟨.slab, m, rfl, .refl h i _, fun _ heq => by cases heq⟩
  have hfull : ((m.cpu i).ccRounds = (m.cpu i).ccMagsize ∨ (m.cpu i).ccRounds = -1) ∧
      ((m.cpu i).ccProunds = (m.cpu i).ccMagsize ∨ (m.cpu i).ccProunds = -1) := by
    have hok := h.cpus i hi
    generalize m.cpu i = cc at hok hr hp hm
    cases hok with
    | disabled => exact absurd rfl hm
    | unloaded => exact ⟨.inr rfl, .inr rfl⟩
    | one mp n h hn => exact ⟨.inl (by dsimp only at hr ⊢; omega), .inr rfl⟩
    | two mp pmp n p h hp' hn hpn => exact ⟨.inl (by dsimp only at hr ⊢; omega), .inl (by dsimp only at hp ⊢; omega)⟩
  rw [if_neg hm, ASSERT_bind hfull]
  rcases alloc_spec h.empty with ⟨hnil, halloc⟩ | ⟨mp, ml', halloc, htype, hok, -⟩
  · rw [halloc]
    exact ⟨.magazine, m, rfl, .refl h i _, fun _ heq => by cases heq⟩
  · rw [halloc]
    refine ⟨.empty mp, _, rfl, .setDepot h hi hm h.full hok rfl, fun emp heq => ?_⟩
    cases heq
    exact ⟨htype, hm, hfull.1, hfull.2⟩

/-- The rest of the turn: the full magazine goes to the depot. -/
lemma putEmpty_spec {emp : Mag} (hr : PutReady m i emp) : ∃ m', putEmpty i emp m = .ok m' ∧ Moved c i 0 0 m m' := by
  have hrounds := hr.rounds
  have hprounds := hr.prounds
  have hcpu := h.cpus i hi
  obtain ⟨cc, hreload, hok, hsize, hheld⟩ := kmemCpuReload_spec hcpu hr.enabled hr.mtType (.inr rfl) (add_zero _)
    (fun n hn => by omega) fun n hn => by omega
  obtain ⟨full, hfree, hfull, hfull'⟩ := freeOpt_spec h.full hcpu.mtType.2
  rw [putEmpty, hfree, ok_bind]
  rw [Nat.cast_zero] at hreload
  rw [hreload, ok_bind]
  refine ⟨_, rfl, .intro h hi hok hsize hfull h.empty ?_ fun h0 => absurd h0 hr.enabled⟩
  rw [Nat.cast_zero, rounds_zero, Multiset.coe_nil, zero_add, hcpu.magsize hr.enabled] at hheld
  rw [hfull', ← add_assoc cc.held, hheld]

/-- A new magazine goes to the depot only where its size is still the cache's. -/
lemma magazineInstall_spec (hmt : mt < kmemMagtype.length) (mp : Mag) (hmp : mp.mtType = mt) :
    ∃ m', magazineInstall m i mt mp = .ok m' ∧ Moved c i a a m m' := by
  unfold magazineInstall
  by_cases hsize : (m.cpu i).ccMagsize = mtMagsize mt
  · rw [if_neg (not_not_intro hsize)]
    have hpos := mtMagsize_pos mt hmt
    have heq : mtMagsize mt = mtMagsize m.cacheMagtype := hsize.symm.trans ((h.cpus i hi).magsize (by omega))
    have hcur : mp.mtType = m.cacheMagtype := hmp.trans (mtMagsize_inj mt hmt _ h.magtype heq)
    obtain ⟨empty, hfree, hempty, -⟩ := free_spec h.empty hcur
    rw [hfree, ok_bind]
    exact ⟨_, rfl, .setDepot h hi (by omega) h.full hempty rfl⟩
  · rw [if_pos hsize]
    exact ⟨m, rfl, .refl h i a⟩

lemma cpuPurge_spec : ∃ bufs m', cpuPurge m i = .ok (bufs, m') ∧ MagOk c m' ∧
    (bufs : Multiset Nat) + m'.held c = m.held c ∧ (m'.cpu i).ccMagsize = 0 ∧ (∀ j, j ≠ i → m'.cpu j = m.cpu j) ∧
    m'.cacheMagtype = m.cacheMagtype := by
  have htype := (h.cpus i hi).mtType
  have hother : ∀ j, j ≠ i → update m.cpu i ⟨none, none, -1, -1, 0⟩ j = m.cpu j := fun j hj => update_of_ne hj _ _
  have hself : update m.cpu i ⟨none, none, -1, -1, 0⟩ i = ⟨none, none, -1, -1, 0⟩ := update_self ..
  refine ⟨rounds (m.cpu i).ccLoaded (m.cpu i).ccRounds ++ rounds (m.cpu i).ccPloaded (m.cpu i).ccProunds,
    m.setCpu i ⟨none, none, -1, -1, 0⟩, ?_, ⟨h.magtype, fun j hj => ?_, h.full, h.empty⟩, ?_, ?_, hother, rfl⟩
  · rw [cpuPurge, ASSERT_bind htype.1, ASSERT_bind htype.2]
  · show CpuOk _ (update m.cpu i _ j)
    rcases eq_or_ne j i with rfl | hne
    · rw [hself]
      exact .disabled
    · rw [hother j hne]
      exact h.cpus j hj
  · rw [← zero_add (m.held c)]
    refine held_frame hi hother ?_
    show _ + ((update m.cpu i _ i).held + m.cacheFull.held) = _
    rw [hself, ← add_assoc, ← Multiset.coe_add, zero_add]
    simp [CpuCache.held, rounds_none]
  · show (update m.cpu i _ i).ccMagsize = 0
    rw [hself]

end

end Unleashed.Kernel.Kmem
