import Mathlib.Tactic

/-!
# The leaves that a fat ZAP update holds

`fzap_add_cd` and `fzap_update` as they lock and release leaves and the directory. What the rest of the ZAP answers is
given; a leaf that is used while it is not held ends the run.
-/

namespace Unleashed.Zfs.Zap

/-- A `zap_leaf_t`, by its address. -/
abbrev Leaf := Nat

/-- `zn_zap`: `NULL`, a directory that is locked, or one that is not. -/
inductive Dir
  | null
  | locked
  | unlocked
deriving DecidableEq

/-- The leaves that the call has locked and held, and the directory. -/
structure Holds where
  held : List Leaf
  dir : Dir

/-- What `zap_lockdir` answers. An error after the header block was read sets `zn_zap` to `NULL`. -/
structure Lockdir where
  err : Nat
  read : Bool

/-- What `zap_expand_leaf` meets: `full` is a prefix of `zt_shift` bits, `leaf` what is found again, `split` that its
prefix has changed. -/
structure ExpandEnv where
  (upgraded full : Bool)
  lockdir : Lockdir
  (growErr derefErr : Nat)
  leaf : Leaf
  split : Bool
  idxErr : Nat
  newLeaf : Leaf
  sibling : Bool

/-- What `zap_put_leaf_maybe_grow_ptrtbl` meets. -/
structure TailEnv where
  (grows upgraded : Bool)
  lockdir : Lockdir

/-- The answers of one round after `retry`. -/
structure RoundEnv where
  (lookup create update : Nat)
  expand : ExpandEnv

structure CallEnv where
  (checkErr derefErr : Nat)
  leaf : Leaf
  rounds : List RoundEnv
  tail : TailEnv

@[simp] def touch (l : Leaf) (s : Holds) : Option Unit := if l ∈ s.held then some () else none

@[simp] def hold (l : Leaf) (s : Holds) : Holds := { s with held := l :: s.held }

@[simp] def zapPutLeaf (l : Leaf) (s : Holds) : Option Holds :=
  if l ∈ s.held then some { s with held := s.held.erase l } else none

/-- `zap_unlockdir`, and `zap_lockdir` into `zn_zap`. -/
@[simp] def relock (answer : Lockdir) (s : Holds) : Holds :=
  { s with dir := if answer.err = 0 then .locked else if answer.read then .null else .unlocked }

/-- The second half of `zap_expand_leaf`; on an error the caller keeps `lp`. -/
def expandInPlace (env : ExpandEnv) (l lp : Leaf) (s : Holds) : Option (Nat × Leaf × Holds) :=
  if env.idxErr ≠ 0 then some (env.idxErr, lp, s)
  else do
    touch l (hold env.newLeaf s)
    if env.sibling then (zapPutLeaf l (hold env.newLeaf s)).map fun s => (0, env.newLeaf, s)
    else (zapPutLeaf env.newLeaf (hold env.newLeaf s)).map fun s => (0, l, s)

def zapExpandLeaf (env : ExpandEnv) (l : Leaf) (s : Holds) : Option (Nat × Leaf × Holds) := do
  touch l s
  if env.upgraded = false ∨ env.full = true then
    let s := relock env.lockdir (← zapPutLeaf l s)
    if env.lockdir.err ≠ 0 then some (env.lockdir.err, l, s)
    else if env.growErr ≠ 0 then some (env.growErr, l, s)
    else if env.derefErr ≠ 0 then some (env.derefErr, l, s)
    else if env.split then some (0, env.leaf, hold env.leaf s)
    else expandInPlace env env.leaf l (hold env.leaf s)
  else expandInPlace env l l s

def zapPutLeafMaybeGrowPtrtbl (env : TailEnv) (l : Leaf) (s : Holds) : Option Holds := do
  touch l s
  let s ← zapPutLeaf l s
  if env.grows = true ∧ env.upgraded = false then some (relock env.lockdir s) else some s

/-- The common exit. -/
def fzapOut (env : TailEnv) (err : Nat) (l : Leaf) (s : Holds) : Option (Option (Nat × Holds)) :=
  if s.dir = .null then some (some (err, s)) else (zapPutLeafMaybeGrowPtrtbl env l s).map fun s => some (err, s)

/-- The rounds of a call. `round` is the error of one, or none for `EAGAIN`. -/
def fzapRounds (round : RoundEnv → Option Nat) (env : TailEnv) :
    Leaf → List RoundEnv → Holds → Option (Option (Nat × Holds))
  | _, [], _ => some none
  | l, r :: rs, s => do
    touch l s
    match round r with
    | some err => fzapOut env err l s
    | none =>
      let x ← zapExpandLeaf r.expand l s
      if x.1 = 0 then fzapRounds round env x.2.1 rs x.2.2 else fzapOut env x.1 x.2.1 x.2.2

def ENOENT : Nat := 2
def EAGAIN : Nat := 11
def EEXIST : Nat := 17

def addRound (r : RoundEnv) : Option Nat :=
  if r.lookup = 0 then some EEXIST else if r.lookup ≠ ENOENT then some r.lookup
  else if r.create = EAGAIN then none else some r.create

def updateRound (r : RoundEnv) : Option Nat :=
  if (if r.lookup = ENOENT then r.create else r.update) = EAGAIN then none
  else some (if r.lookup = ENOENT then r.create else r.update)

def fzapCall (round : RoundEnv → Option Nat) (env : CallEnv) (s : Holds) : Option (Option (Nat × Holds)) :=
  if env.derefErr ≠ 0 then some (some (env.derefErr, s)) else fzapRounds round env.tail env.leaf env.rounds (hold env.leaf s)

def fzapAddCd (env : CallEnv) (s : Holds) : Option (Option (Nat × Holds)) := fzapCall addRound env s

def fzapUpdate (env : CallEnv) (s : Holds) : Option (Option (Nat × Holds)) :=
  if env.checkErr ≠ 0 then some (some (env.checkErr, s)) else fzapCall updateRound env s

/-- Only held leaves are used, and a call that has returned holds none. -/
def Balanced (r : Option (Option (Nat × Holds))) : Prop :=
  ∃ o, r = some o ∧ ∀ err s, o = some (err, s) → s.held = [] ∧ s.dir ≠ .unlocked

/-! ## When the holds are balanced -/

/-- Once the leaf is given up, an error comes with `NULL` or the leaf held again. -/
def ExpandEnv.Kept (env : ExpandEnv) (l : Leaf) : Prop :=
  env.upgraded = false ∨ env.full = true → env.lockdir.err ≠ 0 ∧ env.lockdir.read = true ∨
    env.lockdir.err = 0 ∧ env.growErr = 0 ∧ env.derefErr = 0 ∧ (env.split = true ∨ env.idxErr = 0 ∨ env.leaf = l)

/-- The header block can be read when the directory is locked again. -/
def TailEnv.Kept (env : TailEnv) : Prop :=
  env.grows = true → env.upgraded = false → env.lockdir.err = 0 ∨ env.lockdir.read = true

/-- This for each call that the rounds make. -/
def RoundsKept (round : RoundEnv → Option Nat) (env : TailEnv) : Leaf → List RoundEnv → Prop
  | _, [] => True
  | l, r :: rs => if (round r).isSome then env.Kept else r.expand.Kept l ∧
      ∀ err lp s, zapExpandLeaf r.expand l ⟨[l], .locked⟩ = some (err, lp, s) →
        if err = 0 then RoundsKept round env lp rs else s.dir = .null ∨ env.Kept

def CallEnv.Kept (round : RoundEnv → Option Nat) (env : CallEnv) : Prop :=
  env.derefErr = 0 → RoundsKept round env.tail env.leaf env.rounds

section
variable {env : ExpandEnv} {tail : TailEnv} {l lp : Leaf} {round : RoundEnv → Option Nat} {err : Nat}

lemma expandInPlace_spec (env : ExpandEnv) (l lp : Leaf) :
    (env.idxErr = 0 → ∃ l', expandInPlace env l lp ⟨[l], .locked⟩ = some (0, l', ⟨[l'], .locked⟩)) ∧
    (env.idxErr ≠ 0 → expandInPlace env l lp ⟨[l], .locked⟩ = some (env.idxErr, lp, ⟨[l], .locked⟩)) := by
  refine ⟨fun h => ?_, fun h => if_pos h⟩
  unfold expandInPlace
  rw [if_neg (not_not.2 h)]
  by_cases hs : env.sibling = true
  · refine ⟨env.newLeaf, ?_⟩
    by_cases hl : env.newLeaf = l <;> simp [hs, hl]
  · exact ⟨l, by simp [hs]⟩

/-- **`zap_expand_leaf`.** The caller's leaf is held, or there is no directory; or neither. -/
theorem zapExpandLeaf_spec (env : ExpandEnv) (l : Leaf) : ∃ err lp s, zapExpandLeaf env l ⟨[l], .locked⟩ = some (err, lp, s) ∧
    (env.Kept l → s = ⟨[lp], .locked⟩ ∨ err ≠ 0 ∧ s = ⟨[], .null⟩) ∧
    (¬ env.Kept l → err ≠ 0 ∧ s.dir ≠ .null ∧ lp ∉ s.held) := by
  obtain ⟨hok, hidx⟩ := expandInPlace_spec env l l
  obtain ⟨hok', hidx'⟩ := expandInPlace_spec env env.leaf l
  unfold zapExpandLeaf ExpandEnv.Kept
  by_cases hdrop : env.upgraded = false ∨ env.full = true
  swap
  · by_cases hi : env.idxErr = 0
    · obtain ⟨l', heq⟩ := hok hi
      exact ⟨_, _, _, by simpa [hdrop] using heq, by simp, by simp [hdrop]⟩
    · exact ⟨_, _, _, by simpa [hdrop] using hidx hi, by simp, by simp [hdrop]⟩
  by_cases hlock : env.lockdir.err = 0
  swap
  · refine ⟨env.lockdir.err, l, relock env.lockdir ⟨[], .locked⟩, by simp [hdrop, hlock], ?_⟩
    cases hr : env.lockdir.read <;> simp [hdrop, hlock, hr]
  by_cases hgrow : env.growErr = 0
  swap
  · exact ⟨env.growErr, l, ⟨[], .locked⟩, by simp [hdrop, hlock, hgrow], by simp [hdrop, hlock, hgrow], by simp [hgrow]⟩
  by_cases hderef : env.derefErr = 0
  swap
  · exact ⟨env.derefErr, l, ⟨[], .locked⟩, by simp [hdrop, hlock, hgrow, hderef], by simp [hdrop, hlock, hderef], by simp [hderef]⟩
  by_cases hsplit : env.split = true
  · exact ⟨0, env.leaf, ⟨[env.leaf], .locked⟩, by simp [hdrop, hlock, hgrow, hderef, hsplit], by simp,
      by simp [hlock, hgrow, hderef, hsplit]⟩
  by_cases hi : env.idxErr = 0
  · obtain ⟨l', heq⟩ := hok' hi
    exact ⟨_, _, _, by simpa [hdrop, hlock, hgrow, hderef, hsplit] using heq, by simp, by simp [hlock, hgrow, hderef, hi]⟩
  · refine ⟨_, _, _, by simpa [hdrop, hlock, hgrow, hderef, hsplit] using hidx' hi, ?_, ?_⟩
    · intro hkept
      have hleaf : env.leaf = l := by simpa [hlock, hgrow, hderef, hsplit, hi] using hkept hdrop
      exact .inl (by rw [hleaf])
    · intro hkept
      have hleaf : l ≠ env.leaf := fun heq => hkept fun _ => .inr ⟨hlock, hgrow, hderef, .inr (.inr heq.symm)⟩
      exact ⟨hi, by simp, by simpa using hleaf⟩

lemma fzapOut_balanced (err : Nat) : Balanced (fzapOut tail err l ⟨[l], .locked⟩) ↔ tail.Kept := by
  have hout : fzapOut tail err l ⟨[l], .locked⟩ =
      some (some (err, if tail.grows = true ∧ tail.upgraded = false then relock tail.lockdir ⟨[], .locked⟩ else ⟨[], .locked⟩)) := by
    by_cases hg : tail.grows = true ∧ tail.upgraded = false <;>
      simp [fzapOut, zapPutLeafMaybeGrowPtrtbl, hg]
  rw [hout]
  unfold Balanced TailEnv.Kept
  by_cases hg : tail.grows = true ∧ tail.upgraded = false
  · cases hr : tail.lockdir.read <;> by_cases he : tail.lockdir.err = 0 <;> simp [hg, hr, he]
  · rw [if_neg hg]
    simp only [Option.some.injEq, Prod.mk.injEq, exists_eq_left', and_imp]
    exact ⟨fun _ h1 h2 => absurd ⟨h1, h2⟩ hg, fun _ _ s _ hs => hs ▸ ⟨rfl, by simp⟩⟩

/-- **Run.** -/
theorem fzapRounds_balanced (rounds : List RoundEnv) : ∀ l, Balanced (fzapRounds round tail l rounds ⟨[l], .locked⟩) ↔
    RoundsKept round tail l rounds := by
  induction rounds with
  | nil => exact fun l => iff_of_true ⟨none, rfl, by simp⟩ trivial
  | cons r rs ih =>
    intro l
    obtain ⟨err, lp, s, heq, hkept, hlost⟩ := zapExpandLeaf_spec r.expand l
    have htouch : touch l ⟨[l], .locked⟩ = some () := if_pos List.mem_cons_self
    unfold fzapRounds RoundsKept
    rw [htouch]
    cases hround : round r with
    | some e => simpa using fzapOut_balanced e
    | none =>
      simp only [heq, Option.bind_eq_bind, Option.bind_some, Option.isSome_none, Bool.false_eq_true, if_false, Option.some.injEq,
        Prod.mk.injEq, and_imp]
      by_cases hk : r.expand.Kept l
      · rcases hkept hk with rfl | ⟨herr, rfl⟩
        · by_cases h0 : err = 0
          · simp [h0, hk, ih lp]
          · simp [h0, hk, fzapOut_balanced]
        · refine iff_of_true ⟨some (err, ⟨[], .null⟩), by simp [herr, fzapOut], by simp⟩ ⟨hk, ?_⟩
          rintro e l' s' rfl rfl rfl
          simp [herr]
      · obtain ⟨herr, hdir, hout⟩ := hlost hk
        refine iff_of_false ?_ fun h => hk h.1
        simp [herr, fzapOut, hdir, zapPutLeafMaybeGrowPtrtbl, hout, Balanced]

lemma fzapCall_balanced (round : RoundEnv → Option Nat) (env : CallEnv) :
    Balanced (fzapCall round env ⟨[], .locked⟩) ↔ env.Kept round := by
  unfold fzapCall CallEnv.Kept
  by_cases h : env.derefErr = 0
  · rw [if_neg (not_not.2 h)]
    exact (fzapRounds_balanced env.rounds env.leaf).trans ⟨fun hk _ => hk, fun hk => hk h⟩
  · rw [if_pos h]
    exact iff_of_true ⟨_, rfl, by rintro e s ⟨⟩; simp⟩ fun h0 => absurd h0 h

end

/-- **Leaf holds.** An update releases what it holds exactly once, and leaves `zn_zap` `NULL` or locked, exactly if no
`zap_expand_leaf` fails with the leaf given up and a directory in `zn_zap`. -/
theorem leaf_holds_balanced_iff (env : CallEnv) : (Balanced (fzapAddCd env ⟨[], .locked⟩) ↔ env.Kept addRound) ∧
    (Balanced (fzapUpdate env ⟨[], .locked⟩) ↔ (env.checkErr = 0 → env.Kept updateRound)) := by
  refine ⟨fzapCall_balanced addRound env, ?_⟩
  unfold fzapUpdate
  by_cases h : env.checkErr = 0
  · rw [if_neg (not_not.2 h)]
    exact (fzapCall_balanced updateRound env).trans ⟨fun hk _ => hk, fun hk => hk h⟩
  · rw [if_pos h]
    exact iff_of_true ⟨_, rfl, by rintro e s ⟨⟩; simp⟩ fun h0 => absurd h0 h

/-- A leaf without room whose prefix has all bits of the table, and a table that cannot grow. -/
def tableFull : CallEnv :=
  ⟨0, 0, 7, [⟨ENOENT, EAGAIN, 0, ⟨true, true, ⟨0, true⟩, 28, 0, 7, false, 0, 8, false⟩⟩], ⟨false, true, ⟨0, true⟩⟩⟩

/-- The leaf has been released when the exit uses it. -/
theorem released_leaf_used : fzapAddCd tableFull ⟨[], .locked⟩ = none ∧ ¬ Balanced (fzapAddCd tableFull ⟨[], .locked⟩) :=
  ⟨rfl, fun ⟨_, heq, _⟩ => by cases heq⟩

end Unleashed.Zfs.Zap
