import Unleashed.Lib.Fault

/-!
# Draining a queue through a callback that may fail

`drain f l arg` hands the items of `l` to `f` in order. An item on which `f` returns 0 is gone; one on which it fails
stays, with all after it. `SameRun` compares a program with it.
-/

namespace Unleashed.Lib

variable {α σ : Type}

/-- The items left, the state of the callback and its error. -/
def drain (f : σ → α → Except Fault (σ × Nat)) : List α → σ → Except Fault (List α × σ × Nat)
  | [], arg => .ok ([], arg, 0)
  | a :: l, arg => do
    let (arg, error) ← f arg a
    if error = 0 then drain f l arg else .ok (a :: l, arg, error)

/-- Runs on a structure and on a list fail alike, or end alike with `P` between them. -/
inductive SameRun {S ε : Type} (P : S → List α → ε → Prop) :
    Except Fault (S × σ × ε) → Except Fault (List α × σ × ε) → Prop
  | fault (f : Fault) : SameRun P (.error f) (.error f)
  | done {s : S} {rest : List α} (arg : σ) {error : ε} (h : P s rest error) :
      SameRun P (.ok (s, arg, error)) (.ok (rest, arg, error))

lemma SameRun.mono {S ε : Type} {P Q : S → List α → ε → Prop} {x : Except Fault (S × σ × ε)}
    {y : Except Fault (List α × σ × ε)} (h : SameRun P x y) (hPQ : ∀ s rest error, P s rest error → Q s rest error) :
    SameRun Q x y := by
  cases h with
  | fault f => exact .fault f
  | done arg h => exact .done arg (hPQ _ _ _ h)

lemma drain_append (f : σ → α → Except Fault (σ × Nat)) (l l' : List α) (arg : σ) : drain f (l ++ l') arg = (do
      let (rest, arg, error) ← drain f l arg
      if error = 0 then drain f l' arg else .ok (rest ++ l', arg, error)) := by
  induction l generalizing arg with
  | nil => rfl
  | cons a l ih =>
    simp only [List.cons_append, drain]
    cases f arg a with
    | error e => rfl
    | ok p =>
      obtain ⟨arg, error⟩ := p
      simp only [ok_bind]
      split
      · exact ih arg
      next h => simp [ok_bind, h]

variable {f : σ → α → Except Fault (σ × Nat)} {l rest : List α} {arg arg' : σ} {error : Nat}

lemma drain_suffix (h : drain f l arg = .ok (rest, arg', error)) : rest <:+ l := by
  induction l generalizing arg with
  | nil => cases h; exact List.suffix_rfl
  | cons a l ih =>
    obtain ⟨⟨arg1, error1⟩, -, h⟩ := bind_returns.1 h
    dsimp only at h
    split at h
    · exact (ih h).trans (List.suffix_cons a l)
    · cases h; exact List.suffix_rfl

/-- `f`, with a record of the items on which it returned 0. -/
def recorded (f : σ → α → Except Fault (σ × Nat)) (arg : σ × List α) (a : α) : Except Fault ((σ × List α) × Nat) := do
  let (arg', error) ← f arg.1 a
  .ok ((arg', if error = 0 then arg.2 ++ [a] else arg.2), error)

/-- The items recorded and the items left make up the list. -/
lemma drain_recorded {done done' : List α}
    (h : drain (recorded f) l (arg, done) = .ok (rest, (arg', done'), error)) : done' ++ rest = done ++ l := by
  induction l generalizing arg done with
  | nil => cases h; rfl
  | cons a l ih =>
    obtain ⟨⟨arg1, error1⟩, hf, h⟩ := bind_returns.1 h
    obtain ⟨⟨arg2, error2⟩, -, hf⟩ := bind_returns.1 hf
    obtain ⟨rfl, rfl⟩ := Prod.mk.inj (Except.ok.inj hf)
    dsimp only at h
    split at h
    · rw [ih h, List.append_assoc]
      rfl
    · cases h; rfl

end Unleashed.Lib
