import Unleashed.Lib.Fault

/-!
# Blocks of cells

A block that is read by position, and a block that is filled from its start. A read after the
last cell and a write after the last cell stop with `Fault.bounds`.
-/

namespace Unleashed.Lib

variable {α : Type}

/-- The `len` cells that can be read. -/
structure Block (α : Type) where
  len : Nat
  cell : Nat → α

/-- The cell at a position. -/
def Block.read (b : Block α) (i : Nat) : Except Fault α :=
  if i < b.len then .ok (b.cell i) else .error .bounds

/-- The first `n` cells. -/
def Block.take (b : Block α) (n : Nat) : List α := (List.range n).map b.cell

def Block.toList (b : Block α) : List α := b.take b.len

/-- The cells of a list. -/
def Block.ofList [Inhabited α] (l : List α) : Block α := ⟨l.length, fun i => l.getD i default⟩

/-- One more cell of a block of `limit` cells that is filled up to `out`. -/
def push (limit : Nat) (out : List α) (a : α) : Except Fault (List α) :=
  if out.length < limit then .ok (out ++ [a]) else .error .bounds

lemma Block.read_eq {b : Block α} {i : Nat} (h : i < b.len) : b.read i = .ok (b.cell i) := if_pos h

@[simp] lemma Block.length_take (b : Block α) (n : Nat) : (b.take n).length = n := by
  rw [take, List.length_map, List.length_range]

lemma Block.take_succ (b : Block α) (n : Nat) : b.take (n + 1) = b.take n ++ [b.cell n] := by
  rw [take, List.range_succ, List.map_append]
  rfl

lemma Block.getElem?_take (b : Block α) {n i : Nat} (h : i < n) : (b.take n)[i]? = some (b.cell i) := by
  rw [take, List.getElem?_map, List.getElem?_range h]
  rfl

lemma Block.read_ofList [Inhabited α] {l : List α} {i : Nat} {a : α} (h : l[i]? = some a) :
    (Block.ofList l).read i = .ok a := by
  have hlt : i < l.length := (List.getElem?_eq_some_iff.1 h).1
  have hcell : (Block.ofList l).cell i = a := by
    show l.getD i default = a
    rw [List.getD_eq_getElem?_getD, h, Option.getD_some]
  rw [Block.read_eq (b := Block.ofList l) hlt, hcell]

lemma push_eq {limit : Nat} {out : List α} (h : out.length < limit) (a : α) : push limit out a = .ok (out ++ [a]) := if_pos h

end Unleashed.Lib
