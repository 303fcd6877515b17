import Mathlib

/-!
# Post-order traversal

The nodes of a binary tree with every node after its children, and the state of a traversal
that visits them in that order: the ancestors of the place it has reached, innermost first,
each with what is left to do there.
-/

namespace Unleashed.Lib

open List

variable {α : Type*}

def postorder : BinaryTree α → List α
  | .nil => []
  | .node a l r => postorder l ++ (postorder r ++ [a])

/-- An ancestor in a traversal: below its left child its right subtree is still to come. -/
inductive Frame (α : Type*)
  | left (a : α) (r : BinaryTree α)
  | right (a : α)

def Frame.node : Frame α → α
  | .left a _ => a
  | .right a => a

/-- What a traversal visits once it has left the subtree it is in. -/
def pending : List (Frame α) → List α
  | [] => []
  | .left a r :: fs => postorder r ++ a :: pending fs
  | .right a :: fs => a :: pending fs

/-- `b` is a child of `a`. -/
inductive ChildOf (b a : α) : BinaryTree α → Prop
  | left (l' r' r : BinaryTree α) : ChildOf b a (.node a (.node b l' r') r)
  | right (l' r' l : BinaryTree α) : ChildOf b a (.node a l (.node b l' r'))
  | inLeft (c : α) (l r : BinaryTree α) : ChildOf b a l → ChildOf b a (.node c l r)
  | inRight (c : α) (l r : BinaryTree α) : ChildOf b a r → ChildOf b a (.node c l r)

lemma length_postorder (t : BinaryTree α) : (postorder t).length = t.numNodes := by
  induction t with
  | nil => rfl
  | node a l r hl hr =>
    rw [postorder, length_append, length_append, hl, hr, BinaryTree.numNodes, length_singleton, Nat.add_assoc]

lemma mem_postorder_root (a : α) (l r : BinaryTree α) : a ∈ postorder (.node a l r) := by
  simp [postorder]

/-- Children stand before their parents. -/
lemma ChildOf.before {a b : α} {t : BinaryTree α} (h : ChildOf b a t) : [b, a].Sublist (postorder t) := by
  induction h with
  | left l' r' r =>
    have hb := singleton_sublist.2 (mem_postorder_root b l' r')
    exact hb.append (sublist_append_right (postorder r) [a])
  | right l' r' l =>
    have hb := singleton_sublist.2 (mem_postorder_root b l' r')
    exact (hb.append (List.Sublist.refl [a])).trans (sublist_append_right _ _)
  | inLeft c l r _ ih => exact ih.trans (sublist_append_left _ _)
  | inRight c l r _ ih => exact (ih.trans (sublist_append_left _ _)).trans (sublist_append_right _ _)

/-- The traversal goes down to the left before anything else. -/
lemma postorder_left (a : α) (l r : BinaryTree α) (fs : List (Frame α)) :
    postorder (.node a l r) ++ pending fs = postorder l ++ pending (.left a r :: fs) := by
  simp [postorder, pending]

/-- Without a left subtree it goes down to the right. -/
lemma postorder_right (a : α) (r : BinaryTree α) (fs : List (Frame α)) :
    postorder (.node a .nil r) ++ pending fs = postorder r ++ pending (.right a :: fs) := by
  simp [postorder, pending]

end Unleashed.Lib
