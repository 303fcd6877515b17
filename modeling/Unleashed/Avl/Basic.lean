import Unleashed.Lib.Fault

/-!
# AVL trees in memory (`avl.c`)

Nodes are at addresses and hold the addresses of their children and of their parent. A freed node is not in memory,
and touching it is a fault.
-/

namespace Unleashed.Avl

open Lib

local instance childIndex : NeZero 2 := ⟨by decide⟩

/-- `struct avl_node` of 64-bit machines; addresses are numbers and 0 is `NULL`. -/
structure AvlNode where
  avlChild : Fin 2 → Nat
  avlPcb : Nat

/-- `x & ~(2^bits - 1)`. -/
def clearLow (x bits : Nat) : Nat := x >>> bits <<< bits

def avlXparent (n : AvlNode) : Nat := clearLow n.avlPcb 3

def avlXchild (n : AvlNode) : Nat := (n.avlPcb >>> 2) &&& 1

def avlXbalance (n : AvlNode) : Int := ((n.avlPcb &&& 3 : Nat) : Int) - 1

/-- `struct avl_tree`, as far as the walk reads it. -/
structure AvlTree where
  (avlRoot avlOffset avlNumnodes : Nat)

def avlNode2data (n o : Nat) : Nat := n - o

def avlData2node (d o : Nat) : Nat := d + o

abbrev Memory := Nat → Option AvlNode

def load (mem : Memory) (p : Nat) : Except Fault AvlNode :=
  match mem p with
  | some n => .ok n
  | none => .error .bounds

def store (mem : Memory) (p : Nat) (n : AvlNode) : Memory := Function.update mem p (some n)

/-- What the owner of an object does with it once it is out of the tree. -/
def freeNode (mem : Memory) (p : Nat) : Except Fault Memory := do
  let _ ← load mem p
  .ok (Function.update mem p none)

/-- The loop of `avl_first`. -/
def avlFirstLoop (mem : Memory) : Nat → Nat → Nat → Except Fault Nat
  | 0, _, _ => .error .fuel
  | fuel + 1, node, prev =>
    if node = 0 then .ok prev
    else do
      let n ← load mem node
      avlFirstLoop mem fuel (n.avlChild 0) node

def avlFirst (mem : Memory) (tree : AvlTree) (fuel : Nat) : Except Fault Nat := do
  let prev ← avlFirstLoop mem fuel tree.avlRoot 0
  .ok (if prev ≠ 0 then avlNode2data prev tree.avlOffset else 0)

/-! ## Teardown -/

def childbit : Nat := 1

/-- To the leftmost descendant; the parent is left behind with the node. -/
def leftmostLoop (mem : Memory) : Nat → Nat → Nat → Except Fault (Nat × Nat)
  | 0, _, _ => .error .fuel
  | fuel + 1, parent, node => do
    let n ← load mem node
    if n.avlChild 0 ≠ 0 then leftmostLoop mem fuel node (n.avlChild 0)
    else .ok (parent, node)

/-- From the label `done`: the object to return and the new cookie. -/
def destroyDone (mem : Memory) (tree : AvlTree) (parent node : Nat) : Except Fault (Nat × Nat) :=
  if parent = 0 then do
    ASSERT (node = tree.avlRoot)
    .ok (avlNode2data node tree.avlOffset, childbit)
  else do
    let n ← load mem node
    .ok (avlNode2data node tree.avlOffset, parent ||| avlXchild n)

/-- From the label `check_right_side`. -/
def checkRightSide (mem : Memory) (tree : AvlTree) (parent node : Nat) : Except Fault (Nat × Nat) := do
  let n ← load mem node
  if n.avlChild 1 ≠ 0 then do
    ASSERT (avlXbalance n = 1)
    let right ← load mem (n.avlChild 1)
    ASSERT (right.avlChild 0 = 0 ∧ right.avlChild 1 = 0)
    destroyDone mem tree node (n.avlChild 1)
  else do
    ASSERT (avlXbalance n ≤ 0)
    destroyDone mem tree parent node

/-- The nodes, the tree and the cookie between two calls. -/
structure Teardown where
  mem : Memory
  tree : AvlTree
  cookie : Nat

/-- The first call. -/
def destroyFirst (fuel : Nat) (s : Teardown) : Except Fault (Nat × Teardown) := do
  let first ← avlFirst s.mem s.tree fuel
  if first = 0 then .ok (0, { s with cookie := childbit })
  else do
    let node := avlData2node first s.tree.avlOffset
    let n ← load s.mem node
    let r ← checkRightSide s.mem s.tree (avlXparent n) node
    .ok (r.1, { s with cookie := r.2 })

/-- A call that returns to `parent`, whose child `child` was visited last. -/
def destroyNext (fuel : Nat) (s : Teardown) (parent : Nat) (child : Fin 2) : Except Fault (Nat × Teardown) := do
  let n ← load s.mem parent
  let n : AvlNode := { n with avlChild := Function.update n.avlChild child 0 }
  let mem := store s.mem parent n
  ASSERT (s.tree.avlNumnodes > 1)
  let tree := { s.tree with avlNumnodes := s.tree.avlNumnodes - 1 }
  if child = 1 ∨ n.avlChild 1 = 0 then do
    let r ← destroyDone mem tree (avlXparent n) parent
    .ok (r.1, ⟨mem, tree, r.2⟩)
  else do
    let place ← leftmostLoop mem fuel parent (n.avlChild 1)
    let r ← checkRightSide mem tree place.1 place.2
    .ok (r.1, ⟨mem, tree, r.2⟩)

/-- `avl_destroy_nodes`; it returns 0 at the end. `fuel` bounds the way down. -/
def avlDestroyNodes (fuel : Nat) (s : Teardown) : Except Fault (Nat × Teardown) :=
  if s.cookie = 0 then destroyFirst fuel s
  else
    let parent := clearLow s.cookie 1
    if parent = 0 then
      if s.tree.avlRoot ≠ 0 then do
        ASSERT (s.tree.avlNumnodes = 1)
        .ok (0, { s with tree := { s.tree with avlRoot := 0, avlNumnodes := 0 } })
      else .ok (0, s)
    else destroyNext fuel s parent (Fin.ofNat 2 (s.cookie &&& childbit))

/-- The loop of a caller: every object is freed as it is returned. -/
def destroyAll (fuel : Nat) : Nat → Teardown → Except Fault (List Nat × Teardown)
  | 0, _ => .error .fuel
  | calls + 1, s => do
    let r ← avlDestroyNodes fuel s
    if r.1 = 0 then .ok ([], r.2)
    else do
      let mem ← freeNode r.2.mem (avlData2node r.1 r.2.tree.avlOffset)
      let rest ← destroyAll fuel calls { r.2 with mem }
      .ok (r.1 :: rest.1, rest.2)

end Unleashed.Avl
