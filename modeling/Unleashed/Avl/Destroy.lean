import Unleashed.Avl.Basic
import Unleashed.Lib.PostOrder

/-!
# Tearing a tree down

`avl_destroy_nodes` walks the tree in post-order with only the parent of the last node and its side to go by. Between
two calls the ancestors of that node and their right subtrees are all that is left: this list of frames carries the
proof.
-/

namespace Unleashed.Avl

open Lib Function List

/-! ## Trees in memory -/

def treeRoot : BinaryTree Nat → Nat
  | .nil => 0
  | .node p _ _ => p

/-- The node at `p` is child `c` of `parent`, with the children `l` and `r`. -/
structure LinkedAt (mem : Memory) (p parent l r : Nat) (n : AvlNode) : Prop where
  loaded : mem p = some n
  parent : avlXparent n = parent
  left : n.avlChild 0 = l
  right : n.avlChild 1 = r

/-- The nodes of `t` are in memory, below `parent` on side `c`. -/
def TreeAt (mem : Memory) : Nat → Nat → BinaryTree Nat → Prop
  | _, _, .nil => True
  | parent, c, .node p l r =>
    (∃ n, LinkedAt mem p parent (treeRoot l) (treeRoot r) n ∧ avlXchild n = c ∧ avlXbalance n = (r.height : Int) - l.height) ∧
      TreeAt mem p 0 l ∧ TreeAt mem p 1 r

/-- Subtrees differ by at most one in height. -/
def Balanced : BinaryTree Nat → Prop
  | .nil => True
  | .node _ l r => (l.height ≤ r.height + 1 ∧ r.height ≤ l.height + 1) ∧ Balanced l ∧ Balanced r

/-- An address for a node: aligned, and inside an object that is not at 0. -/
def NodeAddress (tree : AvlTree) (p : Nat) : Prop := 8 ∣ p ∧ tree.avlOffset < p

/-- A valid AVL tree. Teardown does not depend on the order of the keys. -/
structure ValidAvl (mem : Memory) (tree : AvlTree) (t : BinaryTree Nat) : Prop where
  root : tree.avlRoot = treeRoot t
  numnodes : tree.avlNumnodes = t.numNodes
  linked : ∃ c, TreeAt mem 0 c t
  balanced : Balanced t
  nodup : (postorder t).Nodup
  address : ∀ p ∈ postorder t, NodeAddress tree p

/-! ## The way back to the root -/

/-- The side of the frame on which the walk is. -/
def side : Frame Nat → Nat
  | .left _ _ => 0
  | .right _ => 1

def above : List (Frame Nat) → Nat
  | [] => 0
  | f :: _ => f.node

/-- The root, from a node and its frames. -/
def topOf : Nat → List (Frame Nat) → Nat
  | q, [] => q
  | _, f :: fs => topOf f.node fs

/-- Side `c` is that of the innermost frame. -/
def OnSide (c : Nat) : List (Frame Nat) → Prop
  | [] => True
  | f :: _ => c = side f

/-- The ancestors of `q` are in memory, without what has been torn down. -/
def FramesAt (mem : Memory) : Nat → List (Frame Nat) → Prop
  | _, [] => True
  | q, .left p r :: fs =>
    (∃ n, LinkedAt mem p (above fs) q (treeRoot r) n ∧ OnSide (avlXchild n) fs) ∧ TreeAt mem p 1 r ∧ Balanced r ∧ FramesAt mem p fs
  | q, .right p :: fs => (∃ n, LinkedAt mem p (above fs) 0 q n ∧ OnSide (avlXchild n) fs) ∧ FramesAt mem p fs

/-- The subtree `t` is intact at the place that the frames lead to. -/
structure Intact (mem : Memory) (root : Nat) (t : BinaryTree Nat) (fs : List (Frame Nat)) : Prop where
  linked : ∃ c, OnSide c fs ∧ TreeAt mem (above fs) c t
  balanced : Balanced t
  frames : FramesAt mem (treeRoot t) fs
  top : topOf (treeRoot t) fs = root

/-- The node `x` is returned next: nothing is left below it. -/
structure Reached (mem : Memory) (root x : Nat) (fs : List (Frame Nat)) : Prop where
  linked : ∃ n, mem x = some n ∧ avlXparent n = above fs ∧ OnSide (avlXchild n) fs
  frames : FramesAt mem x fs
  top : topOf x fs = root

/-- The cookie for the frames above the node that was returned. -/
def cookieOf : List (Frame Nat) → Nat
  | [] => childbit
  | f :: _ => f.node + side f

variable {a b p c : Nat} {l r : BinaryTree Nat} {n : AvlNode}

section
variable {mem : Memory} {root : Nat} {fs : List (Frame Nat)} {mem' : Memory}

lemma TreeAt.of_eq {t : BinaryTree Nat} (hsame : ∀ p ∈ postorder t, mem' p = mem p) :
    ∀ {parent c : Nat}, TreeAt mem parent c t → TreeAt mem' parent c t := by
  induction t with
  | nil => exact fun h => h
  | node p l r hl hr =>
    rintro parent c ⟨⟨n, hn, hside⟩, hleft, hright⟩
    have hp := hsame p (mem_postorder_root p l r)
    refine ⟨⟨n, { hn with loaded := hp.trans hn.loaded }, hside⟩, hl (fun q hq => ?_) hleft, hr (fun q hq => ?_) hright⟩
    · exact hsame q (by simp [postorder, hq])
    · exact hsame q (by simp [postorder, hq])

lemma FramesAt.of_eq : ∀ {fs : List (Frame Nat)} {q : Nat}, (∀ p ∈ pending fs, mem' p = mem p) →
    FramesAt mem q fs → FramesAt mem' q fs
  | [], _, _, _ => trivial
  | .left p r :: fs, q, hsame, h => by
    obtain ⟨⟨n, hn, hside⟩, htree, hbal, hrest⟩ := h
    have hp := hsame p (by simp [pending])
    exact ⟨⟨n, { hn with loaded := hp.trans hn.loaded }, hside⟩, htree.of_eq fun x hx => hsame x (by simp [pending, hx]), hbal,
      FramesAt.of_eq (fun x hx => hsame x (by simp [pending, hx])) hrest⟩
  | .right p :: fs, q, hsame, h => by
    obtain ⟨⟨n, hn, hside⟩, hrest⟩ := h
    have hp := hsame p (by simp [pending])
    exact ⟨⟨n, { hn with loaded := hp.trans hn.loaded }, hside⟩, FramesAt.of_eq (fun x hx => hsame x (by simp [pending, hx])) hrest⟩

lemma Intact.goLeft {r' : BinaryTree Nat} (h : Intact mem root (.node a (.node b l r) r') fs) :
    Intact mem root (.node b l r) (.left a r' :: fs) := by
  obtain ⟨⟨c, hc, ⟨n, hn, rfl, _⟩, hleft, hright⟩, ⟨_, hbl, hbr⟩, hframes, htop⟩ := h
  exact ⟨⟨0, rfl, hleft⟩, hbl, ⟨⟨n, hn, hc⟩, hright, hbr, hframes⟩, htop⟩

/-- Down to a right child, from a node with no left one. -/
lemma Intact.goRight (h : Intact mem root (.node a .nil (.node b l r)) fs) :
    Intact mem root (.node b l r) (.right a :: fs) := by
  obtain ⟨⟨c, hc, ⟨n, hn, rfl, _⟩, _, hright⟩, ⟨_, _, hbr⟩, hframes, htop⟩ := h
  exact ⟨⟨1, rfl, hright⟩, hbr, ⟨⟨n, hn, hc⟩, hframes⟩, htop⟩

lemma Intact.reached {x : Nat} (h : Intact mem root (.node x l r) fs) : Reached mem root x fs := by
  obtain ⟨⟨c, hc, ⟨n, hn, rfl, _⟩, _⟩, _, hframes, htop⟩ := h
  exact ⟨⟨n, hn.loaded, hn.parent, hc⟩, hframes, htop⟩

lemma store_self (p : Nat) (n : AvlNode) : store mem p n p = some n := update_self ..

lemma store_of_ne {q : Nat} (n : AvlNode) (h : q ≠ p) : store mem p n q = mem q := update_of_ne h ..

lemma load_ok (h : mem p = some n) : load mem p = .ok n := by
  rw [load, h]

/-- In a balanced tree the sibling of nothing is a leaf. -/
lemma Balanced.leaf (h : Balanced (.node a .nil (.node b l r))) : l = .nil ∧ r = .nil := by
  obtain ⟨⟨_, hheight⟩, _⟩ := h
  cases l with
  | node => simp at hheight
  | nil =>
    cases r with
    | node => simp at hheight
    | nil => exact ⟨rfl, rfl⟩

variable {tree : AvlTree}

lemma cookie_eq (hp : 8 ∣ p) (hc : c < 2) : p ||| c = p + c := by
  obtain ⟨k, rfl⟩ := hp
  have h := Nat.two_pow_add_eq_or_of_lt (i := 1) (show c < 2 ^ 1 from hc) (4 * k)
  rw [show 8 * k = 2 ^ 1 * (4 * k) by omega, h]

lemma side_lt (f : Frame Nat) : side f < 2 := by
  cases f <;> simp [side]

lemma node_mem_pending (f : Frame Nat) (fs : List (Frame Nat)) : f.node ∈ pending (f :: fs) := by
  cases f <;> simp [Frame.node, pending]

lemma destroyDone_ok {x : Nat} (h : Reached mem tree.avlRoot x fs) (haddr : ∀ p ∈ pending fs, NodeAddress tree p) :
    destroyDone mem tree (above fs) x = .ok (avlNode2data x tree.avlOffset, cookieOf fs) := by
  obtain ⟨⟨n, hn, _, hside⟩, _, htop⟩ := h
  cases fs with
  | nil =>
    rw [destroyDone, if_pos (show above [] = 0 from rfl), ASSERT_bind (show x = tree.avlRoot from htop)]
    rfl
  | cons f fs =>
    obtain ⟨hdvd, hpos⟩ := haddr _ (node_mem_pending f fs)
    rw [destroyDone, if_neg (show above (f :: fs) ≠ 0 by rw [above]; omega), load_ok hn, ok_bind, show avlXchild n = side f from hside, above,
      cookie_eq hdvd (side_lt f), cookieOf]

/-- What a call leaves behind: the node it returns, and the frames above. -/
structure Returned (mem : Memory) (tree : AvlTree) (expected : List Nat) (r : Nat × Nat) (x : Nat) (fs : List (Frame Nat)) : Prop where
  order : expected = x :: pending fs
  data : r.1 = avlNode2data x tree.avlOffset
  cookie : r.2 = cookieOf fs
  reached : Reached mem tree.avlRoot x fs

/-- The label `check_right_side`, at a node with no left child. -/
lemma checkRightSide_ok (h : Intact mem tree.avlRoot (.node a .nil r) fs)
    (haddr : ∀ p ∈ postorder (.node a .nil r) ++ pending fs, NodeAddress tree p) :
    ∃ res x fs', checkRightSide mem tree (above fs) a = .ok res ∧
      Returned mem tree (postorder (.node a .nil r) ++ pending fs) res x fs' := by
  obtain ⟨⟨_, _, ⟨n, hn, _, hbalance⟩, _, hright⟩, hbal, _, _⟩ := id h
  rw [postorder_right] at haddr ⊢
  rw [checkRightSide, load_ok hn.loaded, ok_bind, hn.right]
  cases r with
  | nil =>
    have hle : avlXbalance n ≤ 0 := by
      rw [hbalance]
      simp
    rw [treeRoot, if_neg (not_not.2 rfl), ASSERT_bind hle]
    refine ⟨_, a, fs, destroyDone_ok h.reached fun p hp => haddr p ?_, rfl, rfl, rfl, h.reached⟩
    simp [pending, hp]
  | node b l' r' =>
    obtain ⟨rfl, rfl⟩ := hbal.leaf
    obtain ⟨⟨n', hn', _⟩, _⟩ := hright
    have hone : avlXbalance n = 1 := by
      rw [hbalance]
      simp
    have hb : treeRoot (.node b .nil .nil) ≠ 0 := by
      have := (haddr b (by simp [postorder])).2
      rw [treeRoot]
      omega
    rw [if_pos hb, ASSERT_bind hone, treeRoot, load_ok hn'.loaded, ok_bind, ASSERT_bind ⟨hn'.left, hn'.right⟩]
    exact ⟨_, b, _, destroyDone_ok h.goRight.reached fun p hp => haddr p (by simp [hp]), rfl, rfl, rfl, h.goRight.reached⟩

/-- The way down ends at an intact subtree with no left child. -/
lemma leftmostLoop_ok : ∀ {fuel a : Nat} {r : BinaryTree Nat} {fs : List (Frame Nat)}, l.numNodes < fuel →
    Intact mem root (.node a l r) fs → (∀ p ∈ postorder l, p ≠ 0) →
    ∃ a' r' fs', leftmostLoop mem fuel (above fs) a = .ok (above fs', a') ∧ Intact mem root (.node a' .nil r') fs' ∧
      postorder (.node a l r) ++ pending fs = postorder (.node a' .nil r') ++ pending fs' := by
  induction l with
  | nil =>
    intro fuel a r fs hfuel h _
    obtain ⟨k, rfl⟩ := Nat.exists_eq_add_of_lt hfuel
    obtain ⟨⟨_, _, ⟨n, hn, _⟩, _⟩, _⟩ := id h
    refine ⟨a, r, fs, ?_, h, rfl⟩
    rw [leftmostLoop, load_ok hn.loaded, ok_bind, hn.left, treeRoot, if_neg (not_not.2 rfl)]
  | node b l' r' ihl _ =>
    intro fuel a r fs hfuel h hne
    obtain ⟨k, rfl⟩ := Nat.exists_eq_add_of_lt hfuel
    obtain ⟨⟨_, _, ⟨n, hn, _⟩, _⟩, _⟩ := id h
    have hless : l'.numNodes < (BinaryTree.node b l' r').numNodes + k := by
      rw [BinaryTree.numNodes]
      omega
    obtain ⟨a', r'', fs', hloop, hintact, hpost⟩ := ihl hless h.goLeft fun p hp => hne p (by simp [postorder, hp])
    refine ⟨a', r'', fs', ?_, hintact, (postorder_left _ _ _ _).trans hpost⟩
    rw [leftmostLoop, load_ok hn.loaded, ok_bind, hn.left, treeRoot, if_pos (hne b (mem_postorder_root b l' r'))]
    exact hloop

/-- `avl_first` finds the leftmost node, whose frames are all left ones. -/
lemma avlFirstLoop_of_leftmost {fuel parent a p' a' : Nat} (prev : Nat) (ha : a ≠ 0)
    (h : leftmostLoop mem fuel parent a = .ok (p', a')) : avlFirstLoop mem (fuel + 1) a prev = .ok a' := by
  induction fuel generalizing parent a prev with
  | zero => cases h
  | succ fuel ih =>
    rw [leftmostLoop] at h
    obtain ⟨n, hn, h⟩ := bind_returns.1 h
    rw [avlFirstLoop, if_neg ha, hn, ok_bind]
    by_cases h0 : n.avlChild 0 = 0
    · rw [if_neg (not_not.2 h0)] at h
      cases h
      rw [h0, avlFirstLoop, if_pos rfl]
    · rw [if_pos h0] at h
      exact ih a h0 h

end

/-! ## One call -/

lemma clearLow_cookie (hp : 8 ∣ p) (hc : c < 2) : clearLow (p + c) 1 = p := by
  rw [clearLow, Nat.shiftRight_eq_div_pow, Nat.shiftLeft_eq]
  omega

lemma childbit_cookie (hp : 8 ∣ p) (hc : c < 2) : (p + c) &&& childbit = c := by
  rw [childbit, Nat.and_one_is_mod]
  omega

/-- A call that returns the first of the nodes that are left. -/
structure Called (s : Teardown) (expected : List Nat) (r : Nat × Teardown) (x : Nat) (fs : List (Frame Nat)) : Prop where
  order : expected = x :: pending fs
  data : r.1 = avlNode2data x s.tree.avlOffset
  offset : r.2.tree.avlOffset = s.tree.avlOffset
  numnodes : r.2.tree.avlNumnodes = expected.length
  cookie : r.2.cookie = cookieOf fs
  reached : Reached r.2.mem r.2.tree.avlRoot x fs
  frame : ∀ p ∉ expected, r.2.mem p = s.mem p

/-- Unlinking a child of `p` leaves alone what the frames above it know. -/
lemma Reached.unlink {mem : Memory} {root : Nat} {fs : List (Frame Nat)} (child : Fin 2) (hp : p ∉ pending fs)
    (hparent : avlXparent n = above fs) (hside : OnSide (avlXchild n) fs) (hframes : FramesAt mem p fs) (htop : topOf p fs = root) :
    Reached (store mem p { n with avlChild := update n.avlChild child 0 }) root p fs where
  linked := ⟨_, store_self .., hparent, hside⟩
  frames := hframes.of_eq fun _ hq => store_of_ne _ (ne_of_mem_of_not_mem hq hp)
  top := htop

variable {fuel : Nat}

section
variable {s : Teardown} {x : Nat} {fs : List (Frame Nat)}

lemma destroyNext_up {child : Fin 2} (hn : s.mem p = some n) (hparent : avlXparent n = above fs)
    (hside : OnSide (avlXchild n) fs) (hframes : FramesAt s.mem p fs) (htop : topOf p fs = s.tree.avlRoot)
    (hdone : child = 1 ∨ n.avlChild 1 = 0) (hcount : s.tree.avlNumnodes = (pending fs).length + 2) (hp : p ∉ pending fs)
    (haddr : ∀ q ∈ pending fs, NodeAddress s.tree q) :
    ∃ r, destroyNext fuel s p child = .ok r ∧ Called s (p :: pending fs) r p fs := by
  have hmany : s.tree.avlNumnodes > 1 := by omega
  have hreached := Reached.unlink child hp hparent hside hframes htop
  have hempty : child = 1 ∨ update n.avlChild child 0 1 = 0 := by
    rcases hdone with hc | h0
    · exact .inl hc
    · by_cases hc : child = 1
      · exact .inl hc
      · exact .inr (by rw [update_of_ne (Ne.symm hc), h0])
  have hret : destroyDone (store s.mem p { n with avlChild := update n.avlChild child 0 })
      { s.tree with avlNumnodes := s.tree.avlNumnodes - 1 } (above fs) p = .ok (avlNode2data p s.tree.avlOffset, cookieOf fs) :=
    destroyDone_ok hreached haddr
  rw [destroyNext, load_ok hn, ok_bind]
  dsimp only
  rw [ASSERT_bind hmany, if_pos hempty]
  rw [show avlXparent { n with avlChild := update n.avlChild child 0 } = above fs from hparent, hret, ok_bind]
  refine ⟨_, rfl, rfl, rfl, rfl, ?_, rfl, hreached, fun q hq => ?_⟩
  · dsimp only
    rw [hcount, length_cons]
    omega
  · exact store_of_ne _ (ne_of_not_mem_cons hq)

lemma destroyNext_over (hn : LinkedAt s.mem p (above fs) x b n)
    (hside : OnSide (avlXchild n) fs) (htree : TreeAt s.mem p 1 (.node b l r)) (hbal : Balanced (.node b l r)) (hframes : FramesAt s.mem p fs)
    (htop : topOf p fs = s.tree.avlRoot) (hfuel : l.numNodes < fuel)
    (hcount : s.tree.avlNumnodes = (pending (.left p (.node b l r) :: fs)).length + 1)
    (hnodup : (pending (.left p (.node b l r) :: fs)).Nodup) (haddr : ∀ q ∈ pending (.left p (.node b l r) :: fs), NodeAddress s.tree q) :
    ∃ res y fs', destroyNext fuel s p 0 = .ok res ∧ Called s (pending (.left p (.node b l r) :: fs)) res y fs' := by
  have hsplit : pending (.left p (.node b l r) :: fs) = postorder (.node b l r) ++ pending (.right p :: fs) := rfl
  rw [hsplit] at hcount hnodup haddr ⊢
  obtain ⟨_, hnodupFs, hdisjoint⟩ := nodup_append.1 hnodup
  have hp : p ∉ pending fs := (nodup_cons.1 hnodupFs).1
  have hmany : s.tree.avlNumnodes > 1 := by
    rw [hcount, length_append, length_postorder, BinaryTree.numNodes]
    omega
  have hne : ∀ q ∈ postorder (.node b l r) ++ pending (.right p :: fs), q ≠ 0 := by
    intro q hq
    have := (haddr q hq).2
    omega
  have hb : b ≠ 0 := hne b (mem_append_left _ (mem_postorder_root b l r))
  -- the subtree is intact below a parent that has lost its left child
  have hintact : Intact (store s.mem p { n with avlChild := update n.avlChild 0 0 }) s.tree.avlRoot (.node b l r) (.right p :: fs) := by
    have hframes' := (Reached.unlink 0 hp hn.parent hside hframes htop).frames
    refine ⟨⟨1, rfl, htree.of_eq fun q hq => ?_⟩, hbal, ⟨⟨_, ⟨store_self .., hn.parent, rfl, hn.right⟩, hside⟩, hframes'⟩, htop⟩
    exact store_of_ne _ (hdisjoint q hq p mem_cons_self)
  obtain ⟨a, r', fs', hloop, hleft, hpost⟩ := leftmostLoop_ok hfuel hintact fun q hq =>
    hne q (mem_append_left _ (by simp [postorder, hq]))
  rw [hpost] at haddr
  have hright : ∃ res y fs'', checkRightSide (store s.mem p { n with avlChild := update n.avlChild 0 0 })
      { s.tree with avlNumnodes := s.tree.avlNumnodes - 1 } (above fs') a = .ok res ∧ Returned _ _ _ res y fs'' :=
    checkRightSide_ok hleft haddr
  obtain ⟨res, y, fs'', hcheck, hret⟩ := hright
  have hnonempty : ¬((0 : Fin 2) = 1 ∨ update n.avlChild 0 0 1 = 0) := by
    rw [update_of_ne (by decide), hn.right]
    simp [hb]
  rw [destroyNext, load_ok hn.loaded, ok_bind]
  dsimp only
  rw [ASSERT_bind hmany, if_neg hnonempty, update_of_ne (by decide), hn.right]
  rw [show leftmostLoop _ fuel p b = _ from hloop, ok_bind, hcheck, ok_bind]
  refine ⟨_, y, fs'', rfl, hpost.trans hret.order, hret.data, rfl, ?_, hret.cookie, hret.reached, fun q hq => ?_⟩
  · dsimp only
    rw [hcount, Nat.add_sub_cancel]
  · refine store_of_ne _ fun he => hq ?_
    rw [he]
    exact mem_append_right _ mem_cons_self

/-- The state between two calls: `x` was returned last and is gone. -/
structure Midway (s : Teardown) (x : Nat) (fs : List (Frame Nat)) : Prop where
  frames : FramesAt s.mem x fs
  top : topOf x fs = s.tree.avlRoot
  cookie : s.cookie = cookieOf fs
  numnodes : s.tree.avlNumnodes = (pending fs).length + 1
  nodup : (pending fs).Nodup
  address : ∀ p ∈ pending fs, NodeAddress s.tree p

/-- **A step of the walk**: the next call returns the next pending node. -/
theorem avlDestroyNodes_next {f : Frame Nat} (h : Midway s x (f :: fs)) (hfuel : (pending (f :: fs)).length ≤ fuel) :
    ∃ r y fs', avlDestroyNodes fuel s = .ok r ∧ Called s (pending (f :: fs)) r y fs' := by
  obtain ⟨hdvd, hpos⟩ := h.address _ (node_mem_pending f fs)
  have hcookie : s.cookie = f.node + side f := h.cookie
  have hparent : clearLow s.cookie 1 = f.node := hcookie ▸ clearLow_cookie hdvd (side_lt f)
  have hchild : s.cookie &&& childbit = side f := hcookie ▸ childbit_cookie hdvd (side_lt f)
  rw [avlDestroyNodes, if_neg (by omega), hparent, hchild]
  dsimp only
  rw [if_neg (by omega)]
  cases f with
  | right p =>
    obtain ⟨⟨n, hn, hside⟩, hframes⟩ := h.frames
    obtain ⟨hp, _⟩ := nodup_cons.1 h.nodup
    have hnext : ∃ r, destroyNext fuel s p 1 = .ok r ∧ Called s (p :: pending fs) r p fs :=
      destroyNext_up hn.loaded hn.parent hside hframes h.top (.inl rfl) h.numnodes hp fun q hq => h.address q (mem_cons_of_mem _ hq)
    obtain ⟨r, hr, hcalled⟩ := hnext
    exact ⟨r, p, fs, hr, hcalled⟩
  | left p t =>
    obtain ⟨⟨n, hn, hside⟩, htree, hbal, hframes⟩ := h.frames
    cases t with
    | nil =>
      obtain ⟨hp, _⟩ := nodup_cons.1 h.nodup
      have hnext : ∃ r, destroyNext fuel s p 0 = .ok r ∧ Called s (p :: pending fs) r p fs :=
        destroyNext_up hn.loaded hn.parent hside hframes h.top (.inr hn.right) h.numnodes hp fun q hq => h.address q (mem_cons_of_mem _ hq)
      obtain ⟨r, hr, hcalled⟩ := hnext
      exact ⟨r, p, fs, hr, hcalled⟩
    | node b l r =>
      have hless : l.numNodes < fuel := by
        rw [pending, length_append, length_postorder, BinaryTree.numNodes] at hfuel
        omega
      exact destroyNext_over hn hside htree hbal hframes h.top hless h.numnodes h.nodup h.address

lemma avlDestroyNodes_first (h : ValidAvl s.mem s.tree (.node a l r)) (hcookie : s.cookie = 0)
    (hfuel : (BinaryTree.node a l r).numNodes < fuel) :
    ∃ res y fs', avlDestroyNodes fuel s = .ok res ∧ Called s (postorder (.node a l r)) res y fs' := by
  obtain ⟨c, hc⟩ := h.linked
  have hintact : Intact s.mem s.tree.avlRoot (.node a l r) [] := ⟨⟨c, trivial, hc⟩, h.balanced, trivial, h.root.symm⟩
  have hne : ∀ q ∈ postorder (.node a l r), q ≠ 0 := by
    intro q hq
    have := (h.address q hq).2
    omega
  rw [BinaryTree.numNodes] at hfuel
  obtain ⟨k, rfl⟩ : ∃ k, fuel = k + 1 := ⟨fuel - 1, by omega⟩
  have hless : l.numNodes < k := by omega
  obtain ⟨a', r', fs', hloop, hleft, hpost⟩ := leftmostLoop_ok hless hintact fun q hq => hne q (by simp [postorder, hq])
  have hfirst := avlFirstLoop_of_leftmost 0 (hne a (mem_postorder_root a l r)) hloop
  have hempty : postorder (.node a l r) ++ pending [] = postorder (.node a l r) := append_nil _
  rw [hempty] at hpost
  have haddr := h.address
  rw [hpost] at haddr
  obtain ⟨hdvd, hpos⟩ := haddr a' (mem_append_left _ (mem_postorder_root a' .nil r'))
  obtain ⟨res, y, fs'', hcheck, hret⟩ := checkRightSide_ok hleft haddr
  obtain ⟨n, hn, hparent, _⟩ := hleft.reached.linked
  have hdata : avlNode2data a' s.tree.avlOffset ≠ 0 := by
    rw [avlNode2data]
    omega
  have hback : avlData2node (avlNode2data a' s.tree.avlOffset) s.tree.avlOffset = a' := by
    rw [avlNode2data, avlData2node]
    omega
  rw [avlDestroyNodes, if_pos hcookie, destroyFirst, avlFirst, h.root, treeRoot, hfirst, ok_bind, ok_bind,
    if_pos (show a' ≠ 0 by omega), if_neg hdata, hback]
  dsimp only
  rw [load_ok hn, ok_bind, hparent, hcheck, ok_bind]
  refine ⟨_, y, fs'', rfl, hpost.trans hret.order, hret.data, rfl, ?_, hret.cookie, hret.reached, fun _ _ => rfl⟩
  dsimp only
  rw [h.numnodes, length_postorder]

end

/-! ## The whole teardown -/

lemma Called.free {s : Teardown} {expected : List Nat} {r : Nat × Teardown} {x : Nat} {fs : List (Frame Nat)} (h : Called s expected r x fs)
    (hnodup : expected.Nodup) (haddr : ∀ p ∈ expected, NodeAddress s.tree p) :
    ∃ mem, freeNode r.2.mem (avlData2node r.1 r.2.tree.avlOffset) = .ok mem ∧ Midway { r.2 with mem } x fs ∧
      (∀ p ∉ expected, mem p = s.mem p) ∧ mem x = none := by
  obtain ⟨horder, hdata, hoffset, hnumnodes, hcookie, hreached, hframe⟩ := h
  subst horder
  obtain ⟨hx, hrest⟩ := nodup_cons.1 hnodup
  obtain ⟨n, hn, _⟩ := hreached.linked
  have hpos := (haddr x mem_cons_self).2
  have hback : avlData2node r.1 r.2.tree.avlOffset = x := by
    rw [hdata, hoffset, avlNode2data, avlData2node]
    omega
  have hkeep : ∀ q, q ≠ x → update r.2.mem x none q = r.2.mem q := fun q hq => update_of_ne hq ..
  refine ⟨update r.2.mem x none, ?_, ⟨?_, hreached.top, hcookie, hnumnodes, hrest, ?_⟩, ?_, update_self ..⟩
  · rw [hback, freeNode, load_ok hn, ok_bind]
  · exact hreached.frames.of_eq fun q hq => hkeep q (ne_of_mem_of_not_mem hq hx)
  · intro p hp
    have := haddr p (mem_cons_of_mem _ hp)
    rwa [NodeAddress, ← hoffset] at this
  · intro p hp
    rw [hkeep p (ne_of_not_mem_cons hp), hframe p hp]

lemma avlDestroyNodes_end {s : Teardown} {x : Nat} (fuel : Nat) (h : Midway s x []) (hx : x ≠ 0) :
    avlDestroyNodes fuel s = .ok (0, { s with tree := { s.tree with avlRoot := 0, avlNumnodes := 0 } }) := by
  have hcookie : s.cookie = 1 := h.cookie
  have hroot : s.tree.avlRoot ≠ 0 := h.top ▸ hx
  have hlast : s.tree.avlNumnodes = 1 := h.numnodes
  rw [avlDestroyNodes, hcookie, if_neg (by decide)]
  dsimp only
  rw [if_pos (by decide), if_pos hroot, ASSERT_bind hlast]

/-- **The walk**: after the first of the nodes left, the caller's loop gets the others, one by one. -/
theorem destroyAll_called {calls : Nat} : ∀ {s : Teardown} {expected : List Nat} {r : Nat × Teardown} {x : Nat} {fs : List (Frame Nat)},
    avlDestroyNodes fuel s = .ok r → Called s expected r x fs → expected.Nodup → (∀ p ∈ expected, NodeAddress s.tree p) →
    expected.length ≤ fuel → expected.length < calls →
    ∃ s', destroyAll fuel calls s = .ok (expected.map (avlNode2data · s.tree.avlOffset), s') ∧
      s'.tree.avlRoot = 0 ∧ s'.tree.avlNumnodes = 0 ∧ ∀ p, s'.mem p = if p ∈ expected then none else s.mem p := by
  induction calls with
  | zero => exact fun _ _ _ _ _ h => absurd h (Nat.not_lt_zero _)
  | succ calls ih =>
    intro s expected r x fs hcall hcalled hnodup haddr hfuel hcalls
    obtain ⟨mem, hfree, hmid, hframe, hgone⟩ := hcalled.free hnodup haddr
    obtain ⟨horder, hdata, hoffset, _, _, _, _⟩ := hcalled
    subst horder
    rw [length_cons] at hfuel hcalls
    have hpos := (haddr x mem_cons_self).2
    have hnonzero : r.1 ≠ 0 := by
      rw [hdata, avlNode2data]
      omega
    -- the rest of the loop, from the state in which `x` is gone
    have hrest : ∃ s', destroyAll fuel calls { r.2 with mem } = .ok ((pending fs).map (avlNode2data · s.tree.avlOffset), s') ∧
        s'.tree.avlRoot = 0 ∧ s'.tree.avlNumnodes = 0 ∧ ∀ p, s'.mem p = if p ∈ pending fs then none else mem p := by
      cases fs with
      | nil =>
        obtain ⟨k, rfl⟩ := Nat.exists_eq_succ_of_ne_zero (show calls ≠ 0 by omega)
        have hend := avlDestroyNodes_end fuel hmid (by omega)
        refine ⟨{ r.2 with mem, tree := { r.2.tree with avlRoot := 0, avlNumnodes := 0 } }, ?_, rfl, rfl, fun p => rfl⟩
        rw [destroyAll, hend, ok_bind, if_pos rfl]
        rfl
      | cons f fs =>
        have hless : (pending (f :: fs)).length ≤ fuel := by omega
        obtain ⟨r', y, fs', hnext, hcalled'⟩ := avlDestroyNodes_next hmid hless
        have := ih hnext hcalled' hmid.nodup hmid.address (by omega) (by omega)
        rw [show ({ r.2 with mem } : Teardown).tree.avlOffset = s.tree.avlOffset from hoffset] at this
        exact this
    obtain ⟨s', hrun, hroot, hcount, hmem⟩ := hrest
    refine ⟨s', ?_, hroot, hcount, fun p => ?_⟩
    · rw [destroyAll, hcall, ok_bind, if_neg hnonzero, hfree, ok_bind, hrun, ok_bind, map_cons, hdata]
    · rw [hmem]
      by_cases hp : p ∈ pending fs
      · rw [if_pos hp, if_pos (mem_cons_of_mem _ hp)]
      · rw [if_neg hp]
        by_cases hx : p = x
        · rw [hx, hgone, if_pos mem_cons_self]
        · rw [if_neg (by simp [hx, hp]), hframe p (by simp [hx, hp])]

/-- **Destructive teardown.** Every node is returned once, children first; no freed node is touched. -/
theorem destroy_nodes_teardown (mem : Memory) (tree : AvlTree) (t : BinaryTree Nat) (h : ValidAvl mem tree t) (fuel calls : Nat)
    (hfuel : t.numNodes < fuel) (hcalls : t.numNodes < calls) :
    ∃ nodes s', destroyAll fuel calls ⟨mem, tree, 0⟩ = .ok (nodes.map (avlNode2data · tree.avlOffset), s') ∧
      nodes.Perm (postorder t) ∧ nodes.Nodup ∧ (∀ b a, ChildOf b a t → [b, a].Sublist nodes) ∧
      (∀ p, s'.mem p = if p ∈ nodes then none else mem p) ∧ s'.tree.avlRoot = 0 ∧ s'.tree.avlNumnodes = 0 := by
  cases t with
  | nil =>
    obtain ⟨k, rfl⟩ := Nat.exists_eq_add_of_lt hfuel
    obtain ⟨j, rfl⟩ := Nat.exists_eq_add_of_lt hcalls
    have hfirst : avlDestroyNodes (BinaryTree.numNodes (.nil : BinaryTree Nat) + k + 1) ⟨mem, tree, 0⟩ = .ok (0, ⟨mem, tree, childbit⟩) := by
      rw [avlDestroyNodes, if_pos rfl, destroyFirst, avlFirst, h.root, treeRoot, avlFirstLoop, if_pos rfl, ok_bind, ok_bind, if_neg (not_not.2 rfl),
        if_pos rfl]
    refine ⟨[], ⟨mem, tree, childbit⟩, ?_, .refl _, List.nodup_nil, fun _ _ hc => hc.before, fun p => rfl, h.root, h.numnodes⟩
    rw [destroyAll, hfirst, ok_bind, if_pos rfl]
    rfl
  | node a l r =>
    obtain ⟨res, y, fs, hcall, hcalled⟩ := avlDestroyNodes_first (s := ⟨mem, tree, 0⟩) h rfl hfuel
    rw [← length_postorder] at hfuel hcalls
    obtain ⟨s', hrun, hroot, hcount, hmem⟩ := destroyAll_called hcall hcalled h.nodup h.address hfuel.le hcalls
    exact ⟨_, s', hrun, .refl _, h.nodup, fun _ _ hc => hc.before, hmem, hroot, hcount⟩

/-- The root is at 16, its children at 24 and 32, and a right child of the latter at 40. -/
def sampleMemory : Memory
  | 16 => some ⟨![24, 32], 0 + 0 + 2⟩
  | 24 => some ⟨![0, 0], 16 + 0 + 1⟩
  | 32 => some ⟨![0, 40], 16 + 4 + 2⟩
  | 40 => some ⟨![0, 0], 32 + 4 + 1⟩
  | _ => none

def sampleTree : BinaryTree Nat := .node 16 (.node 24 .nil .nil) (.node 32 .nil (.node 40 .nil .nil))

theorem destroy_nodes_teardown_sample :
    ∃ nodes s', destroyAll 5 5 ⟨sampleMemory, ⟨16, 8, 4⟩, 0⟩ = .ok (nodes.map (avlNode2data · 8), s') ∧
      nodes.Perm [24, 40, 32, 16] ∧ nodes.Nodup ∧ (∀ b a, ChildOf b a sampleTree → [b, a].Sublist nodes) ∧
      (∀ p, s'.mem p = if p ∈ nodes then none else sampleMemory p) ∧ s'.tree.avlRoot = 0 ∧ s'.tree.avlNumnodes = 0 := by
  have hlinked : TreeAt sampleMemory 0 0 sampleTree :=
    ⟨⟨_, ⟨rfl, rfl, rfl, rfl⟩, rfl, rfl⟩, ⟨⟨_, ⟨rfl, rfl, rfl, rfl⟩, rfl, rfl⟩, trivial, trivial⟩,
      ⟨_, ⟨rfl, rfl, rfl, rfl⟩, rfl, rfl⟩, trivial, ⟨_, ⟨rfl, rfl, rfl, rfl⟩, rfl, rfl⟩, trivial, trivial⟩
  have hbalanced : Balanced sampleTree := by
    simp [sampleTree, Balanced]
  have haddress : ∀ p ∈ postorder sampleTree, NodeAddress ⟨16, 8, 4⟩ p := by
    simp [sampleTree, postorder, NodeAddress]
  exact destroy_nodes_teardown sampleMemory ⟨16, 8, 4⟩ sampleTree
    ⟨rfl, rfl, ⟨0, hlinked⟩, hbalanced, by decide, haddress⟩ 5 5 (by decide) (by decide)

end Unleashed.Avl
