import ActionDB.Found.Heap
import ActionDB.Found.RedBlack

/-!
# The red-black tree of the connections

`net/rbtree.c` on a heap of nodes, statement by statement: nodes are reached through pointers, and
every function takes the heap and returns it. Dereferencing NULL or a freed node is a
`MemFault`.

The left and right branches of `rb_insert_rebalance` and `rb_erase_rebalance`, and the two
rotations, are mirror images of each other. Each pair is one definition that takes the side, and
`child s` stands for `left` or `right`.

Loops take a number of passes and end with `MemFault.endless` when it is used up; they are called
with `Heap.bound`, which no loop over distinct nodes can reach. `malloc` may return any address
that is not in use, so the address of a new node is an argument of `rbInsert`.
-/

namespace ActionDB.Net.Conn

open ActionDB.Found

/-! ## Nodes -/

/-- Source: `net/rbtree.h`, `struct rb_node_t`. -/
structure RbNode where
  left : Ptr
  right : Ptr
  parent : Ptr
  key : Int
  data : Ptr
  color : Color
  deriving DecidableEq

abbrev RbHeap := Heap RbNode

/-- The child on a side. -/
def RbNode.child (n : RbNode) : Side → Ptr
  | .left => n.left
  | .right => n.right

/-- Assign the child on a side. -/
def RbNode.setChild (n : RbNode) (s : Side) (p : Ptr) : RbNode :=
  match s with
  | .left => { n with left := p }
  | .right => { n with right := p }

/-- `p->color = c`. -/
def setColor (h : RbHeap) (p : Ptr) (c : Color) : Except MemFault RbHeap :=
  h.modify p fun n => { n with color := c }

/-- `if (p) p->color = c`. -/
def setColorIf (h : RbHeap) (p : Ptr) (c : Color) : Except MemFault RbHeap :=
  if p = none then .ok h else setColor h p c

/-- `if (p) p->parent = q`. -/
def setParentIf (h : RbHeap) (p q : Ptr) : Except MemFault RbHeap :=
  if p = none then .ok h else h.modify p fun n => { n with parent := q }

/-- `p && p->color == RED`. -/
def isRed (h : RbHeap) (p : Ptr) : Except MemFault Bool :=
  if p = none then .ok false else do
    let n ← h.load p
    return n.color = .red

/-- `!p || p->color == BLACK`. -/
def blackOrNull (h : RbHeap) (p : Ptr) : Except MemFault Bool :=
  if p = none then .ok true else do
    let n ← h.load p
    return n.color = .black

/-- Put `new` in the place of the child `node` of `parent`: on side `s` if it is there, and else
on the other; or at the root. -/
def relink (s : Side) (h : RbHeap) (parent node new root : Ptr) : Except MemFault (Ptr × RbHeap) :=
  if parent = none then .ok (new, h) else do
    let n ← h.load parent
    let side := if n.child s = node then s else s.other
    let h ← h.modify parent (·.setChild side new)
    return (root, h)

/-! ## Rotations -/

/-- Rotate `node` down to side `s`. -/
def rotate (s : Side) (h : RbHeap) (node root : Ptr) : Except MemFault (Ptr × RbHeap) := do
  let up := (← h.load node).child s.other
  let inner := (← h.load up).child s
  let h ← h.modify node (·.setChild s.other inner)
  let h ← setParentIf h inner node
  let h ← h.modify up (·.setChild s node)
  let parent := (← h.load node).parent
  let h ← h.modify up fun n => { n with parent := parent }
  let (root, h) ← relink .right h parent node up root
  let h ← h.modify node fun n => { n with parent := up }
  return (root, h)

/-- Source: `net/rbtree.c`, `rb_rotate_left`. -/
def rbRotateLeft := rotate .left

/-- Source: `net/rbtree.c`, `rb_rotate_right`. -/
def rbRotateRight := rotate .right

/-! ## Insertion -/

/-- The body of the loop of `rb_insert_rebalance` when `parent` is the child of `gparent` on side
`s`: the new `node`, the root and the heap. -/
def insertCase (s : Side) (h : RbHeap) (node parent gparent root : Ptr) :
    Except MemFault (Ptr × Ptr × RbHeap) := do
  let uncle := (← h.load gparent).child s.other
  if ← isRed h uncle then
    let h ← setColor h uncle .black
    let h ← setColor h parent .black
    let h ← setColor h gparent .red
    return (gparent, root, h)
  else if (← h.load parent).child s.other = node then
    let (root, h) ← rotate s h parent root
    -- `parent` and `node` change places
    let h ← setColor h node .black
    let h ← setColor h gparent .red
    let (root, h) ← rotate s.other h gparent root
    return (parent, root, h)
  else
    let h ← setColor h parent .black
    let h ← setColor h gparent .red
    let (root, h) ← rotate s.other h gparent root
    return (node, root, h)

/-- Source: `net/rbtree.c`, `rb_insert_rebalance`. -/
def rbInsertRebalance : ℕ → RbHeap → Ptr → Ptr → Except MemFault (Ptr × RbHeap)
  | 0, _, _, _ => .error .endless
  | fuel + 1, h, node, root => do
      let parent := (← h.load node).parent
      if ← isRed h parent then
        let gparent := (← h.load parent).parent
        let g ← h.load gparent
        let (node, root, h) ←
          insertCase (if parent = g.left then .left else .right) h node parent gparent root
        rbInsertRebalance fuel h node root
      else
        let h ← setColor h root .black
        return (root, h)

/-- The value of an `int` expression, which wraps around. -/
def wrap32 (x : Int) : Int := Int.bmod x (2 ^ 32)

/-- The loop of `rb_search_auxiliary`: the node with the key, and the last node that was visited
before it.
Source: `net/rbtree.c`, `rb_search_auxiliary`. -/
def rbSearchAuxiliary (h : RbHeap) (key : Int) : ℕ → Ptr → Ptr → Except MemFault (Ptr × Ptr)
  | 0, _, _ => .error .endless
  | fuel + 1, node, parent =>
      if node = none then .ok (none, parent) else do
        let n ← h.load node
        let ret := wrap32 (n.key - key)
        if 0 < ret then rbSearchAuxiliary h key fuel n.left node
        else if 0 > ret then rbSearchAuxiliary h key fuel n.right node
        else return (node, parent)

/-- Source: `net/rbtree.c`, `rb_search`. -/
def rbSearch (h : RbHeap) (key : Int) (root : Ptr) : Except MemFault Ptr := do
  let (node, _) ← rbSearchAuxiliary h key h.bound root none
  return node

/-- `malloc` returns `addr` for the new node, if one is made.
Source: `net/rbtree.c`, `rb_insert` and `rb_new_node`. -/
def rbInsert (h : RbHeap) (addr : ℕ) (key : Int) (data : Ptr) (root : Ptr) :
    Except MemFault (Ptr × RbHeap) := do
  let (node, parent) ← rbSearchAuxiliary h key h.bound root none
  if node ≠ none then return (root, h)
  else
    let h : RbHeap := h.insert addr
      { left := none, right := none, parent := parent, key := key, data := data, color := .red }
    if parent = none then rbInsertRebalance h.bound h (some addr) (some addr)
    else
      let p ← h.load parent
      let h ← h.modify parent (·.setChild (if p.key > key then .left else .right) (some addr))
      rbInsertRebalance h.bound h (some addr) root

/-! ## Erasure -/

/-- A red sibling is rotated away first: the sibling, the root and the heap after that. -/
def eraseRedSibling (s : Side) (h : RbHeap) (parent root : Ptr) :
    Except MemFault (Ptr × Ptr × RbHeap) := do
  let other := (← h.load parent).child s.other
  if (← h.load other).color = .red then
    let h ← setColor h other .black
    let h ← setColor h parent .red
    let (root, h) ← rotate s h parent root
    let other := (← h.load parent).child s.other
    return (other, root, h)
  else return (other, root, h)

/-- When the child of the sibling away from `node` is black, the other one takes the sibling's
place. -/
def eraseInner (s : Side) (h : RbHeap) (parent other root : Ptr) :
    Except MemFault (Ptr × Ptr × RbHeap) := do
  if ← blackOrNull h ((← h.load other).child s.other) then
    let h ← setColorIf h ((← h.load other).child s) .black
    let h ← setColor h other .red
    let (root, h) ← rotate s.other h other root
    let other := (← h.load parent).child s.other
    return (other, root, h)
  else return (other, root, h)

/-- The last rotation of `rb_erase_rebalance`. -/
def eraseOuter (s : Side) (h : RbHeap) (parent other root : Ptr) :
    Except MemFault (Ptr × RbHeap) := do
  let c := (← h.load parent).color
  let h ← setColor h other c
  let h ← setColor h parent .black
  let h ← setColorIf h ((← h.load other).child s.other) .black
  rotate s h parent root

/-- Neither child of `other` is red. -/
def bothBlack (h : RbHeap) (other : Ptr) : Except MemFault Bool := do
  let o ← h.load other
  if ← blackOrNull h o.left then blackOrNull h o.right else return false

/-- Source: `net/rbtree.c`, `rb_erase_rebalance`. In each pass `node` is the child of `parent` on
some side; the pass ends the loop or goes on at the parent. -/
def rbEraseRebalance : ℕ → RbHeap → Ptr → Ptr → Ptr → Except MemFault (Ptr × RbHeap)
  | 0, _, _, _, _ => .error .endless
  | fuel + 1, h, node, parent, root => do
      if (← blackOrNull h node) && node ≠ root then
        let s : Side := if (← h.load parent).left = node then .left else .right
        let (other, root, h) ← eraseRedSibling s h parent root
        if ← bothBlack h other then
          let h ← setColor h other .red
          let parent' := (← h.load parent).parent
          rbEraseRebalance fuel h parent parent' root
        else
          let (other, root, h) ← eraseInner s h parent other root
          let (root, h) ← eraseOuter s h parent other root
          let h ← setColorIf h root .black
          return (root, h)
      else
        let h ← setColorIf h node .black
        return (root, h)

/-- Take `node` out of the tree, its only `child` moving up. -/
def unlink (h : RbHeap) (node child parent root : Ptr) : Except MemFault (Ptr × RbHeap) := do
  let h ← setParentIf h child parent
  relink .left h parent node child root

/-- Put `node` in the place of `old`. -/
def supplant (h : RbHeap) (old node root : Ptr) : Except MemFault (Ptr × RbHeap) := do
  let o ← h.load old
  let h ← h.modify node fun n =>
    { n with parent := o.parent, color := o.color, right := o.right, left := o.left }
  let (root, h) ← relink .left h o.parent old node root
  let h ← h.modify (← h.load old).left fun n => { n with parent := node }
  let h ← setParentIf h (← h.load old).right node
  return (root, h)

/-- `while ((left = node->left) != NULL) node = left`. -/
def leftmost (h : RbHeap) : ℕ → Ptr → Except MemFault Ptr
  | 0, _ => .error .endless
  | fuel + 1, node => do
      let left := (← h.load node).left
      if left = none then return node else leftmost h fuel left

/-- The end of `rb_erase`: free the node, and rebalance if a black one has left the tree. -/
def rbEraseEnd (h : RbHeap) (old child parent root : Ptr) (color : Color) :
    Except MemFault (Ptr × RbHeap) := do
  let h ← h.free old
  if color = .black then rbEraseRebalance h.bound h child parent root
  else return (root, h)

/-- Source: `net/rbtree.c`, `rb_erase`. -/
def rbErase (h : RbHeap) (key : Int) (root : Ptr) : Except MemFault (Ptr × RbHeap) := do
  let (old, _) ← rbSearchAuxiliary h key h.bound root none
  if old = none then return (root, h)
  else
    let o ← h.load old
    if o.left ≠ none ∧ o.right ≠ none then
      let node ← leftmost h h.bound o.right
      let n ← h.load node
      let (root, h) ← unlink h node n.right n.parent root
      let parent := if n.parent = old then node else n.parent
      let (root, h) ← supplant h old node root
      rbEraseEnd h old n.right parent root n.color
    else
      let child := if o.left = none then o.right else o.left
      let (root, h) ← unlink h old child o.parent root
      rbEraseEnd h old child o.parent root o.color

end ActionDB.Net.Conn
