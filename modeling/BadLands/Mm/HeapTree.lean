/-!
# The heap's free tree

The free blocks of the kernel heap are nodes of an AVL tree ordered by address; the nodes
live in the free memory itself. Memory is kept field by field: `left a` is the `left` member
of the node at address `a`, and `0` is the null pointer. `AllocatedNode::size` is the first
member of a block header and of a `Node` alike, so both are `size a`.

Heights are far below `2 ^ 63` in any tree whose nodes have distinct 64-bit addresses, so
`uint64_t height` is a natural and the balance factor an integer. The loops follow pointers
and take fuel; `none` is "not finished yet".
-/
namespace BadLands.Mm.HeapTree

/-- mirrors kernel/src/mm/Heap.cpp:62-66 -/
structure Mem where
  size : Nat → Nat
  left : Nat → Nat
  right : Nat → Nat
  parent : Nat → Nat
  height : Nat → Nat

inductive Side where
  | left
  | right
  deriving DecidableEq, Repr

def Side.opp : Side → Side
  | .left => .right
  | .right => .left

/-- One field with the entry at `a` replaced. -/
def put (f : Nat → Nat) (a x : Nat) : Nat → Nat := fun y => if y = a then x else f y

namespace Mem

def setSize (m : Mem) (a x : Nat) : Mem := { m with size := put m.size a x }

def setLeft (m : Mem) (a x : Nat) : Mem := { m with left := put m.left a x }

def setRight (m : Mem) (a x : Nat) : Mem := { m with right := put m.right a x }

def setParent (m : Mem) (a x : Nat) : Mem := { m with parent := put m.parent a x }

def setHeight (m : Mem) (a x : Nat) : Mem := { m with height := put m.height a x }

def child (m : Mem) : Side → Nat → Nat
  | .left => m.left
  | .right => m.right

def setChild (m : Mem) : Side → Nat → Nat → Mem
  | .left => m.setLeft
  | .right => m.setRight

/-- mirrors kernel/src/mm/Heap.cpp:57-59 -/
def getHeight (m : Mem) (n : Nat) : Nat := if n = 0 then 0 else m.height n

/-- mirrors kernel/src/mm/Heap.cpp:68-70 -/
def updateHeight (m : Mem) (n : Nat) : Mem :=
  m.setHeight n (max (m.getHeight (m.left n)) (m.getHeight (m.right n)) + 1)

/-- mirrors kernel/src/mm/Heap.cpp:72-74 -/
def getBalanceFactor (m : Mem) (n : Nat) : Int :=
  (m.getHeight (m.left n) : Int) - m.getHeight (m.right n)

/-- The parent's pointer to `root`, found by comparing addresses, becomes `newRoot`. -/
def replaceChild (m : Mem) (parent root newRoot : Nat) : Mem :=
  if parent = 0 then m
  else if root < parent then m.setLeft parent newRoot
  else m.setRight parent newRoot

/-- The body shared by `RotateLeft` and `RotateRight`: `root` moves down on side `d`. -/
def rotate (d : Side) (m : Mem) (root : Nat) : Mem × Nat :=
  let newRoot := m.child d.opp root
  if root = 0 ∨ newRoot = 0 then (m, root)
  else
    let inner := m.child d newRoot
    let m := m.setChild d.opp root inner
    let m := m.setChild d newRoot root
    let m := if inner = 0 then m else m.setParent inner root
    let parent := m.parent root
    let m := m.setParent root newRoot
    let m := m.setParent newRoot parent
    let m := m.replaceChild parent root newRoot
    let m := m.updateHeight root
    (m.updateHeight newRoot, newRoot)

/-- mirrors kernel/src/mm/Heap.cpp:76-107 -/
def rotateLeft (m : Mem) (root : Nat) : Mem × Nat := rotate .left m root

/-- mirrors kernel/src/mm/Heap.cpp:109-140 -/
def rotateRight (m : Mem) (root : Nat) : Mem × Nat := rotate .right m root

/-- mirrors kernel/src/mm/Heap.cpp:142-146 -/
def rotateRightLeft (m : Mem) (root : Nat) : Mem × Nat :=
  let r := rotateRight m (m.right root)
  rotateLeft (r.1.setRight root r.2) root

/-- mirrors kernel/src/mm/Heap.cpp:148-152 -/
def rotateLeftRight (m : Mem) (root : Nat) : Mem × Nat :=
  let r := rotateLeft m (m.left root)
  rotateRight (r.1.setLeft root r.2) root

/-- mirrors kernel/src/mm/Heap.cpp:158-179 -/
def rebalance (m : Mem) (root ptr : Nat) : Mem × Nat :=
  let m := m.updateHeight root
  let balanceFactor := m.getBalanceFactor root
  if balanceFactor < -1 ∨ balanceFactor > 1 then
    if ptr > root ∧ ptr > m.right root then rotateLeft m root
    else if ptr < root ∧ ptr < m.left root then rotateRight m root
    else if ptr > root ∧ ptr < m.right root then rotateRightLeft m root
    else if ptr < root ∧ ptr > m.left root then rotateLeftRight m root
    else (m, root)
  else (m, root)

/-- The body of the loop at the end of `Delete`.
mirrors kernel/src/mm/Heap.cpp:341-360 -/
def rebalanceDeleted (m : Mem) (prev : Nat) : Mem × Nat :=
  let m := m.updateHeight prev
  let balanceFactor := m.getBalanceFactor prev
  if balanceFactor > 1 then
    if m.getBalanceFactor (m.left prev) ≥ 0 then rotateRight m prev else rotateLeftRight m prev
  else if balanceFactor < -1 then
    if m.getBalanceFactor (m.right prev) > 0 then rotateRightLeft m prev else rotateLeft m prev
  else (m, prev)

/-- `for (; prev != nullptr; last = prev, prev = prev->parent) prev = body(prev);` -/
def climb (body : Mem → Nat → Mem × Nat) : Nat → Mem → Nat → Nat → Option (Mem × Nat)
  | 0, _, _, _ => none
  | fuel + 1, m, prev, last =>
    if prev = 0 then some (m, last)
    else
      let r := body m prev
      climb body fuel r.1 (r.1.parent r.2) r.2

/-- The descent of `Insert`: the last node visited, or `none` inside when `n` is there already.
mirrors kernel/src/mm/Heap.cpp:195-210 -/
def descend (m : Mem) (n : Nat) : Nat → Nat → Nat → Option (Option Nat)
  | 0, _, _ => none
  | fuel + 1, prev, curr =>
    if curr = 0 then some (some prev)
    else if n < curr then descend m n fuel curr (m.left curr)
    else if n > curr then descend m n fuel curr (m.right curr)
    else some none

/-- `*n = Node{ size, nullptr, nullptr, parent, 1 }`. -/
def makeLeaf (m : Mem) (n parent : Nat) : Mem :=
  (((m.setLeft n 0).setRight n 0).setParent n parent).setHeight n 1

/-- mirrors kernel/src/mm/Heap.cpp:181-232 -/
def insert (fuel : Nat) (m : Mem) (root n : Nat) : Option (Mem × Nat) :=
  if root = 0 then some (m.makeLeaf n 0, n)
  else
    (descend m n fuel root root).bind fun
      | none => some (m, root)
      | some prev =>
        let m := m.makeLeaf n prev
        let m := if n < prev then m.setLeft prev n else m.setRight prev n
        climb (fun m prev => rebalance m prev n) fuel m prev 0

/-- The search for the successor.
mirrors kernel/src/mm/Heap.cpp:282-288 -/
def leftmost (m : Mem) : Nat → Nat → Nat → Option Nat
  | 0, _, _ => none
  | fuel + 1, successor, ptr => if ptr = 0 then some successor else leftmost m fuel ptr (m.left ptr)

/-- `prev`'s pointer to `node` becomes `t`; without a `prev`, `t` is the new root. -/
def unlink (m : Mem) (root prev node t : Nat) : Mem × Nat :=
  if prev = 0 then (m, t)
  else if node > prev then (m.setRight prev t, root)
  else (m.setLeft prev t, root)

/-- The two-children case of `Delete`: the memory, the root and where rebalancing starts.
mirrors kernel/src/mm/Heap.cpp:282-326 -/
def spliceSuccessor (m : Mem) (root node successor : Nat) : Mem × Nat × Nat :=
  let prev := m.parent node
  let left := m.left node
  let right := m.right node
  let above := m.parent successor
  let m :=
    if above = node then m
    else
      let m := m.setLeft above (m.right successor)
      let m := if m.right successor = 0 then m else m.setParent (m.right successor) above
      (m.setRight successor right).setParent right successor
  let m := (m.setLeft successor left).setParent left successor
  let m := (m.setParent successor prev).updateHeight successor
  let start := if above = node then successor else above
  if prev = 0 then (m, successor, start)
  else if successor < prev then (m.setLeft prev successor, root, start)
  else (m.setRight prev successor, root, start)

/-- The first half of `Delete`: the node is taken out of the tree.
mirrors kernel/src/mm/Heap.cpp:239-327 -/
def splice (fuel : Nat) (m : Mem) (root node : Nat) : Option (Mem × Nat × Nat) :=
  let prev := m.parent node
  let left := m.left node
  let right := m.right node
  if left = 0 ∧ right = 0 then
    let r := m.unlink root prev node 0
    some (r.1, r.2, prev)
  else if right = 0 then
    let r := (m.setParent left prev).unlink root prev node left
    some (r.1, r.2, prev)
  else if left = 0 then
    let r := (m.setParent right prev).unlink root prev node right
    some (r.1, r.2, prev)
  else (leftmost m fuel right right).map (m.spliceSuccessor root node)

/-- mirrors kernel/src/mm/Heap.cpp:234-365 -/
def delete (fuel : Nat) (m : Mem) (root node : Nat) : Option (Mem × Nat) :=
  if root = 0 ∨ node = 0 then some (m, root)
  else
    (splice fuel m root node).bind fun (m, root, prev) =>
      if prev = 0 then
        if root = 0 then some (m, 0) else some (rebalance m root node)
      else climb rebalanceDeleted fuel m prev 0

end Mem

end BadLands.Mm.HeapTree
