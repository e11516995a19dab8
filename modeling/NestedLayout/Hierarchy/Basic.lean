import NestedLayout.Table

/-!
# The container tree

`Hierarchy` holds the containers of a diagram as a tree: each knows its parent, its children and
its elements by their ids. Boxes are kept apart from the tree, which no layout step changes.

* **Down.** `subtree` lists a container and everything below it, parents first; `postOrder` lists
  children first; `processingRank` goes level by level.
* **Up.** `ancestors` lists a container and what encloses it, up to the root;
  `lowestCommonAncestor` is where two such chains meet.

Every walk is bounded by the number of containers, so it also ends on a table that is no tree.
-/

set_option autoImplicit false

namespace NestedLayout

/-- A node of the container tree. -/
structure Container where
  id : String
  parent : Option String
  /-- Nested containers: those that the area lists, in its order, before those that only declare
  it as their parent. -/
  children : List String
  /-- Elements in the order in which the area lists them. -/
  elements : List String
  /-- The number of steps to the root. -/
  depth : Nat
deriving DecidableEq, Inhabited

structure Hierarchy where
  root : String
  containers : IdTable Container
  /-- The container that each element belongs to. -/
  owners : IdTable String
deriving Inhabited

namespace Hierarchy

variable (h : Hierarchy)

/-! ## Single containers -/

def container? (id : String) : Option Container := h.containers.get? id

/-- The parent of a container, if it is known and has one. -/
def parent? (id : String) : Option String := (h.container? id).bind (·.parent)

/-- The children of a container; an unknown one has none. -/
def children (id : String) : List String := ((h.container? id).map (·.children)).getD []

/-- The elements of a container; an unknown one has none. -/
def elements (id : String) : List String := ((h.container? id).map (·.elements)).getD []

/-- The depth of a container; an unknown one counts as the root. -/
def depth (id : String) : Nat := ((h.container? id).map (·.depth)).getD 0

/-- Whether a container has no parent. -/
def isRoot (id : String) : Bool := (h.parent? id).isNone

/-- The number of containers. -/
def size : Nat := h.containers.size

def maxDepth : Nat := (h.containers.values.map (·.depth)).foldl Nat.max 0

/-- Whether there is more than one container. -/
def hasNesting : Bool := decide (1 < h.size)

/-! ## Walks down the tree -/

/-- A container and what is below it to the given number of levels, parents first. -/
def below : Nat → String → List String
  | 0, _ => []
  | n + 1, id => id :: (h.children id).flatMap (below n)

/-- What is below a container to the given number of levels, and the container itself last. -/
def above : Nat → String → List String
  | 0, _ => []
  | n + 1, id => (h.children id).flatMap (above n) ++ [id]

/-- A container and everything nested in it, parents first. -/
def subtree (id : String) : List String := h.below (h.size + 1) id

/-- All containers, parents before children and children in their order. -/
def preOrder : List String := h.subtree h.root

/-- All containers, children before parents. -/
def postOrder : List String := h.above (h.size + 1) h.root

/-- All containers level by level; within a level as in `preOrder`. -/
def processingRank : List String := h.preOrder.mergeSort fun a b => decide (h.depth a ≤ h.depth b)

/-- The elements of a container and of everything nested in it. -/
def subtreeElements (id : String) : List String := (h.subtree id).flatMap h.elements

/-! ## Walks up the tree -/

/-- A container and its ancestors, at most as many as the first argument. -/
def chain : Nat → String → List String
  | 0, _ => []
  | n + 1, id => id :: match h.parent? id with
    | some p => chain n p
    | none => []

/-- A container, its parent, and so on up to the root. -/
def ancestors (id : String) : List String := h.chain (h.size + 1) id

/-- Whether the first container is the second one or encloses it. -/
def isAncestor (ancestor id : String) : Bool := (h.ancestors id).contains ancestor

/-- The deepest container that is or encloses both. -/
def lowestCommonAncestor (a b : String) : String :=
  let chainA := h.ancestors a
  ((h.ancestors b).find? fun id => chainA.contains id).getD h.root

end Hierarchy

end NestedLayout
