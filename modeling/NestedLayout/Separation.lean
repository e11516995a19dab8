import NestedLayout.Geometry.Rect

/-!
# Separation of overlapping boxes

One pass over all pairs of boxes, an earlier one with each later one. Two boxes that overlap are
pushed apart along the line between their centers, each by half of what is needed; a box may overlap
another one that it is nested in. Later pairs see what the pushes of earlier ones did.
-/

set_option autoImplicit false

namespace NestedLayout

namespace Separation

open Scalar (epsilon)

variable {α : Type} [Scalar α]

structure Item (α : Type) where
  id : String
  /-- The item that this one is nested in, if that takes part as well. -/
  owner : Option String
  bounds : Rect α
deriving Inhabited

/-- Whether one of two items is nested in the other one. -/
def Item.nestedWith (a b : Item α) : Bool := a.owner == some b.id || b.owner == some a.id

/-! ## Pushes -/

/-- The unit vector from one point to another; for points that coincide it points east. -/
def direction (p q : Point α) : α × α :=
  let dx := q.x - p.x
  let dy := q.y - p.y
  let length := Scalar.sqrt (dx * dx + dy * dy)
  if length ≤ epsilon then (1.0, 0.0) else (dx / length, dy / length)

/-- How far to go along an axis on which the direction advances by `d` to undo an overlap. -/
def needAlong (d overlap : α) : Option α :=
  if epsilon < Scalar.abs d then some (overlap / Scalar.abs d) else none

/-- How far to go in a direction until the overlap is undone on one of the axes. A direction that
advances on neither of them never gets there. -/
def need (direction overlap : α × α) : α :=
  match needAlong direction.1 overlap.1, needAlong direction.2 overlap.2 with
  | some x, some y => Scalar.min x y
  | some x, none => x
  | none, some y => y
  | none, none => 1.0 / 0.0

/-- The boxes of two items after a push, if they have to be pushed apart. -/
def push? (a b : Item α) : Option (Item α × Item α) :=
  if !a.bounds.intersects b.bounds || a.nestedWith b then none
  else
    let (dx, dy) := direction a.bounds.center b.bounds.center
    let half := need (dx, dy) (a.bounds.overlapExtent b.bounds) / 2.0 + epsilon
    some ({ a with bounds := a.bounds.translate (-dx * half) (-dy * half) },
      { b with bounds := b.bounds.translate (dx * half) (dy * half) })

/-! ## The pass -/

/-- An item after the pairs with all later ones, those later ones, and the number of pushes. -/
structure Sweep (α : Type) where
  item : Item α
  later : List (Item α)
  pushes : Nat

/-- Takes the pairs of one item with all later ones. -/
def sweep (a : Item α) : List (Item α) → Sweep α
  | [] => ⟨a, [], 0⟩
  | b :: rest => match push? a b with
    | none =>
      let s := sweep a rest
      { s with later := b :: s.later }
    | some (a', b') =>
      let s := sweep a' rest
      { s with later := b' :: s.later, pushes := s.pushes + 1 }

theorem length_sweep (a : Item α) (rest : List (Item α)) :
    (sweep a rest).later.length = rest.length := by
  fun_induction sweep a rest with
  | case1 => rfl
  | case2 _ _ _ _ _ ih => exact congrArg (· + 1) ih
  | case3 _ _ _ _ _ _ _ ih => exact congrArg (· + 1) ih

/-- One pass over all pairs, with the number of pushes. -/
def pass : List (Item α) → List (Item α) × Nat
  | [] => ([], 0)
  | a :: rest =>
    let s := sweep a rest
    let (later, pushes) := pass s.later
    (s.item :: later, s.pushes + pushes)
termination_by items => items.length
decreasing_by simp [length_sweep]

end Separation

end NestedLayout
