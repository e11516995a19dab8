import NestedLayout.Geometry.Rect

/-!
# Polylines

The paths of connectors.

* `Polyline.simplify` drops legs of no length and inner points on a straight run, until none is
  left. The ends and the pinned points survive.
* `length`, `bends` and `isRectilinear` measure a path; `corridors` are the rectangles around its
  legs.
-/

set_option autoImplicit false

namespace NestedLayout

namespace Polyline

open Scalar (epsilon)

variable {α : Type} [Scalar α]

/-! ## Simplification -/

def isPinned (p : Point α) (pinned : List (Point α)) : Bool := pinned.any fun q => q.near p

/-- Whether the turn from `ab` to `bc` is too flat to count. -/
def collinear (a b c : Point α) : Bool :=
  let cross := (b.x - a.x) * (c.y - b.y) - (b.y - a.y) * (c.x - b.x)
  decide (Scalar.abs cross ≤ 1e-6)

/-- The points after `last` without those that repeat the point before them. A repeated final point
replaces the one that it repeats, so that the end is kept exactly. -/
def dedupFrom (last : Point α) : List (Point α) → List (Point α)
  | [] => [last]
  | [p] => if last.near p then [p] else [last, p]
  | p :: q :: rest =>
    if last.near p then dedupFrom last (q :: rest) else last :: dedupFrom p (q :: rest)

/-- A path without legs of no length, but with at least two points. -/
def dedup : List (Point α) → List (Point α)
  | [] => []
  | p :: rest => match dedupFrom p rest with
    | [q] => [q, (p :: rest).getLast (List.cons_ne_nil _ _)]
    | path => path

/-- One sweep over the points after `prev`: an inner point goes when it is not pinned and lies
straight between the last kept point and its successor. -/
def sweepFrom (pinned : List (Point α)) (prev : Point α) : List (Point α) → List (Point α)
  | [] => []
  | [p] => [p]
  | p :: q :: rest =>
    if !isPinned p pinned && collinear prev p q then
      sweepFrom pinned prev (q :: rest)
    else
      p :: sweepFrom pinned p (q :: rest)

/-- One sweep over a path, which keeps both ends. -/
def sweep (pinned : List (Point α)) : List (Point α) → List (Point α)
  | [] => []
  | p :: rest => p :: sweepFrom pinned p rest

theorem length_sweepFrom_le (pinned : List (Point α)) (prev : Point α) (path : List (Point α)) :
    (sweepFrom pinned prev path).length ≤ path.length := by
  fun_induction sweepFrom pinned prev path with
  | case1 => simp
  | case2 => simp
  | case3 prev p q rest _ ih =>
    simp only [List.length_cons] at ih ⊢
    omega
  | case4 prev p q rest _ ih =>
    simp only [List.length_cons] at ih ⊢
    omega

theorem length_sweep_le (pinned : List (Point α)) (path : List (Point α)) :
    (sweep pinned path).length ≤ path.length := by
  cases path with
  | nil => simp [sweep]
  | cons p rest => simpa [sweep] using length_sweepFrom_le pinned p rest

/-- Sweeps until nothing goes or two points are left. -/
def settle (pinned path : List (Point α)) : List (Point α) :=
  if path.length ≤ 2 then path
  else
    let next := sweep pinned path
    if next.length < path.length then settle pinned next else next
termination_by path.length

/-- A path with the same ends and the same pinned points, without legs of no length and without
inner points on a straight run. -/
def simplify (path pinned : List (Point α)) : List (Point α) :=
  if path.length ≤ 2 then path else settle pinned (dedup path)

/-! ## Measures -/

/-- The legs of a path: its points paired with their successors. -/
def legs (path : List (Point α)) : List (Point α × Point α) := path.zip path.tail

/-- The number of inner points. -/
def bends (path : List (Point α)) : Nat := path.length - 2

def length (path : List (Point α)) : α :=
  Scalar.sum ((legs path).map fun leg => leg.1.distance leg.2)

/-- Whether every leg is horizontal or vertical, within the tolerance. -/
def isRectilinear (path : List (Point α)) : Bool :=
  (legs path).all fun leg =>
    decide (Scalar.abs (leg.1.x - leg.2.x) ≤ epsilon) ||
      decide (Scalar.abs (leg.1.y - leg.2.y) ≤ epsilon)

/-- The rectangles around the legs of a path, with half their width across and up and down. -/
def corridors (path : List (Point α)) (half : α × α) : List (Rect α) :=
  (legs path).filterMap fun leg =>
    (Rect.ofPoints? [leg.1, leg.2]).map fun r => r.inflate half.1 half.2

end Polyline

end NestedLayout
