import NestedLayout.Report
import NestedLayout.Space.Ledger

/-!
# Containment

Boxes are valid when each lies inside the padded interior of its parent and no two siblings overlap
without one containing the other.

* `Containment.validate` checks that, container by container in the order of their ids.
* `Containment.enforce` repairs what it can, parents first: a child that escapes is refitted into
  its parent, and overlapping siblings shrink until they are apart or the retries are used up.
  Every repair carries the whole subtree along.
-/

set_option autoImplicit false

namespace NestedLayout

/-- All pairs of a list, an earlier member with each later one. -/
def pairsOf {β : Type} : List β → List (β × β)
  | [] => []
  | a :: rest => rest.map (fun b => (a, b)) ++ pairsOf rest

namespace Containment

variable {α : Type} [Scalar α]

/-- Whether the boxes of two containers overlap and neither contains the other. A container
without a box overlaps nothing. -/
def partiallyOverlap (boxes : Boxes α) (a b : String) : Bool :=
  match boxes.get? a, boxes.get? b with
  | some x, some y => x.intersects y && !x.contains y && !y.contains x
  | _, _ => false

/-- Applies a map to a container and everything nested in it. -/
def mapSubtree (h : Hierarchy) (boxes : Boxes α) (root : String) (m : AxisMap α) : Boxes α :=
  let ids := h.subtree root
  boxes.map fun id box => if ids.contains id then m.applyRect box else box

/-! ## Validation -/

/-- The violation at one container, if there is one. -/
def check (boxes : Boxes α) (padding : α × α) (id : String) (c : Container) :
    Except ContainmentViolation Unit := do
  let some box := boxes.get? id
    | .error ⟨id, none, "container has no bounds"⟩
  match c.parent with
  | none => pure ()
  | some parent =>
    let some parentBox := boxes.get? parent
      | .error ⟨parent, none, "container has no bounds"⟩
    if !(parentBox.deflate padding.1 padding.2).contains box then
      .error ⟨id, some parent, "container escapes its parent's padded interior"⟩
  match (pairsOf c.children).find? fun p => partiallyOverlap boxes p.1 p.2 with
  | some (a, b) => .error ⟨a, some b, "sibling containers partially overlap"⟩
  | none => pure ()

/-- The first violation, in the order of the container ids. -/
def validate (h : Hierarchy) (boxes : Boxes α) (padding : α × α) :
    Except ContainmentViolation Unit :=
  h.containers.entries.forM fun e => check boxes padding e.1 e.2

/-! ## Enforcement -/

/-- Boxes under repair, with the number of repairs. -/
structure Repair (α : Type) where
  boxes : Boxes α
  corrections : Nat

/-- A repair that gave up, with the boxes as it left them. -/
structure FailedRepair (α : Type) where
  boxes : Boxes α
  violation : ContainmentViolation

/-- Carries a subtree along when its root gets a new box. -/
def Repair.refit (h : Hierarchy) (r : Repair α) (id : String) (old new : Rect α) : Repair α :=
  { r with boxes := mapSubtree h r.boxes id (.between old new) }

/-- Fits a child that escapes into the interior of its parent: no larger than it, and moved by as
little as possible. -/
def pullInside (h : Hierarchy) (inner : Rect α) (r : Repair α) (child : String) : Repair α :=
  match r.boxes.get? child with
  | none => r
  | some box =>
    if inner.contains box then r
    else
      let fitted := (Rect.fromCenter box.center (Scalar.min box.width inner.width)
        (Scalar.min box.height inner.height)).clampWithin inner
      { r.refit h child box fitted with corrections := r.corrections + 1 }

/-- Shrinks a container about its center. -/
def shrink (h : Hierarchy) (r : Repair α) (id : String) : Repair α :=
  match r.boxes.get? id with
  | none => r
  | some box => r.refit h id box (box.scaleAboutCenter 0.9 0.9)

/-- Shrinks two siblings, at most as often as the first argument, until they are apart or one
contains the other. -/
def separate (h : Hierarchy) (a b : String) : Nat → Repair α → Except (FailedRepair α) (Repair α)
  | n, r =>
    if partiallyOverlap r.boxes a b then
      match n with
      | 0 => .error ⟨r.boxes, ⟨a, some b, "sibling containers overlap after bounded retries"⟩⟩
      | n + 1 =>
        let shrunk := shrink h (shrink h r a) b
        separate h a b n { shrunk with corrections := r.corrections + 1 }
    else .ok r

/-- Repairs the children of one container. -/
def enforceAt (h : Hierarchy) (padding : α × α) (retries : Nat) (r : Repair α) (parent : String) :
    Except (FailedRepair α) (Repair α) :=
  match r.boxes.get? parent with
  | none => .ok r
  | some box =>
    let children := h.children parent
    let inside := children.foldl (pullInside h (box.deflate padding.1 padding.2)) r
    (pairsOf children).foldlM (fun r p => separate h p.1 p.2 retries r) inside

/-- Repairs all boxes, parents before children. -/
def enforce (h : Hierarchy) (boxes : Boxes α) (padding : α × α) (retries : Nat) :
    Except (FailedRepair α) (Repair α) :=
  h.preOrder.foldlM (enforceAt h padding retries) ⟨boxes, 0⟩

end Containment

end NestedLayout
