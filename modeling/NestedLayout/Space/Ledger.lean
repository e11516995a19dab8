import NestedLayout.Hierarchy.Basic
import NestedLayout.Space.Requirement

/-!
# The space ledger

`SpaceLedger` keeps, for each container, what it requires in pixels and what it was given in unit
space.

* **Requirements** are computed inside out (`calculate`). When one grows, `propagate` recomputes
  the ancestors up to the first that has enough room already.
* **Allotments** record the box of a container, the interior that its padding leaves, the regions
  that elements occupy there, and the corridors reserved for connectors.
-/

set_option autoImplicit false

namespace NestedLayout

/-- The boxes of containers in unit space. -/
abbrev Boxes (α : Type) := IdTable (Rect α)

/-- The region of an element inside its container. -/
structure OccupiedRegion (α : Type) where
  id : String
  bounds : Rect α
deriving Inhabited

/-- The room of a container. -/
structure Allotment (α : Type) where
  total : Rect α
  /-- What the padding leaves of the room. -/
  available : Rect α
  occupied : List (OccupiedRegion α)
  reserved : List (Rect α)
deriving Inhabited

structure SpaceLedger (α : Type) where
  spacing : Spacing α
  scale : WorldScale α
  requirements : IdTable (Requirement α)
  allotments : IdTable (Allotment α)

namespace SpaceLedger

variable {α : Type} [Scalar α]

/-- The ledger without entries, at the standard scale. -/
def new (spacing : Spacing α) : SpaceLedger α := ⟨spacing, .standard, .empty, .empty⟩

/-- A box without the padding, at the scale of the ledger. -/
def interior (l : SpaceLedger α) (box : Rect α) : Rect α :=
  box.deflate (l.scale.toUnitX l.spacing.padding) (l.scale.toUnitY l.spacing.padding)

/-- Half the gap between neighbours in unit space. -/
def halfGap (l : SpaceLedger α) : α × α :=
  (l.scale.toUnitX l.spacing.gap / 2.0, l.scale.toUnitY l.spacing.gap / 2.0)

/-! ## Requirements -/

/-- What a container needs, given what the ledger says about its children. -/
def requirementOf (l : SpaceLedger α) (h : Hierarchy) (extents : IdTable (Extent α)) (id : String) :
    Requirement α :=
  .compute l.spacing extents l.requirements (h.elements id) (h.children id)

/-- Records the requirement of a container. -/
def require (l : SpaceLedger α) (id : String) (r : Requirement α) : SpaceLedger α :=
  { l with requirements := l.requirements.insert id r }

/-- Computes the requirements of all containers, children before their parents. -/
def calculate (l : SpaceLedger α) (h : Hierarchy) (extents : IdTable (Extent α)) : SpaceLedger α :=
  h.postOrder.foldl (fun l id => l.require id (l.requirementOf h extents id))
    { l with requirements := .empty }

/-- The requirement of a container with room for one more footprint. -/
def grownRequirement? (l : SpaceLedger α) (id : String) (width height : α) :
    Option (Requirement α) :=
  (l.requirements.get? id).map fun r => r.grown l.spacing width height

/-- Whether a requirement exceeds the recorded one by more than the tolerance on some axis. -/
def exceeds (new : Requirement α) (recorded : Option (Requirement α)) : Bool :=
  match recorded with
  | none => true
  | some old =>
    decide (old.minWidth + Scalar.epsilon < new.minWidth) ||
      decide (old.minHeight + Scalar.epsilon < new.minHeight)

/-- Recomputes a container and its ancestors, at most as many as the first argument, up to the
first that does not have to grow; with the ids of those that grew. -/
def climb (h : Hierarchy) (extents : IdTable (Extent α)) :
    Nat → SpaceLedger α → Option String → SpaceLedger α × List String
  | 0, l, _ => (l, [])
  | _, l, none => (l, [])
  | n + 1, l, some id =>
    let r := l.requirementOf h extents id
    if exceeds r (l.requirements.get? id) then
      let (l, ids) := climb h extents n (l.require id r) (h.parent? id)
      (l, id :: ids)
    else (l, [])

/-- Records a requirement and lets the ancestors grow with it; with the ids of all containers whose
requirement was recorded anew. -/
def propagate (l : SpaceLedger α) (h : Hierarchy) (extents : IdTable (Extent α)) (id : String)
    (r : Requirement α) : SpaceLedger α × List String :=
  let (l, ids) := climb h extents (h.size + 1) (l.require id r) (h.parent? id)
  (l, id :: ids)

/-! ## Allotments -/

/-- Starts over with the current boxes at a new scale: nothing is occupied or reserved. -/
def restart (l : SpaceLedger α) (boxes : Boxes α) (scale : WorldScale α) : SpaceLedger α :=
  let l := { l with scale := scale }
  { l with allotments := boxes.map fun _ box => ⟨box, l.interior box, [], []⟩ }

/-- Gives a container a new box; its regions stay. -/
def updateBounds (l : SpaceLedger α) (id : String) (box : Rect α) : SpaceLedger α :=
  let old := l.allotments.get? id
  let allotment : Allotment α :=
    ⟨box, l.interior box, (old.map (·.occupied)).getD [], (old.map (·.reserved)).getD []⟩
  { l with allotments := l.allotments.insert id allotment }

/-- The regions with the one of an element set, at its place or at the end. -/
def occupy (element : String) (bounds : Rect α) : List (OccupiedRegion α) → List (OccupiedRegion α)
  | [] => [⟨element, bounds⟩]
  | r :: rest =>
    if r.id = element then ⟨r.id, bounds⟩ :: rest else r :: occupy element bounds rest

/-- Records the region of an element in a container that has an allotment. -/
def registerElement (l : SpaceLedger α) (container element : String) (bounds : Rect α) :
    SpaceLedger α :=
  { l with allotments := l.allotments.modify container fun a =>
      { a with occupied := occupy element bounds a.occupied } }

/-- The region that an element occupies in a container. -/
def region? (l : SpaceLedger α) (container element : String) : Option (Rect α) :=
  (l.allotments.get? container).bind fun a =>
    (a.occupied.find? fun r => r.id == element).map (·.bounds)

/-- Takes the region of an element out of a container. -/
def unregisterElement (l : SpaceLedger α) (container element : String) :
    SpaceLedger α × Option (Rect α) :=
  ({ l with allotments := l.allotments.modify container fun a =>
      { a with occupied := a.occupied.eraseP fun r => r.id == element } },
    l.region? container element)

/-- Reserves a corridor in a container that has an allotment. -/
def reserveRegion (l : SpaceLedger α) (container : String) (bounds : Rect α) : SpaceLedger α :=
  { l with allotments := l.allotments.modify container fun a =>
      { a with reserved := a.reserved ++ [bounds] } }

/-- Gives all corridors free. -/
def clearReserved (l : SpaceLedger α) : SpaceLedger α :=
  { l with allotments := l.allotments.map fun _ a => { a with reserved := [] } }

/-! ## Zones -/

/-- The boxes of the children of a container. -/
def childZones (h : Hierarchy) (boxes : Boxes α) (container : String) : List (Rect α) :=
  (h.children container).filterMap boxes.get?

/-- What a new element in a container has to keep clear of: occupied regions and child containers.
-/
def exclusionZones (l : SpaceLedger α) (h : Hierarchy) (boxes : Boxes α) (container : String) :
    List (Rect α) :=
  let occupied := match l.allotments.get? container with
    | some a => a.occupied.map (·.bounds)
    | none => []
  occupied ++ childZones h boxes container

end SpaceLedger

end NestedLayout
