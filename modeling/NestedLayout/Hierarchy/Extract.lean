import NestedLayout.Diagram.Basic
import NestedLayout.Diagram.Error
import NestedLayout.Hierarchy.Basic

/-!
# The tree of a diagram

`Hierarchy.extract` turns the areas of a diagram into a container tree, or reports the first thing
that keeps them from being one. The checks run one after the other, each over all areas or elements
in the order of their ids:

1. the root is declared, and no id names both an area and an element;
2. areas list known items other than themselves, and no item is listed by two areas
   (`listedOwners`);
3. the root has no parent, and every other area has one, listed or declared, without conflict
   (`parents`);
4. every element is listed by an area;
5. the chain of parents of every area ends at the root (`depths`).
-/

set_option autoImplicit false

namespace NestedLayout

namespace Hierarchy

open Diagram (Area)

/-! ## Owners -/

/-- Records that an area lists an item. -/
def recordOwner (d : Diagram) (owners : IdTable String) (area item : String) :
    Except DiagramError (IdTable String) :=
  if !d.areas.contains item && !d.elements.contains item then
    .error (.unknownItem area item)
  else if item = area then .error (.cycle [item, item])
  else match owners.get? item with
    | some owner => if owner = area then .ok owners else .error (.multipleOwners item owner area)
    | none => .ok (owners.insert item area)

/-- Every area with every item that it lists, in order. -/
def listings (d : Diagram) : List (String × String) :=
  d.areas.entries.flatMap fun e => e.2.items.map fun item => (e.1, item)

/-- The area that lists each item. -/
def listedOwners (d : Diagram) : Except DiagramError (IdTable String) :=
  (listings d).foldlM (fun owners l => recordOwner d owners l.1 l.2) .empty

/-! ## Parents -/

/-- The parent of an area other than the root: the area that lists it, or else the one that it
declares. -/
def parentOf (d : Diagram) (owners : IdTable String) (id : String) (area : Area) :
    Except DiagramError String :=
  match owners.get? id, area.parent with
  | some owner, some declared =>
    if owner = declared then .ok owner else .error (.conflictingParent id declared owner)
  | some owner, none => .ok owner
  | none, some declared =>
    if d.areas.contains declared then .ok declared else .error (.unknownParent id declared)
  | none, none => .error (.orphanContainer id)

/-- The areas other than the root. -/
def inner (d : Diagram) : List (String × Area) := d.areas.entries.filter fun e => e.1 != d.root

/-- The parent of every area other than the root. -/
def parents (d : Diagram) (owners : IdTable String) : Except DiagramError (IdTable String) :=
  (inner d).foldlM (fun parents e => do
    let parent ← parentOf d owners e.1 e.2
    return parents.insert e.1 parent) .empty

/-- The areas that no area lists and that declare the given one as their parent. -/
def declaredChildren (d : Diagram) (owners : IdTable String) (id : String) : List String :=
  ((inner d).filter fun e => !owners.contains e.1 && e.2.parent == some id).map (·.1)

/-! ## Elements and depths -/

/-- The area of every element. -/
def elementOwners (d : Diagram) (owners : IdTable String) :
    Except DiagramError (IdTable String) :=
  d.elements.keys.foldlM (fun found id =>
    match owners.get? id with
    | some owner => .ok (found.insert id owner)
    | none => .error (.orphanElement id)) .empty

/-- The way from a container up to the first one whose depth is known: the containers on it, after
those in `passed`, and that depth. A container that comes up again closes a cycle. -/
def climb (parents : IdTable String) (depths : IdTable Nat) :
    Nat → List String → String → Except DiagramError (List String × Nat)
  | 0, passed, id => .error (.cycle (passed ++ [id]))
  | n + 1, passed, id =>
    match depths.get? id with
    | some depth => .ok (passed, depth)
    | none =>
      if passed.contains id then
        .error (.cycle ((passed.dropWhile fun other => other != id) ++ [id]))
      else match parents.get? id with
        | some parent => climb parents depths n (passed ++ [id]) parent
        | none => .error (.orphanContainer id)

/-- The depths with those of the containers on a way up, from the top down, and the depth of the
lowest one. -/
def recordWay (depths : IdTable Nat) (top : Nat) (way : List String) : IdTable Nat × Nat :=
  way.foldr (fun id t => (t.1.insert id (t.2 + 1), t.2 + 1)) (depths, top)

/-- Adds the depth of a container, and of those above it that are not known yet. A way longer than
the number of containers repeats one of them. -/
def addDepth (d : Diagram) (parents : IdTable String) (depths : IdTable Nat) (id : String) :
    Except DiagramError (IdTable Nat) := do
  let (way, top) ← climb parents depths (d.areas.size + 1) [] id
  return (recordWay depths top way).1

/-- The depth of every area. -/
def depths (d : Diagram) (parents : IdTable String) : Except DiagramError (IdTable Nat) :=
  d.areas.keys.foldlM (addDepth d parents) (Table.empty.insert d.root 0)

/-! ## The tree -/

/-- The container of an area. An item that is listed more than once counts once. -/
def node (d : Diagram) (owners parents : IdTable String) (depths : IdTable Nat) (id : String)
    (area : Area) : Container :=
  let items := area.items.eraseDups
  { id := id
    parent := parents.get? id
    children := items.filter d.areas.contains ++ declaredChildren d owners id
    elements := items.filter d.elements.contains
    depth := (depths.get? id).getD 0 }

/-- The container tree of a diagram. -/
def extract (d : Diagram) : Except DiagramError Hierarchy := do
  let some rootArea := d.areas.get? d.root
    | .error (.missingRoot d.root)
  match d.areas.keys.find? d.elements.contains with
  | some id => .error (.duplicateId id)
  | none => pure ()
  let owners ← listedOwners d
  match (owners.get? d.root).or rootArea.parent with
  | some parent => .error (.rootHasParent d.root parent)
  | none => pure ()
  let parents ← parents d owners
  let elementOwners ← elementOwners d owners
  let depths ← depths d parents
  return { root := d.root
           containers := d.areas.map (node d owners parents depths)
           owners := elementOwners }

end Hierarchy

end NestedLayout
