import NestedLayout.Table

/-!
# Diagrams

The input of a layout: a tree of areas, the elements in them and the connectors between elements.
A diagram is only what somebody wrote down; whether its areas form a tree is a question for
`Hierarchy.extract`.

`Diagram.Step` lists the ways to build a diagram piece by piece, `Diagram.apply` takes one.
-/

set_option autoImplicit false

namespace NestedLayout

inductive ElementKind where
  | vertex
  | predicate
deriving DecidableEq, Inhabited

namespace Diagram

/-- An area: the parent it declares, if any, and what it lists as its own, elements and areas. The
list decides; a declared parent has to agree with it. -/
structure Area where
  parent : Option String
  items : List String
deriving DecidableEq, Inhabited

/-- An element, and the ids of the elements it connects to. -/
structure Element where
  kind : ElementKind
  text : String
  connections : List String
deriving DecidableEq, Inhabited

/-- A connector between two or more elements. -/
structure Connection where
  id : Option String
  endpoints : List String
deriving DecidableEq, Inhabited

end Diagram

structure Diagram where
  root : String
  areas : IdTable Diagram.Area
  elements : IdTable Diagram.Element
  connections : List Diagram.Connection
deriving Inhabited

namespace Diagram

/-! ## Building a diagram -/

/-- The diagram of an empty root area. -/
def withRoot (root : String) : Diagram := ⟨root, Table.empty.insert root ⟨none, []⟩, .empty, []⟩

/-- The list with the item at its end, unless it is in the list already. -/
def appendNew (items : List String) (item : String) : List String :=
  if items.contains item then items else items ++ [item]

/-- Lists an item in an area; an area that does not exist yet is made. -/
def listItem (d : Diagram) (area item : String) : Diagram :=
  let spec := (d.areas.get? area).getD ⟨none, []⟩
  { d with areas := d.areas.insert area { spec with items := appendNew spec.items item } }

/-- Declares an area with its parent and lists it there. -/
def addArea (d : Diagram) (id parent : String) : Diagram :=
  let spec := (d.areas.get? id).getD ⟨none, []⟩
  { d with areas := d.areas.insert id { spec with parent := some parent } }.listItem parent id

/-- Declares an element and lists it in an area. An element that exists keeps its connections. -/
def addElement (d : Diagram) (area id : String) (kind : ElementKind) (text : String) : Diagram :=
  let connections := ((d.elements.get? id).map (·.connections)).getD []
  { d with elements := d.elements.insert id ⟨kind, text, connections⟩ }.listItem area id

/-- Records a connection at an element, once. -/
def connect (d : Diagram) (source target : String) : Diagram :=
  { d with elements := d.elements.modify source fun e =>
      { e with connections := appendNew e.connections target } }

/-- Adds a connector between elements. -/
def addConnection (d : Diagram) (id : Option String) (endpoints : List String) : Diagram :=
  { d with connections := d.connections ++ [⟨id, endpoints⟩] }

/-- A way to extend a diagram. -/
inductive Step where
  | area (id parent : String)
  | vertex (area id : String) (name : Option String)
  | predicate (area id : String) (text : String)
  | connect (source target : String)
  | connection (id : Option String) (endpoints : List String)

/-- Takes one step. A vertex without a name has the empty text. -/
def apply (d : Diagram) : Step → Diagram
  | .area id parent => d.addArea id parent
  | .vertex area id name => d.addElement area id .vertex (name.getD "")
  | .predicate area id text => d.addElement area id .predicate text
  | .connect source target => d.connect source target
  | .connection id endpoints => d.addConnection id endpoints

/-- The diagram that a list of steps builds on an empty root area. -/
def build (root : String) (steps : List Step) : Diagram := steps.foldl apply (withRoot root)

end Diagram

end NestedLayout
