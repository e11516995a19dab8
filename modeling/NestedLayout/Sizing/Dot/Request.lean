import NestedLayout.Number.Text
import NestedLayout.Sizing.Plan

/-!
# Requests to the external tool

A request describes the container tree in the DOT language: a cluster for every container but the
root, nested like the tree, a box of fixed size for every element, and an edge from the hub of each
connector to its other endpoints. A cluster without contents holds an invisible placeholder, which
keeps it at its least size.

A request is a list of statements, one a line (`DotRequest.text`), with the tables that say which
container a cluster stands for and which element a node.
-/

set_option autoImplicit false

namespace NestedLayout

/-- A line of a request. Sizes are in inches. -/
inductive DotStatement (α : Type) where
  /-- The start of a cluster. -/
  | opening (cluster : Nat)
  /-- The margin of the cluster, in pixels. -/
  | margin (padding : α)
  /-- The invisible node of a cluster without contents. -/
  | placeholder (cluster : Nat) (width height : α)
  | node (index : Nat) (width height : α)
  /-- The end of a cluster. -/
  | closing
  | edge (source target : Nat)

structure DotRequest (α : Type) where
  statements : List (DotStatement α)
  /-- The container of each cluster. -/
  clusters : List String
  /-- The element of each node. -/
  nodes : List String

namespace DotRequest

variable {α : Type} [Scalar α]

/-- A length in inches, at 72 pixels to the inch and not below a hundredth. -/
def inches (px : α) : α := Scalar.atLeast (px / 72.0) 0.01

/-- The line of an element, if it has a node. -/
def nodeStatement (request : SizingRequest α) (nodes : List String) (id : String) :
    Option (DotStatement α) :=
  (nodes.idxOf? id).map fun index =>
    let size := match request.extents.get? id with
      | some e => (e.totalWidth, e.totalHeight)
      | none =>
        let diameter := request.settings.measure.vertexDiameter
        (diameter, diameter)
    .node index (inches size.1) (inches size.2)

/-- The lines at the start of a cluster. -/
def clusterHead (request : SizingRequest α) (c : Container) (cluster : Nat) :
    List (DotStatement α) :=
  let spacing := request.settings.spacing
  let size := match request.ledger.requirements.get? c.id with
    | some r => (r.minWidth, r.minHeight)
    | none => (spacing.minWidth, spacing.minHeight)
  let filling :=
    if c.elements.isEmpty && c.children.isEmpty then
      [.placeholder cluster (inches (size.1 - spacing.padding * 2.0))
        (inches (size.2 - spacing.padding * 2.0))]
    else []
  [.opening cluster, .margin spacing.padding] ++ filling

/-- The lines of a container and of what is nested in it, to the given number of levels. -/
def containerStatements (request : SizingRequest α) (clusters nodes : List String) :
    Nat → String → List (DotStatement α)
  | 0, _ => []
  | n + 1, id => match request.hierarchy.container? id with
    | none => []
    | some c =>
      let body := c.elements.filterMap (nodeStatement request nodes) ++
        c.children.flatMap (containerStatements request clusters nodes n)
      if c.parent.isNone then body
      else clusterHead request c (clusters.idxOf id) ++ body ++ [.closing]

/-- The edges of a connector, from its hub to its other endpoints. -/
def edges (nodes : List String) (c : Connector) : List (DotStatement α) :=
  match nodes.idxOf? c.hub with
  | none => []
  | some hub => (c.others.filterMap nodes.idxOf?).map fun target => .edge hub target

/-- The request for a sizing. Clusters are numbered in pre-order, nodes in the order of the element
ids. -/
def build (request : SizingRequest α) : DotRequest α :=
  let h := request.hierarchy
  let clusters := h.preOrder.filter fun id => !h.isRoot id
  let nodes := h.owners.keys
  { statements := containerStatements request clusters nodes (h.size + 1) h.root ++
      request.connectors.flatMap (edges nodes)
    clusters := clusters
    nodes := nodes }

end DotRequest

/-! ## Text -/

namespace DotStatement

/-- Width and height with four places. -/
def sizeText (width height : Float32) : String :=
  "width=" ++ fixedText width 4 ++ ", height=" ++ fixedText height 4

/-- A line of a request. -/
def text : DotStatement Float32 → String
  | opening cluster => "  subgraph cluster_" ++ toString cluster ++ " \x7b"
  | margin padding => "    graph [margin=" ++ fixedText padding 2 ++ "];"
  | placeholder cluster width height =>
    "    e" ++ toString cluster ++ " [style=invis, " ++ sizeText width height ++ "];"
  | node index width height =>
    "    n" ++ toString index ++ " [" ++ sizeText width height ++ "];"
  | closing => "  \x7d"
  | edge source target => "  n" ++ toString source ++ " -> n" ++ toString target ++ ";"

end DotStatement

/-- The text of a request: its statements between a fixed head and a closing brace. -/
def DotRequest.text (r : DotRequest Float32) : String :=
  let head := ["digraph layout \x7b",
    "  graph [compound=true, margin=0, nodesep=0.2, ranksep=0.3];",
    "  node [shape=box, fixedsize=true, label=\"\"];"]
  String.join ((head ++ r.statements.map DotStatement.text ++ ["\x7d"]).map (· ++ "\n"))

end NestedLayout
