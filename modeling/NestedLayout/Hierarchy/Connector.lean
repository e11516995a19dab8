import NestedLayout.Hierarchy.Extract

/-!
# Connectors

`Connector.derive` lists the connectors of a diagram: one for every explicit connection, then one
for every pair of elements of which at least one connects to the other, unless the pair is joined
already. Every connector gets an id of its own, a hub among its endpoints, and the innermost
container that encloses them all.
-/

set_option autoImplicit false

namespace NestedLayout

structure Connector where
  id : String
  endpoints : List String
  /-- The endpoint around which the hooks are distributed. -/
  hub : String
  /-- The innermost container that encloses all endpoints. -/
  area : String
deriving DecidableEq, Inhabited

namespace Connector

/-- The endpoints other than the hub. -/
def others (c : Connector) : List String := c.endpoints.filter fun id => id != c.hub

/-- Whether the connector joins these two elements and no others. -/
def joins (c : Connector) (a b : String) : Bool := c.endpoints == [a, b] || c.endpoints == [b, a]

/-! ## Ids -/

/-- The base itself if it is free, else the first of `base-2`, `base-3`, … that is. One candidate
more than there are used ids is enough. -/
def freshId (used : List String) (base : String) : String :=
  if used.contains base then
    let candidates := (List.range (used.length + 1)).map fun n => base ++ "-" ++ toString (n + 2)
    (candidates.find? fun id => !used.contains id).getD base
  else base

/-! ## Hubs and areas -/

def isPredicate (d : Diagram) (id : String) : Bool :=
  match d.elements.get? id with
  | some e => e.kind == .predicate
  | none => false

/-- The first predicate among the endpoints, or else the first of them. -/
def hubOf (d : Diagram) (endpoints : List String) : String :=
  (endpoints.find? (isPredicate d)).getD (endpoints.headD "")

/-- The innermost container that encloses all endpoints. -/
def enclosingArea (h : Hierarchy) (endpoints : List String) : String :=
  match endpoints.filterMap h.owners.get? with
  | [] => h.root
  | first :: rest => rest.foldl h.lowestCommonAncestor first

/-- Adds a connector under a fresh id. -/
def add (d : Diagram) (h : Hierarchy) (found : List Connector) (base : String)
    (endpoints : List String) : List Connector :=
  found ++ [{ id := freshId (found.map (·.id)) base
              endpoints := endpoints
              hub := hubOf d endpoints
              area := enclosingArea h endpoints }]

/-! ## Derivation -/

/-- The distinct endpoints of a connection, in the order of their first occurrence. -/
def distinctEndpoints (d : Diagram) (label : String) (endpoints : List String) :
    Except DiagramError (List String) :=
  endpoints.foldlM (fun found id =>
    if !d.elements.contains id then .error (.unknownEndpoint label id)
    else .ok (Diagram.appendNew found id)) []

/-- Adds the connector of an explicit connection, the `index`-th one. -/
def addExplicit (d : Diagram) (h : Hierarchy) (found : List Connector)
    (connection : Diagram.Connection × Nat) : Except DiagramError (List Connector) := do
  let label := connection.1.id.getD ("connector-" ++ toString (connection.2 + 1))
  let endpoints ← distinctEndpoints d label connection.1.endpoints
  if endpoints.length < 2 then .error (.degenerateConnector label)
  else return add d h found label endpoints

/-- Adds the connector of two elements of which the first connects to the second. -/
def addPair (d : Diagram) (h : Hierarchy) (found : List Connector) (pair : String × String) :
    Except DiagramError (List Connector) :=
  let (source, target) := pair
  if !d.elements.contains target then .error (.unknownEndpoint source target)
  else if target = source then .error (.degenerateConnector source)
  else if found.any fun c => c.joins source target then .ok found
  else
    let (hub, other) :=
      if isPredicate d source || !isPredicate d target then (source, target) else (target, source)
    .ok (add d h found (hub ++ "--" ++ other) [hub, other])

/-- Every element with every element it connects to, in order. -/
def pairs (d : Diagram) : List (String × String) :=
  d.elements.entries.flatMap fun e => e.2.connections.map fun target => (e.1, target)

/-- The connectors of a diagram. -/
def derive (d : Diagram) (h : Hierarchy) : Except DiagramError (List Connector) := do
  let explicit ← d.connections.zipIdx.foldlM (addExplicit d h) []
  (pairs d).foldlM (addPair d h) explicit

end Connector

end NestedLayout
