/-!
# Errors in a diagram

What can be wrong with a diagram: its areas form no tree, an id is used twice or is not known, or a
connector has too few ends. `DiagramError.message` is the text of an error, `DiagramError.ids` are
the ids that it names.
-/

set_option autoImplicit false

namespace NestedLayout

inductive DiagramError where
  | missingRoot (root : String)
  | rootHasParent (root parent : String)
  | duplicateId (id : String)
  | multipleOwners (item first second : String)
  | unknownItem (container item : String)
  | unknownParent (container parent : String)
  | conflictingParent (container declared owner : String)
  | orphanContainer (container : String)
  | orphanElement (element : String)
  /-- The ids of the containers from one of them up to itself. -/
  | cycle (ids : List String)
  | unknownEndpoint (source target : String)
  | degenerateConnector (connector : String)
deriving DecidableEq

namespace DiagramError

/-- An id in the text of an error. -/
def quoted (id : String) : String := "`" ++ id ++ "`"

def message : DiagramError → String
  | missingRoot root => "root container " ++ quoted root ++ " is not declared"
  | rootHasParent root parent =>
    "root container " ++ quoted root ++ " declares parent " ++ quoted parent
  | duplicateId id => "id " ++ quoted id ++ " is used by both a container and an element"
  | multipleOwners item first second =>
    "item " ++ quoted item ++ " is owned by both " ++ quoted first ++ " and " ++ quoted second
  | unknownItem container item =>
    "area " ++ quoted container ++ " lists unknown item " ++ quoted item
  | unknownParent container parent =>
    "container " ++ quoted container ++ " declares unknown parent " ++ quoted parent
  | conflictingParent container declared owner =>
    "container " ++ quoted container ++ " declares parent " ++ quoted declared ++
      " but is owned by " ++ quoted owner
  | orphanContainer container => "container " ++ quoted container ++ " has no parent area"
  | orphanElement element => "element " ++ quoted element ++ " is not owned by any area"
  | cycle ids => "container parent chain is cyclic: " ++ String.intercalate " -> " ids
  | unknownEndpoint source target =>
    quoted source ++ " connects to unknown element " ++ quoted target
  | degenerateConnector connector =>
    "connector " ++ quoted connector ++ " needs at least two distinct endpoints"

def ids : DiagramError → List String
  | missingRoot root => [root]
  | rootHasParent root parent => [root, parent]
  | duplicateId id => [id]
  | multipleOwners item first second => [item, first, second]
  | unknownItem container item => [container, item]
  | unknownParent container parent => [container, parent]
  | conflictingParent container declared owner => [container, declared, owner]
  | orphanContainer container => [container]
  | orphanElement element => [element]
  | cycle ids => ids
  | unknownEndpoint source target => [source, target]
  | degenerateConnector connector => [connector]

end DiagramError

end NestedLayout
