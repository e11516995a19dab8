import NestedLayout.Diagram.Basic
import Mathlib.Logic.Relation

/-!
# Well-formed diagrams

What a diagram has to be like for its areas to form a tree, said without any check: in terms of
what each area lists (`Diagram.Lists`) and declares (`Diagram.Declares`). The parent of an item is
the area that lists it, or else the one that it declares (`Diagram.ParentIs`).
-/

set_option autoImplicit false

namespace NestedLayout.Diagram

/-- The area lists the item. -/
def Lists (d : Diagram) (area item : String) : Prop :=
  ∃ a, d.areas.get? area = some a ∧ item ∈ a.items

/-- The area declares the other one as its parent. -/
def Declares (d : Diagram) (area parent : String) : Prop :=
  ∃ a, d.areas.get? area = some a ∧ a.parent = some parent

/-- The parent of an item: the area that lists it, or else the one that it declares. -/
def ParentIs (d : Diagram) (item parent : String) : Prop :=
  d.Lists parent item ∨ (∀ area, ¬ d.Lists area item) ∧ d.Declares item parent

/-- The areas of the diagram form a tree below its root, with every element in one of them. -/
structure WellFormed (d : Diagram) : Prop where
  rootDeclared : d.areas.contains d.root = true
  idsApart : ∀ id, d.areas.contains id = true → d.elements.contains id = false
  itemsKnown : ∀ area item, d.Lists area item →
    d.areas.contains item = true ∨ d.elements.contains item = true
  noSelf : ∀ area, ¬ d.Lists area area
  oneOwner : ∀ item a b, d.Lists a item → d.Lists b item → a = b
  rootUnlisted : ∀ area, ¬ d.Lists area d.root
  rootUndeclared : ∀ parent, ¬ d.Declares d.root parent
  placed : ∀ id, d.areas.contains id = true → id ≠ d.root →
    (∃ area, d.Lists area id) ∨ ∃ parent, d.Declares id parent ∧ d.areas.contains parent = true
  agree : ∀ id owner parent, id ≠ d.root → d.Lists owner id → d.Declares id parent →
    owner = parent
  owned : ∀ e, d.elements.contains e = true → ∃ area, d.Lists area e
  rooted : ∀ id, d.areas.contains id = true → Relation.ReflTransGen d.ParentIs id d.root

end NestedLayout.Diagram
