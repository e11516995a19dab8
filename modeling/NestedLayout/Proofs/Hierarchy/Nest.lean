import NestedLayout.Proofs.Hierarchy.Walk

/-!
# Nests

`Nest` is a container tree as a value: a container with its elements and the nests of its children.
What is computed along a tree is defined by recursion on its nest.

* `IsTree.exists_nest`: every container of a tree has a nest that `Describes` what the hierarchy
  says about it and everything below it.
-/

set_option autoImplicit false

namespace NestedLayout

/-- A container with its elements and what is nested in it. -/
inductive Nest where
  | node (id : String) (elements : List String) (nested : List Nest)
deriving Inhabited

def Nest.id : Nest → String
  | node id _ _ => id

/-- The nest says of its container, and of all below it, what the hierarchy says. -/
inductive Nest.Describes (h : Hierarchy) : Nest → Prop
  | node {id : String} {elements : List String} {nested : List Nest} :
      h.elements id = elements → h.children id = nested.map Nest.id →
      (∀ n ∈ nested, n.Describes h) → Describes h (node id elements nested)

namespace Hierarchy.IsTree

variable {h : Hierarchy} (t : h.IsTree)
include t

/-- **Every container of a tree has a nest.** -/
theorem exists_nest {id : String} (hid : h.containers.contains id = true) :
    ∃ n : Nest, n.id = id ∧ n.Describes h := by
  -- the way down is no longer than the number of levels that are left
  generalize hk : h.size - h.depth id = k
  induction k generalizing id with
  | zero =>
    have := t.depth_lt_size hid
    omega
  | succ k ih =>
    have hchild : ∀ c ∈ h.children id, ∃ n : Nest, n.id = c ∧ n.Describes h := fun c hc => by
      have hp := t.mem_children.1 hc
      have := t.depthChild hp
      exact ih (known_of_parent hp) (by omega)
    choose! nest hname hdescribes using hchild
    refine ⟨.node id (h.elements id) ((h.children id).map nest), rfl, .node rfl ?_ fun n hn => ?_⟩
    · rw [List.map_map]
      exact ((List.map_congr_left hname).trans (List.map_id _)).symm
    · obtain ⟨c, hc, rfl⟩ := List.mem_map.1 hn
      exact hdescribes c hc

end Hierarchy.IsTree

end NestedLayout
