import NestedLayout.Proofs.Hierarchy.Walk

/-!
# The container tree of a diagram

`Hierarchy.ShapeOf` lists what every later step takes for granted about the tree of a diagram: its
containers are the areas, parents and children point at each other, every element is listed once,
and the chain of parents of a container is as long as its depth says.

* `climbs_root_iff`: from a container of a tree the root is reached in exactly its depth.
* `extract_shapeOf`: this is the shape of every tree that `Hierarchy.extract` returns.
-/

set_option autoImplicit false

namespace NestedLayout.Hierarchy

open Diagram (Lists Declares)

/-- So many steps from a container to its parent, and on to the parent of that, lead to the other
container. -/
inductive Climbs (h : Hierarchy) : Nat → String → String → Prop
  | stay (id : String) : Climbs h 0 id id
  | up {n : Nat} {id parent top : String} : h.parent? id = some parent →
      Climbs h n parent top → Climbs h (n + 1) id top

/-- The shape of the container tree of a diagram. -/
structure ShapeOf (d : Diagram) (h : Hierarchy) : Prop where
  root : h.root = d.root
  /-- The containers are the areas of the diagram. -/
  containers : h.containers.keys = d.areas.keys
  depthRoot : h.depth h.root = 0
  /-- Only the root has no parent. -/
  parentless : ∀ id, h.containers.contains id = true → (h.parent? id = none ↔ id = h.root)
  /-- A parent is a container, one level up. -/
  parent : ∀ id p, h.parent? id = some p →
    h.containers.contains p = true ∧ h.depth id = h.depth p + 1
  /-- A container stands once among the children of its parent, and nowhere else. -/
  children : ∀ p id, (h.children p).count id = if h.parent? id = some p then 1 else 0
  /-- First the children that the area lists, in its order, then those that only declare it. -/
  childOrder : ∀ p area, d.areas.get? p = some area → ∃ declared,
    h.children p = area.items.eraseDups.filter d.areas.contains ++ declared ∧
      ∀ c ∈ declared, Declares d c p ∧ ∀ a, ¬ Lists d a c
  /-- An element stands once among the elements of its owner, and nowhere else. -/
  elements : ∀ e, d.elements.contains e = true → ∃ owner, h.owners.get? e = some owner ∧
    h.containers.contains owner = true ∧
      ∀ p, (h.elements p).count e = if p = owner then 1 else 0
  /-- Nothing else is listed as an element. -/
  onlyElements : ∀ p, ∀ e ∈ h.elements p, d.elements.contains e = true
  /-- The chain of parents reaches the root in as many steps as the depth says. -/
  climbs : ∀ id, h.containers.contains id = true → ∀ n, h.Climbs n id h.root ↔ n = h.depth id

/-! ## The way to the root -/

section
variable {h : Hierarchy}

/-- Every step up is a level up. -/
theorem Climbs.depth_eq (t : h.IsTree) {n : Nat} {id top : String} (hc : h.Climbs n id top) :
    h.depth id = h.depth top + n := by
  induction hc with
  | stay => rfl
  | up hp _ ih =>
    rw [t.depthChild hp, ih]
    omega

/-- **The root is reached in exactly the depth of a container.** -/
theorem climbs_root_iff (t : h.IsTree) {id : String} (hid : h.containers.contains id = true)
    {n : Nat} : h.Climbs n id h.root ↔ n = h.depth id := by
  refine ⟨fun hc => ?_, ?_⟩
  · have := hc.depth_eq t
    rw [t.depthRoot] at this
    omega
  · rintro rfl
    generalize hn : h.depth id = n
    induction n generalizing id with
    | zero =>
      cases hp : h.parent? id with
      | none => exact t.top hid hp ▸ .stay id
      | some p => have := t.depthChild hp; omega
    | succ n ih =>
      cases hp : h.parent? id with
      | none => rw [t.top hid hp, t.depthRoot] at hn; omega
      | some p =>
        have hd := t.depthChild hp
        exact .up hp (ih (t.parentKnown hp) (by omega))

/-! ## What the lists of a container hold -/

theorem IsTree.count_children (t : h.IsTree) (p id : String) :
    (h.children p).count id = if h.parent? id = some p then 1 else 0 := by
  rw [(t.nodupChildren p).count]
  simp only [t.mem_children]

theorem IsTree.count_elements (t : h.IsTree) {e owner : String}
    (ho : h.owners.get? e = some owner) (p : String) :
    (h.elements p).count e = if p = owner then 1 else 0 := by
  rw [(t.nodupElements p).count]
  simp only [t.mem_elements, ho, Option.some.injEq, eq_comm]

end

/-- **The extraction returns a tree of this shape.** -/
theorem extract_shapeOf {d : Diagram} {h : Hierarchy} (he : extract d = .ok h) : ShapeOf d h := by
  have t := extract_treeOf he
  obtain ⟨-, owners, ps, es, ds, -, -, ho, -, -, -, -, rfl⟩ := extract_eq_ok_iff.1 he
  refine
    { root := t.root
      containers := Table.keys_map _ _
      depthRoot := t.depthRoot
      parentless := fun id hid => ⟨t.top hid, fun hr => hr ▸ t.rootTop⟩
      parent := fun id p hp => ⟨t.parentKnown hp, t.depthChild hp⟩
      children := t.count_children
      childOrder := fun p area ha => ⟨declaredChildren d owners p, ?_, fun c hc => ?_⟩
      elements := fun e hd => ?_
      onlyElements := fun p e hp => ?_
      climbs := fun id hid n => climbs_root_iff t.toIsTree hid }
  · have hc : (treeWith d owners ps es ds).container? p = some (node d owners ps ds p area) := by
      rw [treeWith_container?, ha, Option.map_some]
    show (treeWith d owners ps es ds).children p = _
    rw [children, hc]
    rfl
  · obtain ⟨-, -, hl, hd⟩ := (mem_declaredChildren ho).1 hc
    exact ⟨hd, hl⟩
  · obtain ⟨owner, howner⟩ := Table.contains_iff.1 ((t.owned e).trans hd)
    exact ⟨owner, howner, t.known_of_owner howner, t.count_elements howner⟩
  · exact (t.owned e).symm.trans (Table.contains_of_get? (t.mem_elements.1 hp))

/-- An area that the root lists twice, with an element listed twice, and one that only declares the
root as its parent. -/
def scattered : Diagram where
  root := "root"
  areas := .ofList [("root", ⟨none, ["C", "v", "C"]⟩), ("A", ⟨some "root", []⟩),
    ("C", ⟨some "root", ["B", "w", "w"]⟩), ("B", ⟨none, []⟩)]
  elements := .ofList [("v", ⟨.vertex, "", []⟩), ("w", ⟨.predicate, "P", []⟩)]
  connections := []

/-- The listed area comes before the declared one, and its own area is two levels down. -/
theorem scattered_shapeOf : ∃ h, extract scattered = .ok h ∧ ShapeOf scattered h ∧
    h.children "root" = ["C", "A"] ∧ h.elements "C" = ["w"] ∧ h.Climbs 2 "B" "root" := by
  obtain ⟨h, he⟩ : ∃ h, extract scattered = .ok h := ⟨_, rfl⟩
  have hs := extract_shapeOf he
  cases he
  exact ⟨_, rfl, hs, rfl, rfl, (hs.climbs "B" rfl 2).2 rfl⟩

end NestedLayout.Hierarchy
