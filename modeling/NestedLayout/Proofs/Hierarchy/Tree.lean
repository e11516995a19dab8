import NestedLayout.Proofs.Hierarchy.Accepted

/-!
# The shape of a container tree

`Hierarchy.IsTree` says in what sense the containers of a hierarchy form a tree: parents and
children point at each other, only the root has no parent, depths count the steps to it, and every
element belongs to the container that lists it. `Hierarchy.TreeOf` adds that it is the tree of a
given diagram.

* `extract_treeOf`: what `Hierarchy.extract` returns is the tree of its diagram.
-/

set_option autoImplicit false

namespace NestedLayout.Hierarchy

open Diagram (Area Lists Declares ParentIs)

/-- The containers form a tree, and the elements lie in its containers. -/
structure IsTree (h : Hierarchy) : Prop where
  rootKnown : h.containers.contains h.root = true
  rootTop : h.parent? h.root = none
  top : ∀ {id}, h.containers.contains id = true → h.parent? id = none → id = h.root
  named : ∀ {id c}, h.container? id = some c → c.id = id
  parentKnown : ∀ {id p}, h.parent? id = some p → h.containers.contains p = true
  mem_children : ∀ {p id}, id ∈ h.children p ↔ h.parent? id = some p
  nodupChildren : ∀ p, (h.children p).Nodup
  depthRoot : h.depth h.root = 0
  depthChild : ∀ {id p}, h.parent? id = some p → h.depth id = h.depth p + 1
  mem_elements : ∀ {p e}, e ∈ h.elements p ↔ h.owners.get? e = some p
  nodupElements : ∀ p, (h.elements p).Nodup

/-- The tree of the areas and elements of a diagram. -/
structure TreeOf (d : Diagram) (h : Hierarchy) : Prop extends IsTree h where
  root : h.root = d.root
  known : ∀ id, h.containers.contains id = d.areas.contains id
  owned : ∀ e, h.owners.contains e = d.elements.contains e

theorem nodup_eraseDups (l : List String) : l.eraseDups.Nodup := by
  generalize hn : l.length = n
  induction n using Nat.strong_induction_on generalizing l with
  | _ n ih =>
    cases l with
    | nil => exact List.nodup_nil
    | cons a l =>
      rw [List.eraseDups_cons, List.nodup_cons]
      have hlen := List.length_filter_le (fun b => !b == a) l
      refine ⟨by simp, ih _ ?_ _ rfl⟩
      rw [List.length_cons] at hn
      omega

section
variable {d : Diagram} {owners ps es : IdTable String} {ds : IdTable Nat}
  (ho : listedOwners d = .ok owners)
include ho

/-- The areas that no area lists and that declare the parent. -/
theorem mem_declaredChildren {p id : String} :
    id ∈ declaredChildren d owners p ↔
      d.areas.contains id = true ∧ id ≠ d.root ∧ (∀ a, ¬ Lists d a id) ∧ Declares d id p := by
  simp only [declaredChildren, List.mem_map, List.mem_filter, Bool.and_eq_true,
    Bool.not_eq_true', beq_iff_eq, Prod.exists, exists_and_right, exists_eq_right]
  refine ⟨?_, ?_⟩
  · rintro ⟨area, he, hn, hp⟩
    obtain ⟨ha, hr⟩ := mem_inner.1 he
    exact ⟨Table.contains_of_get? ha, hr,
      (owners_none_iff ho).1 (Table.get?_eq_none_iff.2 hn), area, ha, hp⟩
  · rintro ⟨-, hr, hn, area, ha, hp⟩
    exact ⟨area, mem_inner.2 ⟨ha, hr⟩, Table.get?_eq_none_iff.1 ((owners_none_iff ho).2 hn), hp⟩

omit ho in
theorem nodup_declaredChildren (p : String) : (declaredChildren d owners p).Nodup :=
  (nodup_inner d).sublist (List.filter_sublist.map _)

variable (hps : parents d owners = .ok ps)
include hps

/-- **A child of a node** is an area with that parent. -/
theorem mem_node_children {p id : String} {area : Area} (ha : d.areas.get? p = some area)
    (hroot : ∀ a, ¬ Lists d a d.root) :
    id ∈ (node d owners ps ds p area).children ↔ ps.get? id = some p := by
  rw [parents_get? ho hps]
  simp only [node, List.mem_append, List.mem_filter, List.mem_eraseDups,
    mem_declaredChildren ho, ParentIs]
  have hl : id ∈ area.items ↔ Lists d p id := by simp [Diagram.Lists, ha]
  rw [hl]
  refine ⟨?_, ?_⟩
  · rintro (⟨h, hc⟩ | ⟨hc, hr, hn, hd⟩)
    · exact ⟨hc, fun he => hroot p (he ▸ h), .inl h⟩
    · exact ⟨hc, hr, .inr ⟨hn, hd⟩⟩
  · rintro ⟨hc, hr, h | ⟨hn, hd⟩⟩
    · exact .inl ⟨h, hc⟩
    · exact .inr ⟨hc, hr, hn, hd⟩

omit hps in
theorem nodup_node_children {p : String} {area : Area} (ha : d.areas.get? p = some area) :
    (node d owners ps ds p area).children.Nodup := by
  refine List.nodup_append.2 ⟨(nodup_eraseDups _).filter _, nodup_declaredChildren p, ?_⟩
  rintro a hl b hd rfl
  rw [List.mem_filter, List.mem_eraseDups] at hl
  exact ((mem_declaredChildren ho).1 hd).2.2.1 p ⟨area, ha, hl.1⟩

end

/-! ## The tree that the passes make -/

/-- The tree of a diagram with the given parents, depths and owners of elements. -/
def treeWith (d : Diagram) (owners ps es : IdTable String) (ds : IdTable Nat) : Hierarchy :=
  ⟨d.root, d.areas.map (node d owners ps ds), es⟩

section
variable {d : Diagram} {owners ps es : IdTable String} {ds : IdTable Nat}

theorem treeWith_container? (id : String) : (treeWith d owners ps es ds).container? id =
    (d.areas.get? id).map (node d owners ps ds id) := Table.get?_map _ _ _

theorem treeWith_known (id : String) :
    (treeWith d owners ps es ds).containers.contains id = d.areas.contains id := by
  have h : (treeWith d owners ps es ds).containers.get? id =
      (d.areas.get? id).map (node d owners ps ds id) := treeWith_container? id
  simp [Table.contains, h]

theorem treeWith_named {id : String} {c : Container}
    (h : (treeWith d owners ps es ds).container? id = some c) : c.id = id := by
  rw [treeWith_container?, Option.map_eq_some_iff] at h
  obtain ⟨area, -, rfl⟩ := h
  rfl

theorem treeWith_nodupElements (p : String) :
    ((treeWith d owners ps es ds).elements p).Nodup := by
  simp only [elements, treeWith_container?]
  cases ha : d.areas.get? p with
  | some area => exact (nodup_eraseDups _).filter _
  | none => exact List.nodup_nil

theorem treeWith_depth (hds : depths d ps = .ok ds) {id : String}
    (hid : d.areas.contains id = true) {n : Nat} (hb : Below d.root ps n id) :
    (treeWith d owners ps es ds).depth id = n := by
  obtain ⟨area, ha⟩ := Table.contains_iff.1 hid
  simp [depth, treeWith_container?, ha, node, (depths_get? hds hid).2 hb]

variable (ho : listedOwners d = .ok owners)
include ho

theorem treeWith_nodupChildren (p : String) :
    ((treeWith d owners ps es ds).children p).Nodup := by
  simp only [children, treeWith_container?]
  cases ha : d.areas.get? p with
  | some area => exact nodup_node_children ho ha
  | none => exact List.nodup_nil

theorem treeWith_mem_elements (hes : elementOwners d owners = .ok es) {p e : String} :
    e ∈ (treeWith d owners ps es ds).elements p ↔ es.get? e = some p := by
  rw [elementOwners_get? ho hes]
  simp only [elements, treeWith_container?]
  cases ha : d.areas.get? p with
  | some area => simp [node, Diagram.Lists, ha, and_comm]
  | none => simp [Diagram.Lists, ha]

/-- The elements with an owner are those of the diagram. -/
theorem contains_elementOwners (hes : elementOwners d owners = .ok es) (e : String) :
    es.contains e = d.elements.contains e := by
  rw [Bool.eq_iff_iff, Table.contains_iff]
  simp only [elementOwners_get? ho hes]
  refine ⟨?_, fun h => ?_⟩
  · rintro ⟨-, h, -⟩
    exact h
  · obtain ⟨area, hl⟩ := (elementOwners_ok_iff ho).1 ⟨es, hes⟩ e h
    exact ⟨area, h, hl⟩

variable (hps : parents d owners = .ok ps)
include hps

/-- The parent of an area is the entry of the table of parents: only areas have one. -/
theorem treeWith_parent? (id : String) : (treeWith d owners ps es ds).parent? id = ps.get? id := by
  simp only [parent?, treeWith_container?]
  cases ha : d.areas.get? id with
  | some area => rfl
  | none =>
    cases hp : ps.get? id with
    | none => rfl
    | some p =>
      obtain ⟨a, ha'⟩ := Table.contains_iff.1 ((parents_get? ho hps).1 hp).1
      rw [ha] at ha'
      cases ha'

theorem treeWith_mem_children (hroot : ∀ a, ¬ Lists d a d.root) {p id : String} :
    id ∈ (treeWith d owners ps es ds).children p ↔ ps.get? id = some p := by
  simp only [children, treeWith_container?]
  cases ha : d.areas.get? p with
  | some area => exact mem_node_children ho hps ha hroot
  | none =>
    refine iff_of_false (by simp) fun h => ?_
    obtain ⟨a, ha'⟩ := Table.contains_iff.1 (parents_known ho hps h)
    rw [ha] at ha'
    cases ha'

theorem exists_parent {id : String} (hid : d.areas.contains id = true) (hr : id ≠ d.root) :
    ∃ p, ps.get? id = some p := by
  obtain ⟨area, ha⟩ := Table.contains_iff.1 hid
  obtain ⟨p, hv⟩ := insertAll_ok_iff.1 ⟨ps, hps⟩ (id, area) (mem_inner.2 ⟨ha, hr⟩)
  exact ⟨p, (parents_get? ho hps).2 ⟨hid, hr, ((parentOf_eq_ok_iff ho ha).1 hv).1⟩⟩

theorem treeWith_depthChild (hds : depths d ps = .ok ds) {id p : String}
    (h : ps.get? id = some p) : (treeWith d owners ps es ds).depth id =
      (treeWith d owners ps es ds).depth p + 1 := by
  obtain ⟨hid, hr, -⟩ := (parents_get? ho hps).1 h
  have hp := parents_known ho hps h
  obtain ⟨n, hn⟩ := (exists_below_iff ho hps hp).2 ((depths_ok_iff ho hps).1 ⟨ds, hds⟩ _ hp)
  rw [treeWith_depth hds hp hn, treeWith_depth hds hid (.step hr h hn)]

end

/-- **The extraction returns the tree of its diagram.** -/
theorem extract_treeOf {d : Diagram} {h : Hierarchy} (he : extract d = .ok h) : TreeOf d h := by
  obtain ⟨rootArea, owners, ps, es, ds, hr, hf, ho, hp, hps, hes, hds, hh⟩ :=
    extract_eq_ok_iff.1 he
  obtain rfl : h = treeWith d owners ps es ds := hh
  obtain ⟨hul, -⟩ := (rootParent_eq_none_iff hr ho).1 hp
  have hpar : ∀ id, (treeWith d owners ps es ds).parent? id = ps.get? id :=
    treeWith_parent? ho hps
  have hrootKnown := Table.contains_of_get? hr
  refine
    { rootKnown := (treeWith_known _).trans hrootKnown
      rootTop := ?rootTop
      top := fun {id} hc hn => ?top
      named := treeWith_named
      parentKnown := fun {id p} h =>
        (treeWith_known p).trans (parents_known ho hps ((hpar id).symm.trans h))
      mem_children := fun {p id} => hpar id ▸ treeWith_mem_children ho hps hul
      nodupChildren := treeWith_nodupChildren ho
      depthRoot := treeWith_depth hds hrootKnown .root
      depthChild := fun {id p} h => treeWith_depthChild ho hps hds ((hpar id).symm.trans h)
      mem_elements := treeWith_mem_elements ho hes
      nodupElements := treeWith_nodupElements
      root := rfl
      known := treeWith_known
      owned := contains_elementOwners ho hes }
  case rootTop =>
    refine (hpar d.root).trans (Option.eq_none_iff_forall_ne_some.2 fun p hp => ?_)
    exact ((parents_get? ho hps).1 hp).2.1 rfl
  case top =>
    by_contra hne
    obtain ⟨p, hp⟩ := exists_parent ho hps ((treeWith_known id).symm.trans hc) hne
    rw [hpar, hp] at hn
    cases hn

end NestedLayout.Hierarchy
