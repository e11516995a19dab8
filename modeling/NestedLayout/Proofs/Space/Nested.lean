import NestedLayout.Proofs.Hierarchy.Rounds
import NestedLayout.Proofs.Hierarchy.Shape
import NestedLayout.Proofs.Space.Requirement
import NestedLayout.Scalar.Binary32

/-!
# Requirements by recursion

What a container needs, defined along its nest, and computed by one walk over the tree that writes
into a table.

* `Nest.requirement`: the recursion, from the elements of a container and the requirements of the
  nests in it.
* `SpaceLedger.calculated`: the table after some steps of the walk. It holds what those steps wrote
  and nothing else (`calculated_contains_iff`), and later steps leave that alone
  (`calculated_append_get?`).
* `SpaceLedger.calculate_describes`: the table holds the requirement of every nest.
* `SpaceLedger.calculate_recursive`: all of this for the tree of a diagram.
-/

set_option autoImplicit false

namespace NestedLayout

variable {α : Type} [Scalar α]

/-! ## The recursion -/

namespace Nest

mutual

/-- What a container needs, from its elements and from what the containers in it need. -/
def requirement (spacing : Spacing α) (extents : IdTable (Extent α)) : Nest → Requirement α
  | node _ elements nested =>
    .compute spacing extents (.ofList (requirements spacing extents nested)) elements
      (nested.map Nest.id)

/-- What each of some containers needs, under their ids. -/
def requirements (spacing : Spacing α) (extents : IdTable (Extent α)) :
    List Nest → List (String × Requirement α)
  | [] => []
  | n :: rest => (n.id, requirement spacing extents n) :: requirements spacing extents rest

end

theorem requirements_eq (spacing : Spacing α) (extents : IdTable (Extent α)) (nested : List Nest) :
    requirements spacing extents nested =
      nested.map fun n => (n.id, n.requirement spacing extents) := by
  induction nested with
  | nil => rfl
  | cons n rest ih => rw [requirements, ih, List.map_cons]

/-- The nests in a container are looked up under their ids. -/
theorem get?_requirements {spacing : Spacing α} {extents : IdTable (Extent α)} {nested : List Nest}
    {n : Nest} (hn : (nested.map Nest.id).Nodup) (hm : n ∈ nested) :
    (Table.ofList (requirements spacing extents nested)).get? n.id =
      some (n.requirement spacing extents) := by
  rw [requirements_eq]
  refine Table.get?_ofList_of_mem ?_ (List.mem_map_of_mem hm)
  rw [List.map_map]
  exact hn

end Nest

/-! ## The walk -/

namespace SpaceLedger

/-- The ledger after the requirements of some containers have been computed one after the other,
with nothing left of those from before. -/
def calculated (l : SpaceLedger α) (h : Hierarchy) (extents : IdTable (Extent α))
    (done : List String) : SpaceLedger α :=
  done.foldl (fun l id => l.require id (l.requirementOf h extents id))
    { l with requirements := .empty }

section
variable {l : SpaceLedger α} {h : Hierarchy} {extents : IdTable (Extent α)} {done : List String}
  {id : String}

theorem calculated_concat : l.calculated h extents (done ++ [id]) =
    (l.calculated h extents done).require id
      ((l.calculated h extents done).requirementOf h extents id) := by
  rw [calculated, List.foldl_append]
  rfl

/-- **The table holds what the walk wrote**, and nothing else. -/
theorem calculated_contains_iff :
    (l.calculated h extents done).requirements.contains id = true ↔ id ∈ done := by
  induction done using List.reverseRecOn with
  | nil => simp [calculated, Table.contains]
  | append_singleton done x ih =>
    rw [calculated_concat, List.mem_append, List.mem_singleton, ← ih, or_comm]
    exact Table.contains_insert_iff

/-- The walk writes about each container once. -/
theorem calculated_append_get? {rest : List String} (hid : id ∉ rest) :
    (l.calculated h extents (done ++ rest)).requirements.get? id =
      (l.calculated h extents done).requirements.get? id := by
  induction rest using List.reverseRecOn with
  | nil => rw [List.append_nil]
  | append_singleton rest x ih =>
    rw [List.mem_append, not_or, List.mem_singleton] at hid
    rw [← List.append_assoc, calculated_concat, get?_require, if_neg hid.2, ih hid.1]

variable (t : h.IsTree)
include t

/-- **A child is read after it was computed**: its requirement stands in the table, and stays. -/
theorem calculated_child {rest : List String} (hs : h.postOrder = done ++ id :: rest) {c : String}
    (hc : c ∈ h.children id) : c ∈ done ∧
      (l.calculated h extents done).requirements.get? c =
        (l.calculate h extents).requirements.get? c := by
  have hp := t.mem_children.1 hc
  have hd := (t.postOrder_split hs).nestedDone (.of_parent hp) (t.child_ne hp)
  have hn := t.nodup_postOrder
  rw [hs] at hn
  refine ⟨hd, ?_⟩
  show _ = (l.calculated h extents h.postOrder).requirements.get? c
  rw [hs, calculated_append_get? fun hm => (List.nodup_append.1 hn).2.2 c hd c hm rfl]

/-- **The table holds the requirement of every nest.** -/
theorem calculate_describes {n : Nest} (hn : n.Describes h)
    (hid : h.containers.contains n.id = true) :
    (l.calculate h extents).requirements.get? n.id = some (n.requirement l.spacing extents) := by
  have hcalc := calculate_required t l extents
  induction hn with
  | @node id elements nested he hc hnested ih =>
    have hchild : ∀ m ∈ nested, h.parent? m.id = some id := fun m hm =>
      t.mem_children.1 (hc ▸ List.mem_map_of_mem hm)
    have hreq : (l.calculate h extents).requirements.get? id =
        some ((l.calculate h extents).requirementOf h extents id) :=
      hcalc.required id (t.mem_postOrder.2 hid)
    show (l.calculate h extents).requirements.get? id = _
    rw [hreq, Nest.requirement, requirementOf, hcalc.spacing, he, hc, Requirement.compute,
      Requirement.compute, Requirement.childrenFootprint_congr fun c hc' => ?_]
    obtain ⟨m, hm, rfl⟩ := List.mem_map.1 hc'
    rw [ih m hm (Hierarchy.known_of_parent (hchild m hm)),
      Nest.get?_requirements (hc ▸ t.nodupChildren id) hm]

end

/-! ## The tree of a diagram -/

/-- **The requirements of a tree are those of its recursion.** Whatever the ledger held before and
whatever the extents are, there is one requirement for each container, and it is that of its nest;
the walk, which is that of a stack of containers and ends, comes to a container when the
requirements of its children have been written, and reads no others. -/
theorem calculate_recursive {d : Diagram} {h : Hierarchy} (he : Hierarchy.extract d = .ok h)
    (l : SpaceLedger α) (extents : IdTable (Extent α)) :
    (l.calculate h extents).requirements.keys = h.containers.keys ∧
    (∀ id, h.containers.contains id = true →
      (∃ n : Nest, n.id = id ∧ n.Describes h) ∧
      ∀ n : Nest, n.id = id → n.Describes h →
        (l.calculate h extents).requirements.get? id = some (n.requirement l.spacing extents)) ∧
    (∀ done id rest, h.postOrder = done ++ id :: rest →
      (l.calculated h extents (done ++ [id]) = (l.calculated h extents done).require id
        ((l.calculated h extents done).requirementOf h extents id)) ∧
      ∀ c ∈ h.children id,
        (l.calculated h extents done).requirements.contains c = true ∧
        (l.calculated h extents done).requirements.get? c =
          (l.calculate h extents).requirements.get? c) ∧
    Hierarchy.Ends h.outwards Hierarchy.marked (h.root, false) h.postOrder ∧
      l.calculate h extents = l.calculated h extents h.postOrder := by
  have t := (Hierarchy.extract_treeOf he).toIsTree
  refine ⟨Table.keys_eq_of_contains fun id => ?_, fun id hid => ⟨t.exists_nest hid, ?_⟩,
    fun done id rest hs => ⟨calculated_concat, fun c hc => ?_⟩, t.ends_postOrder, rfl⟩
  · rw [Bool.eq_iff_iff, ← t.mem_postOrder]
    exact calculated_contains_iff
  · rintro n rfl hn
    exact calculate_describes t hn hid
  · exact (calculated_child t hs hc).imp_left calculated_contains_iff.2

/-- What an area with an element and an area in it needs, in the precision of the program. -/
theorem scattered_recursive :
    let settings : LayoutSettings Float32 := .standard
    let extents := Hierarchy.scattered.elements.map fun _ e => Extent.of e settings.measure
    ∃ h, Hierarchy.extract Hierarchy.scattered = .ok h ∧
      ((SpaceLedger.new settings.spacing).calculate h extents).requirements.get? "C" =
        some (Nest.requirement settings.spacing extents (.node "C" ["w"] [.node "B" [] []])) := by
  intro settings extents
  obtain ⟨h, he⟩ : ∃ h, Hierarchy.extract Hierarchy.scattered = .ok h := ⟨_, rfl⟩
  have hall := (calculate_recursive he (.new settings.spacing) extents).2.1
  cases he
  refine ⟨_, rfl, (hall "C" rfl).2 _ rfl (.node rfl rfl fun n hn => ?_)⟩
  cases List.mem_singleton.1 hn
  exact .node rfl rfl fun n hn => absurd hn List.not_mem_nil

end SpaceLedger

end NestedLayout
