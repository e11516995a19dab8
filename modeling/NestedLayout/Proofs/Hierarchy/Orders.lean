import NestedLayout.Proofs.Hierarchy.Innermost
import NestedLayout.Proofs.Hierarchy.Rounds
import NestedLayout.Proofs.Hierarchy.Shape

/-!
# The orders of the containers

The walks over the tree of a diagram end, and list its containers in pre-order, in post-order, and
level by level: `extract_inOrder`. A subtree holds what its container encloses.

* `processingRank_level`: sorting by depth keeps the order within a level.
* `IsTree.sublist_postOrder`: from the inside out what is nested in a container comes before it.
-/

set_option autoImplicit false

namespace NestedLayout

namespace Hierarchy

/-! ## Level by level -/

section
variable (h : Hierarchy)

theorem depth_trans (a b c : String) (hab : decide (h.depth a ≤ h.depth b) = true)
    (hbc : decide (h.depth b ≤ h.depth c) = true) : decide (h.depth a ≤ h.depth c) = true := by
  rw [decide_eq_true_eq] at hab hbc ⊢
  exact hab.trans hbc

theorem depth_total (a b : String) :
    (decide (h.depth a ≤ h.depth b) || decide (h.depth b ≤ h.depth a)) = true := by
  rw [Bool.or_eq_true, decide_eq_true_eq, decide_eq_true_eq]
  exact Nat.le_total _ _

theorem processingRank_perm : h.processingRank.Perm h.preOrder := List.mergeSort_perm _ _

theorem processingRank_sorted : h.processingRank.Pairwise fun a b => h.depth a ≤ h.depth b :=
  (List.pairwise_mergeSort h.depth_trans h.depth_total h.preOrder).imp of_decide_eq_true

/-- **Within a level** the order is that of the walk from the outside in. -/
theorem processingRank_level (k : Nat) :
    h.processingRank.filter (h.depth · = k) = h.preOrder.filter (h.depth · = k) := by
  -- a level is in order already, so the sorting keeps it as it is
  have hlevel : (h.preOrder.filter (h.depth · = k)).Pairwise
      fun a b => decide (h.depth a ≤ h.depth b) = true := by
    refine List.pairwise_of_forall_mem_list fun a ha b hb => ?_
    have hda := of_decide_eq_true (List.mem_filter.1 ha).2
    have hdb := of_decide_eq_true (List.mem_filter.1 hb).2
    rw [decide_eq_true_eq, hda, hdb]
  have hsub := (List.sublist_mergeSort h.depth_trans h.depth_total hlevel
    List.filter_sublist).filter (h.depth · = k)
  simp only [List.filter_filter, Bool.and_self] at hsub
  exact (hsub.eq_of_length ((h.processingRank_perm.filter _).length_eq.symm)).symm

end

/-! ## The tree of a diagram -/

/-- The orders in which the walks over a container tree list its containers. -/
structure InOrder (h : Hierarchy) : Prop where
  /-- The nest of the root, in which the children of a container stand in their order, is visited in
  pre-order and in post-order, and both walks end. -/
  all : ∃ n : Nest, n.id = h.root ∧ n.Describes h ∧
    (h.preOrder = n.preOrder ∧ Ends h.children some h.root h.preOrder) ∧
    h.postOrder = n.postOrder ∧ Ends h.outwards marked (h.root, false) h.postOrder
  /-- Both walks come to every container once. -/
  once : h.preOrder.Perm h.containers.keys ∧ h.postOrder.Perm h.containers.keys
  /-- From the inside out what is nested in a container comes before it. -/
  nestedFirst : ∀ id x, h.containers.contains id = true → h.Encloses id x → x ≠ id →
    [x, id].Sublist h.postOrder
  /-- Level by level the containers of a level keep the order of the walk from the outside in. -/
  levels : h.processingRank.Perm h.preOrder ∧
    (h.processingRank.Pairwise fun a b => h.depth a ≤ h.depth b) ∧
    ∀ k, h.processingRank.filter (h.depth · = k) = h.preOrder.filter (h.depth · = k)
  /-- So is the nest of any other container in pre-order. -/
  subtree : ∀ id, h.containers.contains id = true → ∃ n : Nest, n.id = id ∧ n.Describes h ∧
    h.subtree id = n.preOrder ∧ Ends h.children some id (h.subtree id)
  /-- A subtree starts with its container and lists once whatever has that among its ancestors. -/
  nested : ∀ id, h.containers.contains id = true → (h.subtree id).head? = some id ∧
    (h.subtree id).Nodup ∧ ∀ x, x ∈ h.subtree id ↔ id ∈ h.ancestors x
  /-- The elements of a subtree are those that its containers own, each once. -/
  elements : ∀ id, h.containers.contains id = true → (h.subtreeElements id).Nodup ∧
    ∀ e, e ∈ h.subtreeElements id ↔ ∃ c ∈ h.subtree id, h.owners.get? e = some c

namespace IsTree

variable {h : Hierarchy} (t : h.IsTree)
include t

theorem preOrder_perm_keys : h.preOrder.Perm h.containers.keys :=
  (List.perm_ext_iff_of_nodup t.nodup_preOrder (Table.nodup_keys _)).2 fun _ =>
    t.mem_preOrder.trans Table.mem_keys_iff.symm

theorem postOrder_perm_keys : h.postOrder.Perm h.containers.keys :=
  (List.perm_ext_iff_of_nodup t.nodup_postOrder (Table.nodup_keys _)).2 fun _ =>
    t.mem_postOrder.trans Table.mem_keys_iff.symm

/-- The walk from the inside out comes to a container after all that is nested in it. -/
theorem sublist_postOrder {id x : String} (hid : h.containers.contains id = true)
    (hx : h.Encloses id x) (hne : x ≠ id) : [x, id].Sublist h.postOrder := by
  obtain ⟨done, rest, hsplit⟩ := List.append_of_mem (t.mem_postOrder.2 hid)
  have hdone := (t.postOrder_split hsplit).nestedDone hx hne
  rw [hsplit]
  exact (List.singleton_sublist.2 hdone).append (List.singleton_sublist.2 (.head _))

end IsTree

/-- **The walks over the tree of a diagram** end, and list its containers in pre-order, in
post-order, and level by level; a subtree holds what its container encloses. -/
theorem extract_inOrder {d : Diagram} {h : Hierarchy} (he : extract d = .ok h) : h.InOrder := by
  have t := (extract_treeOf he).toIsTree
  refine
    { all := ?all
      once := ⟨t.preOrder_perm_keys, t.postOrder_perm_keys⟩
      nestedFirst := fun id x hid hx hne => t.sublist_postOrder hid hx hne
      levels := ⟨h.processingRank_perm, h.processingRank_sorted, h.processingRank_level⟩
      subtree := fun id hid => t.exists_nest_subtree hid
      nested := fun id _ => ⟨rfl, t.nodup_subtree id, fun x =>
        t.mem_subtree.trans t.mem_ancestors_iff.symm⟩
      elements := fun id _ => ⟨t.nodup_subtreeElements id, fun e => ?elements⟩ }
  case all =>
    obtain ⟨n, hroot, hn, hpre, hends⟩ := t.exists_nest_subtree t.rootKnown
    exact ⟨n, hroot, hn, ⟨hpre, hends⟩, t.postOrder_of_nest hn hroot⟩
  case elements =>
    rw [t.mem_subtreeElements]
    simp only [t.mem_subtree, and_comm]

/-- Two levels below the root, and elements on all of them. -/
theorem scattered_inOrder : ∃ h, extract scattered = .ok h ∧ h.InOrder ∧
    h.preOrder = ["root", "C", "B", "A"] ∧ h.postOrder = ["B", "C", "A", "root"] ∧
    h.subtree "C" = ["C", "B"] ∧ h.subtreeElements "root" = ["v", "w"] := by
  obtain ⟨h, he⟩ : ∃ h, extract scattered = .ok h := ⟨_, rfl⟩
  have ho := extract_inOrder he
  cases he
  exact ⟨_, rfl, ho, rfl, rfl, rfl, rfl⟩

end Hierarchy

end NestedLayout
