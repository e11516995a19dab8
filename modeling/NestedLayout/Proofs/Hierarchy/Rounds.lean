import NestedLayout.Proofs.Hierarchy.Nest

/-!
# Walks with a stack

A walk down a container tree keeps what is still to do on a stack: in each `round` the top of the
stack adds to what the walk has so far and gives way to what it leads to. From the outside in a
container leads to its children; from the inside out it leads to its children and then to itself,
marked as one to visit.

* `Clears`: in some number of rounds a walk is through with the top of its stack, whatever lies
  below it.
* `Nest.Describes.clears_inward`, `Nest.Describes.clears_outward`: the two walks clear a container
  and visit its nest in pre-order and in post-order, by induction on the nest.
* `Nest.Describes.walks_eq`: so do the bounded walks `below` and `above`, level by level.
* `IsTree.exists_nest_subtree`, `IsTree.ends_postOrder`: so the walks with a stack end, with what
  the bounded ones list.
-/

set_option autoImplicit false

namespace NestedLayout

namespace Nest

/-- The containers of a nest, each before what is nested in it. -/
def preOrder : Nest → List String
  | node id _ nested => id :: nested.flatMap preOrder

/-- The containers of a nest, each after what is nested in it. -/
def postOrder : Nest → List String
  | node id _ nested => nested.flatMap postOrder ++ [id]

end Nest

namespace Hierarchy

/-! ## Rounds -/

section
variable {σ τ : Type}

/-- One round of a walk with a stack: the top of the stack adds to what the walk has so far, and
gives way to what it leads to. A walk with nothing on its stack has ended. -/
def round (leads : σ → List σ) (add : σ → τ → τ) : List σ × τ → List σ × τ
  | ([], s) => ([], s)
  | (x :: stack, s) => (leads x ++ stack, add x s)

/-- What a walk has visited after one entry more, which may only lead somewhere else. -/
def visiting (visit : σ → Option String) (x : σ) (order : List String) : List String :=
  order ++ (visit x).toList

/-- A walk that starts with one entry ends, and has then visited this list. -/
def Ends (leads : σ → List σ) (visit : σ → Option String) (x : σ) (order : List String) : Prop :=
  ∃ k, (round leads (visiting visit))^[k] ([x], []) = ([], order)

/-- In some number of rounds a walk takes these entries off the top of its stack, and gets from what
it had before to what it has then. -/
def Clears (leads : σ → List σ) (add : σ → τ → τ) (xs : List σ) (s s' : τ) : Prop :=
  ∃ k, ∀ stack, (round leads add)^[k] (xs ++ stack, s) = (stack, s')

variable {leads : σ → List σ} {add : σ → τ → τ} {s s' s'' : τ}

theorem Clears.nil : Clears leads add [] s s := ⟨0, fun _ => rfl⟩

/-- What is cleared one after the other is cleared. -/
theorem Clears.append {xs ys : List σ} (hxs : Clears leads add xs s s')
    (hys : Clears leads add ys s' s'') : Clears leads add (xs ++ ys) s s'' := by
  obtain ⟨k, hk⟩ := hxs
  obtain ⟨l, hl⟩ := hys
  refine ⟨l + k, fun stack => ?_⟩
  rw [Function.iterate_add_apply, List.append_assoc, hk, hl]

/-- **One more round**: an entry is cleared when what it leads to is. -/
theorem Clears.step {x : σ} (h : Clears leads add (leads x) (add x s) s') :
    Clears leads add [x] s s' := by
  obtain ⟨k, hk⟩ := h
  refine ⟨k + 1, fun stack => ?_⟩
  rw [Function.iterate_succ_apply, List.singleton_append, round, hk]

/-- Entries that visit one list after the other visit them all. -/
theorem Clears.list {add : σ → List String → List String} {β : Type} {l : List β} {entry : β → σ}
    {order : β → List String}
    (h : ∀ b ∈ l, ∀ done, Clears leads add [entry b] done (done ++ order b)) (done : List String) :
    Clears leads add (l.map entry) done (done ++ l.flatMap order) := by
  induction l generalizing done with
  | nil =>
    rw [List.flatMap_nil, List.append_nil]
    exact .nil
  | cons b l ih =>
    obtain ⟨hb, hl⟩ := List.forall_mem_cons.1 h
    rw [List.flatMap_cons, ← List.append_assoc]
    exact (hb done).append (ih hl _)

theorem Clears.ends {visit : σ → Option String} {x : σ} {order : List String}
    (h : Clears leads (visiting visit) [x] [] order) : Ends leads visit x order := by
  obtain ⟨k, hk⟩ := h
  exact ⟨k, hk []⟩

end

/-! ## The two walks -/

/-- From the inside out a container leads to its children and, below them, to itself with the mark
that it is to be visited. -/
def outwards (h : Hierarchy) : String × Bool → List (String × Bool)
  | (_, true) => []
  | (id, false) => (h.children id).map (·, false) ++ [(id, true)]

/-- From the inside out only what has the mark is visited. -/
def marked : String × Bool → Option String
  | (id, true) => some id
  | (_, false) => none

end Hierarchy

namespace Nest.Describes

open Hierarchy (Clears outwards marked visiting)

variable {h : Hierarchy} {n : Nest}

/-- **The walk from the outside in** visits a nest in pre-order. -/
theorem clears_inward (hn : n.Describes h) (done : List String) :
    Clears h.children (visiting some) [n.id] done (done ++ n.preOrder) := by
  induction hn generalizing done with
  | @node id elements nested _ hchildren _ ih =>
    have hnested := Clears.list ih (done ++ [id])
    rw [List.append_assoc, List.singleton_append] at hnested
    rw [preOrder]
    refine Clears.step (x := id) ?_
    rw [hchildren]
    exact hnested

/-- **The walk from the inside out** visits a nest in post-order. -/
theorem clears_outward (hn : n.Describes h) (done : List String) :
    Clears h.outwards (visiting marked) [(n.id, false)] done (done ++ n.postOrder) := by
  induction hn generalizing done with
  | @node id elements nested _ hchildren _ ih =>
    have hself : ∀ done, Clears h.outwards (visiting marked) [(id, true)] done (done ++ [id]) :=
      fun _ => Clears.step .nil
    rw [postOrder, ← List.append_assoc]
    refine Clears.step (x := (id, false)) ?_
    rw [outwards, hchildren, List.map_map, visiting, marked, Option.toList_none, List.append_nil]
    exact (Clears.list ih done).append (hself _)

/-- **The bounded walks** list the nest in the same orders, when no level is cut off. -/
theorem walks_eq (hn : n.Describes h) (t : h.IsTree) {k : Nat}
    (hid : h.containers.contains n.id = true) (hk : h.size ≤ h.depth n.id + k) :
    h.below k n.id = n.preOrder ∧ h.above k n.id = n.postOrder := by
  induction hn generalizing k with
  | @node id elements nested _ hchildren _ ih =>
    have hlt : h.depth id < h.size := t.depth_lt_size hid
    rw [Nest.id] at hk ⊢
    obtain ⟨k, rfl⟩ : ∃ j, k = j + 1 := ⟨k - 1, by omega⟩
    have hnested : ∀ m ∈ nested, h.below k m.id = m.preOrder ∧ h.above k m.id = m.postOrder := by
      intro m hm
      have hp := t.mem_children.1 (hchildren ▸ List.mem_map_of_mem hm)
      have hd := t.depthChild hp
      exact ih m hm (Hierarchy.known_of_parent hp) (by omega)
    rw [Hierarchy.below, Hierarchy.above, preOrder, postOrder, hchildren, List.flatMap_map,
      List.flatMap_map]
    exact ⟨congrArg _ (List.flatMap_congr fun m hm => (hnested m hm).1),
      congrArg (· ++ [id]) (List.flatMap_congr fun m hm => (hnested m hm).2)⟩

end Nest.Describes

namespace Hierarchy.IsTree

variable {h : Hierarchy} (t : h.IsTree)
include t

/-- **The walk from the outside in** that starts at a container visits its nest. -/
theorem exists_nest_subtree {id : String} (hid : h.containers.contains id = true) :
    ∃ n : Nest, n.id = id ∧ n.Describes h ∧
      h.subtree id = n.preOrder ∧ Ends h.children some id (h.subtree id) := by
  obtain ⟨n, rfl, hn⟩ := t.exists_nest hid
  have heq : h.subtree n.id = n.preOrder := (hn.walks_eq t hid (by omega)).1
  exact ⟨n, rfl, hn, heq, heq ▸ (hn.clears_inward []).ends⟩

/-- **The walk from the inside out** that starts at the root visits the nest of the root. -/
theorem postOrder_of_nest {n : Nest} (hn : n.Describes h) (hroot : n.id = h.root) :
    h.postOrder = n.postOrder ∧ Ends h.outwards marked (h.root, false) h.postOrder := by
  have hpost : h.postOrder = n.postOrder := by
    rw [postOrder, ← hroot]
    exact (hn.walks_eq t (hroot ▸ t.rootKnown) (by omega)).2
  refine ⟨hpost, ?_⟩
  rw [hpost, ← hroot]
  exact (hn.clears_outward []).ends

theorem ends_postOrder : Ends h.outwards marked (h.root, false) h.postOrder := by
  obtain ⟨n, hroot, hn⟩ := t.exists_nest t.rootKnown
  exact (t.postOrder_of_nest hn hroot).2

end Hierarchy.IsTree

end NestedLayout
