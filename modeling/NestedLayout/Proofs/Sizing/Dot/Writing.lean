import NestedLayout.Proofs.Hierarchy.Rounds
import NestedLayout.Proofs.Sizing.Dot.Nesting

/-!
# Writing a request

The lines of a request are written in one walk over the container tree, with a stack of containers
to begin and of clusters to end. A cluster is numbered by how many have begun before it, and there
is no table of clusters before the walk: it grows with it.

* `writes_container`: the walk writes a container with what is nested in it as
  `containerStatements` does, which looks up the numbers in the whole table.
* `build_writtenBy`: so the walk ends with the lines and the table of `build`.
-/

set_option autoImplicit false

namespace NestedLayout.DotRequest

open Hierarchy (Clears round)

/-- What is still to write: a container, or the end of a cluster. -/
inductive Pending where
  | container (id : String)
  | closing

/-- A container leads to its children and, below them, to the end of its cluster; the root has
none. -/
def Pending.leads (h : Hierarchy) : Pending → List Pending
  | closing => []
  | container id => match h.container? id with
    | none => []
    | some c => c.children.map container ++ if c.parent.isNone then [] else [closing]

/-- The lines that have been written, and the containers of the clusters in them. -/
structure Written (α : Type) where
  statements : List (DotStatement α)
  clusters : List String

variable {α : Type} [Scalar α]

/-- Writes the start of a cluster, with the next number, and the elements in it, or its end. -/
def Pending.add (request : SizingRequest α) : Pending → Written α → Written α
  | closing, w => { w with statements := w.statements ++ [.closing] }
  | container id, w => match request.hierarchy.container? id with
    | none => w
    | some c =>
      let lines := c.elements.filterMap (nodeStatement request request.hierarchy.owners.keys)
      if c.parent.isNone then { w with statements := w.statements ++ lines }
      else
        { statements := w.statements ++ (clusterHead request c w.clusters.length ++ lines)
          clusters := w.clusters ++ [id] }

/-- A request is what the walk from the root writes, and ends with, and an edge for every endpoint
of a connector beside its hub. -/
def WrittenBy (request : SizingRequest α) (r : DotRequest α) : Prop :=
  ∃ k w, (round (Pending.leads request.hierarchy) (Pending.add request))^[k]
      ([.container request.hierarchy.root], ⟨[], []⟩) = ([], w) ∧
    r = ⟨w.statements ++ request.connectors.flatMap (edges request.hierarchy.owners.keys),
      w.clusters, request.hierarchy.owners.keys⟩

section
variable (request : SizingRequest α)

/-- The containers with clusters among a container and what is nested in it. -/
def clustersBelow (h : Hierarchy) (n : Nat) (id : String) : List String :=
  (h.below n id).filter fun id => !h.isRoot id

/-- Where the table of clusters goes on with these, the walk writes the entries as these lines. -/
def Writes (xs : List Pending) (statements : List (DotStatement α)) (clusters : List String) :
    Prop :=
  ∀ done rest before, clustersOf request.hierarchy = done ++ clusters ++ rest →
    Clears (Pending.leads request.hierarchy) (Pending.add request) xs ⟨before, done⟩
      ⟨before ++ statements, done ++ clusters⟩

variable {request}

theorem Writes.nil : Writes request [] [] [] := fun done rest before _ => by
  rw [List.append_nil, List.append_nil]
  exact .nil

theorem Writes.append {xs ys : List Pending} {ss ss' : List (DotStatement α)}
    {cs cs' : List String} (hxs : Writes request xs ss cs) (hys : Writes request ys ss' cs') :
    Writes request (xs ++ ys) (ss ++ ss') (cs ++ cs') := by
  intro done rest before htable
  have htable' : clustersOf request.hierarchy = done ++ cs ++ (cs' ++ rest) := by
    simpa only [List.append_assoc] using htable
  have htable'' : clustersOf request.hierarchy = done ++ cs ++ cs' ++ rest := by
    simpa only [List.append_assoc] using htable
  have hboth := (hxs _ _ before htable').append (hys _ _ _ htable'')
  rwa [List.append_assoc, List.append_assoc] at hboth

theorem Writes.list {β : Type} {l : List β} {entry : β → Pending}
    {lines : β → List (DotStatement α)} {clusters : β → List String}
    (h : ∀ b ∈ l, Writes request [entry b] (lines b) (clusters b)) :
    Writes request (l.map entry) (l.flatMap lines) (l.flatMap clusters) := by
  induction l with
  | nil => exact .nil
  | cons b l ih =>
    obtain ⟨hb, hl⟩ := List.forall_mem_cons.1 h
    exact hb.append (ih hl)

theorem Writes.closing : Writes request [.closing] [.closing] [] := fun done rest before _ => by
  rw [List.append_nil]
  exact Clears.step .nil

/-- **The walk writes a container** with what is nested in it, when no level is cut off. -/
theorem writes_container (t : request.hierarchy.IsTree) {n : Nat} {id : String}
    (hid : request.hierarchy.containers.contains id = true)
    (hn : request.hierarchy.size ≤ request.hierarchy.depth id + n) :
    Writes request [.container id]
      (containerStatements request (clustersOf request.hierarchy) request.hierarchy.owners.keys n
        id)
      (clustersBelow request.hierarchy n id) := by
  induction n generalizing id with
  | zero =>
    have := t.depth_lt_size hid
    omega
  | succ n ih =>
    obtain ⟨c, hc⟩ := Table.contains_iff.1 hid
    have hc : request.hierarchy.container? id = some c := hc
    have hparent := Hierarchy.container?_parent hc
    have hchildren := Hierarchy.container?_children hc
    have hnested : Writes request (c.children.map .container)
        (c.children.flatMap (containerStatements request (clustersOf request.hierarchy)
          request.hierarchy.owners.keys n))
        (c.children.flatMap (clustersBelow request.hierarchy n)) := by
      refine Writes.list fun child hm => ?_
      have hp := t.mem_children.1 (hchildren ▸ hm)
      have := t.depthChild hp
      exact ih (Hierarchy.known_of_parent hp) (by omega)
    have hbelow : clustersBelow request.hierarchy (n + 1) id =
        (if c.parent.isNone then [] else [id]) ++
          c.children.flatMap (clustersBelow request.hierarchy n) := by
      rw [clustersBelow, Hierarchy.below, List.filter_cons, List.filter_flatMap, hchildren,
        Hierarchy.isRoot, hparent]
      cases c.parent <;> rfl
    intro done rest before htable
    refine Clears.step ?_
    rw [Pending.leads, Pending.add, containerStatements]
    simp only [hc]
    rw [hbelow] at htable ⊢
    cases hp : c.parent with
    | none =>
      simp only [hp, Option.isNone_none, if_true, List.nil_append, List.append_nil] at htable ⊢
      rw [← List.append_assoc]
      exact hnested done rest _ htable
    | some p =>
      simp only [hp, Option.isNone_some, Bool.false_eq_true, if_false] at htable ⊢
      -- the clusters before this one are those that have begun
      have hindex : (clustersOf request.hierarchy).idxOf id = done.length := by
        rw [List.append_assoc] at htable
        have hnodup := htable ▸ nodup_clustersOf t
        have hnew : id ∉ done := fun hm =>
          (List.nodup_append.1 hnodup).2.2 id hm id (.head _) rfl
        rw [htable, List.idxOf_append_of_notMem hnew, List.singleton_append, List.cons_append,
          List.idxOf_cons_self, Nat.add_zero]
      have hrest : clustersOf request.hierarchy = done ++ [id] ++
          (c.children.flatMap (clustersBelow request.hierarchy n) ++ []) ++ rest := by
        simpa using htable
      rw [hindex]
      simpa using hnested.append .closing _ _ (before ++ (clusterHead request c done.length ++
        c.elements.filterMap (nodeStatement request request.hierarchy.owners.keys))) hrest

/-- **A request is written in one walk**, which numbers the clusters as it goes. -/
theorem build_writtenBy (t : request.hierarchy.IsTree) : WrittenBy request (build request) := by
  obtain ⟨k, hk⟩ := writes_container t t.rootKnown (n := request.hierarchy.size + 1) (by omega)
    [] [] [] (List.append_nil _).symm
  exact ⟨k, _, hk [], rfl⟩

end

end NestedLayout.DotRequest
