import NestedLayout.Proofs.Hierarchy.Walk
import NestedLayout.Proofs.Sizing.Dot.Outline
import NestedLayout.Proofs.Sizing.Dot.Text
import NestedLayout.Scalar.Binary32

/-!
# How requests nest

The text of a request has an outline, and this is the container tree: the lines of a container stand
in the blocks of its ancestors.

* `read_containerStatements`: the lines of a container and what is nested in it, read inside the
  blocks around it, are those of the single containers in pre-order (`DotRequest.own`).
* `read_text`: so is the outline of a whole request, with the edges at its end.
-/

set_option autoImplicit false

namespace NestedLayout.DotRequest

open Outline (Entry)

/-! ## Blocks -/

/-- The line that opens the text of a request. -/
def headLine : String := "digraph layout \x7b"

/-- The containers that have clusters, in their order. -/
def clustersOf (h : Hierarchy) : List String := h.preOrder.filter fun id => !h.isRoot id

/-- The line that opens a cluster. -/
def openingLine (cluster : Nat) : String := (DotStatement.opening (α := Float32) cluster).text

/-- The line that opens the block of a container. -/
def blockLine (h : Hierarchy) (id : String) : String :=
  if h.isRoot id then headLine else openingLine ((clustersOf h).idxOf id)

/-- The blocks around what is in a container, the innermost first. -/
def inside (h : Hierarchy) (id : String) : List String := (h.ancestors id).map (blockLine h)

/-- The blocks around a container; the root is not in any other one. -/
def around (h : Hierarchy) (id : String) : List String := inside h ((h.parent? id).getD id)

section
variable {h : Hierarchy} (t : h.IsTree)
include t

theorem isRoot_iff {id : String} (hid : h.containers.contains id = true) :
    h.isRoot id = true ↔ id = h.root := by
  rw [Hierarchy.isRoot, Option.isNone_iff_eq_none]
  exact ⟨t.top hid, fun he => he ▸ t.rootTop⟩

theorem nodup_clustersOf : (clustersOf h).Nodup := t.nodup_preOrder.filter _

theorem inside_root : inside h h.root = [headLine] := by
  rw [inside, t.ancestors_root, List.map_singleton, blockLine,
    if_pos ((isRoot_iff t t.rootKnown).2 rfl)]

theorem inside_of_parent {id p : String} (hp : h.parent? id = some p) :
    inside h id = openingLine ((clustersOf h).idxOf id) :: inside h p := by
  have hroot : h.isRoot id = false := by rw [Hierarchy.isRoot, hp]; rfl
  rw [inside, t.ancestors_of_parent hp, List.map_cons, blockLine, hroot]
  rfl

omit t in
theorem around_of_parent {id p : String} (hp : h.parent? id = some p) :
    around h id = inside h p := by
  rw [around, hp]
  rfl

end

/-! ## Reading statements -/

/-- An entry with its line written out. -/
def entry (e : List String × DotStatement Float32) : Entry := (e.1, e.2.text)

/-- Inside the given blocks the lines of the statements are read as these entries, and the blocks
are as before. -/
def Reads (path : List String) (ss : List (DotStatement Float32))
    (es : List (List String × DotStatement Float32)) : Prop :=
  ∀ rest, Outline.read path (ss.map DotStatement.text ++ rest) =
    (Outline.read path rest).map (es.map entry ++ ·)

section
variable {path : List String} {ss ss' : List (DotStatement Float32)}
  {es es' : List (List String × DotStatement Float32)}

theorem Reads.append (h : Reads path ss es) (h' : Reads path ss' es') :
    Reads path (ss ++ ss') (es ++ es') := by
  intro rest
  rw [List.map_append, List.append_assoc, h, h', Option.map_map]
  congr 1
  funext more
  simp

theorem Reads.flatMap {β : Type} {l : List β} {f : β → List (DotStatement Float32)}
    {g : β → List (List String × DotStatement Float32)} (h : ∀ x ∈ l, Reads path (f x) (g x)) :
    Reads path (l.flatMap f) (l.flatMap g) := by
  induction l with
  | nil => intro rest; simp
  | cons x l ih =>
    obtain ⟨hx, hl⟩ := List.forall_mem_cons.1 h
    exact hx.append (ih hl)

/-- Lines that neither open nor close a block belong to the block around them. -/
theorem Reads.plain (hs : ∀ s ∈ ss, s.isOpening = false ∧ s.isClosing = false) :
    Reads path ss (ss.map (path, ·)) := by
  intro rest
  rw [Outline.read_plain, List.map_map, List.map_map]
  · rfl
  · intro l hl
    obtain ⟨s, hm, rfl⟩ := List.mem_map.1 hl
    rw [DotStatement.openBrace_mem_text_iff, DotStatement.closeBrace_mem_text_iff, (hs s hm).1,
      (hs s hm).2]
    exact ⟨Bool.false_ne_true, Bool.false_ne_true⟩

/-- **A cluster** is a block of its own. -/
theorem Reads.block {i : Nat} {inner : List String} (hinner : inner = openingLine i :: path)
    (h : Reads inner ss es) :
    Reads path (.opening i :: ss ++ [.closing]) ((path, .opening i) :: es) := by
  intro rest
  subst hinner
  have hopen := (DotStatement.openBrace_mem_text_iff (.opening i)).2 rfl
  have hclose := (DotStatement.closeBrace_mem_text_iff .closing).2 rfl
  have hnot : '\x7b' ∉ (DotStatement.closing (α := Float32)).text.toList := fun hm =>
    Bool.false_ne_true ((DotStatement.openBrace_mem_text_iff .closing).1 hm)
  rw [List.map_append, List.append_assoc, List.map_cons, List.cons_append,
    Outline.read_open hopen, ← openingLine, h, List.map_singleton, List.singleton_append,
    Outline.read_close hnot hclose, Option.map_map]
  rfl

end

/-! ## The lines of one container -/

section
variable (request : SizingRequest Float32)

/-- The lines for the elements of a container. -/
def elementLines (c : Container) : List (DotStatement Float32) :=
  c.elements.filterMap (nodeStatement request request.hierarchy.owners.keys)

/-- The lines of a container alone, with the blocks around them: its cluster, with what always
stands at the start, and its elements. -/
def own (id : String) : List (List String × DotStatement Float32) :=
  let h := request.hierarchy
  match h.container? id with
  | none => []
  | some c =>
    let cluster := (clustersOf h).idxOf id
    (if c.parent.isNone then [] else
      (around h id, .opening cluster) ::
        (clusterHead request c cluster).tail.map (inside h id, ·)) ++
      (elementLines request c).map (inside h id, ·)

theorem elementLines_plain (c : Container) :
    ∀ s ∈ elementLines request c, s.isOpening = false ∧ s.isClosing = false := by
  intro s hs
  obtain ⟨e, -, he⟩ := List.mem_filterMap.1 hs
  obtain ⟨i, -, rfl⟩ := Option.map_eq_some_iff.1 he
  exact ⟨rfl, rfl⟩

/-- A cluster starts with its margin, and with a placeholder when it has no contents. -/
theorem exists_clusterHead (c : Container) (cluster : Nat) : ∃ w h, clusterHead request c cluster =
    .opening cluster :: .margin request.settings.spacing.padding ::
      if c.elements.isEmpty && c.children.isEmpty then [.placeholder cluster w h] else [] :=
  ⟨_, _, rfl⟩

theorem clusterHead_tail_plain (c : Container) (cluster : Nat) :
    ∀ s ∈ (clusterHead request c cluster).tail, s.isOpening = false ∧ s.isClosing = false := by
  obtain ⟨w, h, he⟩ := exists_clusterHead request c cluster
  rw [he, List.tail_cons, List.forall_mem_cons]
  refine ⟨⟨rfl, rfl⟩, fun s hs => ?_⟩
  split at hs
  · rw [List.mem_singleton.1 hs]
    exact ⟨rfl, rfl⟩
  · cases hs

/-- **The lines of a container and of what is nested in it**, read inside the blocks around it, are
those of the single containers in pre-order. -/
theorem reads_containerStatements (t : request.hierarchy.IsTree) (n : Nat) {id : String}
    (hid : request.hierarchy.containers.contains id = true) :
    Reads (around request.hierarchy id)
      (containerStatements request (clustersOf request.hierarchy) request.hierarchy.owners.keys n
        id)
      ((request.hierarchy.below n id).flatMap (own request)) := by
  induction n generalizing id with
  | zero =>
    intro rest
    simp [containerStatements, Hierarchy.below]
  | succ n ih =>
    obtain ⟨c, hc⟩ := Table.contains_iff.1 hid
    have hc : request.hierarchy.container? id = some c := hc
    have hparent := Hierarchy.container?_parent hc
    -- elements and children are lines in the block of the container
    have hbody : Reads (inside request.hierarchy id)
        (elementLines request c ++ c.children.flatMap (containerStatements request
          (clustersOf request.hierarchy) request.hierarchy.owners.keys n))
        ((elementLines request c).map (inside request.hierarchy id, ·) ++
          (c.children.flatMap (request.hierarchy.below n)).flatMap (own request)) := by
      rw [List.flatMap_assoc]
      refine (Reads.plain (elementLines_plain request c)).append (Reads.flatMap fun child hm => ?_)
      rw [← Hierarchy.container?_children hc] at hm
      have hp := t.mem_children.1 hm
      rw [← around_of_parent hp]
      exact ih (Hierarchy.known_of_parent hp)
    rw [containerStatements, Hierarchy.below, List.flatMap_cons, own,
      Hierarchy.container?_children hc]
    simp only [hc]
    cases hp : c.parent with
    | none =>
      -- the root has no cluster: its block is the one of the whole text
      rw [hp] at hparent
      have haround : around request.hierarchy id = inside request.hierarchy id := by
        rw [around, hparent]
        rfl
      rw [haround]
      exact hbody
    | some p =>
      rw [hp] at hparent
      have hinner := inside_of_parent t hparent
      rw [← around_of_parent hparent] at hinner
      have hblock := Reads.block hinner ((Reads.plain (clusterHead_tail_plain request c
        ((clustersOf request.hierarchy).idxOf id))).append hbody)
      obtain ⟨w, h, hhead⟩ := exists_clusterHead request c ((clustersOf request.hierarchy).idxOf id)
      rw [hhead, List.tail_cons] at hblock ⊢
      simpa [elementLines] using hblock

/-! ## The whole request -/

/-- The lines with attributes at the start of a request. -/
def preamble : List String :=
  ["  graph [compound=true, margin=0, nodesep=0.2, ranksep=0.3];",
    "  node [shape=box, fixedsize=true, label=\"\"];"]

/-- All statements of a request, with the blocks around them. -/
def statementsAt : List (List String × DotStatement Float32) :=
  request.hierarchy.preOrder.flatMap (own request) ++
    (request.connectors.flatMap (edges request.hierarchy.owners.keys)).map ([headLine], ·)

/-- The outline of the text of a request. -/
def outline : List Entry :=
  ([], headLine) :: preamble.map ([headLine], ·) ++ (statementsAt request).map entry

/-- The lines of the text of a request. -/
def lines : List String :=
  headLine :: preamble ++ (build request).statements.map DotStatement.text ++ ["\x7d"]

theorem text_build : (build request).text = String.join ((lines request).map (· ++ "\n")) := rfl

/-- Every line is one of a statement, or of the head or the end. -/
theorem forall_mem_lines {P : String → Prop} (hhead : P headLine) (hpreamble : ∀ l ∈ preamble, P l)
    (hend : P "\x7d") (hs : ∀ s : DotStatement Float32, P s.text) : ∀ l ∈ lines request, P l := by
  intro l hl
  simp only [lines, List.cons_append, List.mem_cons, List.mem_append, List.mem_map,
    List.not_mem_nil, or_false] at hl
  rcases hl with rfl | (hl | ⟨s, -, rfl⟩) | rfl
  · exact hhead
  · exact hpreamble l hl
  · exact hs s
  · exact hend

theorem linesOf_text : Outline.linesOf (build request).text = lines request := by
  rw [text_build, Outline.linesOf_join]
  exact forall_mem_lines request (by decide) (by decide) (by decide)
    DotStatement.lineBreak_not_mem_text

theorem edges_plain (nodes : List String) (c : Connector) :
    ∀ s ∈ edges (α := Float32) nodes c, s.isOpening = false ∧ s.isClosing = false := by
  intro s hs
  unfold edges at hs
  split at hs
  · cases hs
  · obtain ⟨target, -, rfl⟩ := List.mem_map.1 hs
    exact ⟨rfl, rfl⟩

/-- **The outline of a request**: its statements, container by container in pre-order, and then the
edges outside of all clusters. -/
theorem read_text (t : request.hierarchy.IsTree) :
    Outline.read [] (Outline.linesOf (build request).text) = some (outline request) := by
  have haround : around request.hierarchy request.hierarchy.root = [headLine] := by
    rw [around, t.rootTop]
    exact inside_root t
  have hstatements : Reads [headLine] (build request).statements (statementsAt request) := by
    rw [← haround]
    refine (reads_containerStatements request t _ t.rootKnown).append ?_
    rw [haround]
    refine Reads.plain fun s hs => ?_
    obtain ⟨c, -, hs⟩ := List.mem_flatMap.1 hs
    exact edges_plain _ c s hs
  have hpreamble : ∀ l ∈ preamble, '\x7b' ∉ l.toList ∧ '\x7d' ∉ l.toList := by decide
  rw [linesOf_text, lines, List.cons_append, List.cons_append, List.append_assoc,
    Outline.read_open (by decide), Outline.read_plain hpreamble, hstatements,
    Outline.read_close (by decide) (by decide)]
  simp [Outline.read, outline]

/-- **The braces of a request are balanced.** -/
theorem balanced_text (t : request.hierarchy.IsTree) :
    Outline.Balanced (build request).text.toList := by
  have hread := read_text request t
  rw [linesOf_text] at hread
  rw [text_build, Outline.toList_join]
  exact Outline.balanced_of_read (forall_mem_lines request (by decide) (by decide) (by decide)
    DotStatement.count_braces_text_le) hread

end

end NestedLayout.DotRequest
