import NestedLayout.Proofs.Drawing.Placed
import NestedLayout.Proofs.Hierarchy.Connectors
import NestedLayout.Proofs.Sizing.Dot.Writing

/-!
# What a request says

The outline of a request shows the container tree with its elements and connectors, under the
numbers of the tables that come with it: `build_mirrors`.

* `starting_openings`, `map_placeholders`, `map_nodes`, `filter_arrows`: the lines of each kind,
  found by the way they are written, with the blocks that they stand in.
* `opening_in_block_iff`, `placeholder_in_block_iff`: so clusters stand in each other as containers
  do, and placeholders in those without contents.
* `mirrors_outline`: these lines, with the numbers of the tables.
-/

set_option autoImplicit false

namespace NestedLayout.DotRequest

open Outline (Entry)

/-! ## Lists -/

section
variable {β γ : Type}

theorem flatMap_ite (l : List β) (p : β → Bool) (f : β → γ) :
    (l.flatMap fun x => if p x then [f x] else []) = (l.filter p).map f := by
  induction l with
  | nil => rfl
  | cons x l ih =>
    rw [List.flatMap_cons, ih, List.filter_cons]
    split <;> rfl

/-- A member of a list without repetitions is the only one with its image. -/
theorem filter_eq_singleton [DecidableEq γ] {l : List β} {f : β → γ} (hn : (l.map f).Nodup) {x : β}
    (hx : x ∈ l) : (l.filter fun y => f y = f x) = [x] := by
  induction l with
  | nil => cases hx
  | cons a l ih =>
    obtain ⟨ha, hl⟩ := List.nodup_cons.1 (List.map_cons ▸ hn)
    rcases List.mem_cons.1 hx with rfl | hx
    · have hnone : (l.filter fun y => f y = f x) = [] := List.filter_eq_nil_iff.2 fun y hy => by
        simpa using fun he : f y = f x => ha (he ▸ List.mem_map_of_mem hy)
      rw [List.filter_cons_of_pos (by simp), hnone]
    · have hne : f a ≠ f x := fun he => ha (he ▸ List.mem_map_of_mem hx)
      rw [List.filter_cons_of_neg (by simpa using hne), ih hl hx]

theorem map_idxOf [DecidableEq β] {l : List β} (hn : l.Nodup) :
    l.map (l.idxOf ·) = List.range l.length := by
  refine List.ext_getElem (by simp) fun i hi hi' => ?_
  simp [hn.idxOf_getElem]

theorem idxOf_of_getElem? [DecidableEq β] {l : List β} (hn : l.Nodup) {i : Nat} {x : β}
    (h : l[i]? = some x) : l.idxOf x = i := by
  obtain ⟨hi, rfl⟩ := List.getElem?_eq_some_iff.1 h
  exact hn.idxOf_getElem i hi

theorem idxOf?_of_mem [DecidableEq β] {l : List β} {x : β} (hx : x ∈ l) :
    l.idxOf? x = some (l.idxOf x) := by
  cases he : l.idxOf? x with
  | none => exact absurd hx (List.idxOf?_eq_none_iff.1 he)
  | some i => rw [List.idxOf_eq_getD_idxOf?, he, Option.getD_some]

end

/-! ## The lines of one kind -/

/-- The line of an edge. -/
def edgeLine (source target : Nat) : String := (DotStatement.edge (α := Float32) source target).text

/-- The entries whose lines start with a mark. -/
def starting (mark : String) (entries : List Entry) : List Entry :=
  entries.filter fun e => mark.toList.isPrefixOf e.2.toList

section
variable (request : SizingRequest Float32)

/-- Lines of a kind that is not in the preamble are lines of statements. -/
theorem filter_outline (P : String → Bool) {Q : DotStatement Float32 → Bool}
    (hhead : P headLine = false) (hpreamble : ∀ l ∈ preamble, P l = false)
    (hs : ∀ s : DotStatement Float32, P s.text = Q s) :
    (outline request).filter (fun e => P e.2) =
      ((statementsAt request).filter fun e => Q e.2).map entry := by
  have hnone : (preamble.map fun l => ([headLine], l)).filter (fun e => P e.2) = [] := by
    rw [List.filter_map, List.map_eq_nil_iff]
    exact List.filter_eq_nil_iff.2 fun l hl => by simpa using hpreamble l hl
  rw [outline, List.cons_append, List.filter_cons_of_neg (by simpa using hhead), List.filter_append,
    hnone, List.nil_append, List.filter_map]
  exact congrArg _ (List.filter_congr fun e _ => hs e.2)

/-- The statements of a kind, container by container, when edges are of another kind. -/
theorem filter_statementsAt {Q : DotStatement Float32 → Bool}
    (hedge : ∀ i j, Q (.edge i j) = false) :
    (statementsAt request).filter (fun e => Q e.2) =
      request.hierarchy.preOrder.flatMap fun id => (own request id).filter fun e => Q e.2 := by
  have hnone : ((request.connectors.flatMap (edges request.hierarchy.owners.keys)).map
      fun s => ([headLine], s)).filter (fun e => Q e.2) = [] := by
    rw [List.filter_map, List.map_eq_nil_iff]
    refine List.filter_eq_nil_iff.2 fun s hs => ?_
    obtain ⟨c, -, hs⟩ := List.mem_flatMap.1 hs
    unfold edges at hs
    split at hs
    · cases hs
    · obtain ⟨target, -, rfl⟩ := List.mem_map.1 hs
      simp [hedge]
  rw [statementsAt, List.filter_append, hnone, List.append_nil, List.filter_flatMap]

/-- Whether a container has no contents. -/
def isVacant (h : Hierarchy) (id : String) : Bool :=
  (h.elements id).isEmpty && (h.children id).isEmpty

variable {request}

/-- The lines of a container: its cluster unless it is the root, and its elements. -/
theorem exists_own {id : String} (hid : request.hierarchy.containers.contains id = true) :
    ∃ c w h, request.hierarchy.container? id = some c ∧ own request id =
      (if request.hierarchy.isRoot id then [] else
        (around request.hierarchy id, .opening ((clustersOf request.hierarchy).idxOf id)) ::
        (inside request.hierarchy id, .margin request.settings.spacing.padding) ::
        if isVacant request.hierarchy id then
          [(inside request.hierarchy id,
            .placeholder ((clustersOf request.hierarchy).idxOf id) w h)] else []) ++
      (elementLines request c).map (inside request.hierarchy id, ·) := by
  obtain ⟨c, hc⟩ := Table.contains_iff.1 hid
  have hc : request.hierarchy.container? id = some c := hc
  obtain ⟨w, h, hhead⟩ := exists_clusterHead request c ((clustersOf request.hierarchy).idxOf id)
  refine ⟨c, w, h, hc, ?_⟩
  have hroot : request.hierarchy.isRoot id = c.parent.isNone := by
    rw [Hierarchy.isRoot, Hierarchy.container?_parent hc]
  have hvacant : isVacant request.hierarchy id = (c.elements.isEmpty && c.children.isEmpty) := by
    rw [isVacant, Hierarchy.container?_elements hc, Hierarchy.container?_children hc]
  rw [own, hroot, hvacant]
  simp only [hc, hhead, List.tail_cons]
  cases c.parent.isNone <;> cases c.elements.isEmpty && c.children.isEmpty <;> rfl

/-- Lines of elements are lines of nodes. -/
theorem filter_elementLines {Q : DotStatement Float32 → Bool}
    (hQ : ∀ i w h, Q (.node i w h) = false) (c : Container) (path : List String) :
    ((elementLines request c).map (path, ·)).filter (fun e => Q e.2) = [] := by
  rw [List.filter_map, List.map_eq_nil_iff]
  refine List.filter_eq_nil_iff.2 fun s hs => ?_
  obtain ⟨e, -, he⟩ := List.mem_filterMap.1 hs
  obtain ⟨i, -, rfl⟩ := Option.map_eq_some_iff.1 he
  simp [hQ]

theorem exists_nodeStatement (request : SizingRequest Float32) : ∃ w h : String → Float32,
    ∀ e ∈ request.hierarchy.owners.keys, nodeStatement request request.hierarchy.owners.keys e =
      some (.node (request.hierarchy.owners.keys.idxOf e) (w e) (h e)) :=
  ⟨_, _, fun e he => by rw [nodeStatement, idxOf?_of_mem he]; rfl⟩

variable (t : request.hierarchy.IsTree)
include t

theorem flatMap_preOrder_congr {β : Type} {f g : String → List β}
    (h : ∀ id, request.hierarchy.containers.contains id = true → f id = g id) :
    request.hierarchy.preOrder.flatMap f = request.hierarchy.preOrder.flatMap g :=
  List.flatMap_congr fun id hid => h id (t.mem_preOrder.1 hid)

/-- **The clusters open** in the order of their numbers, each in the block around its container. -/
theorem starting_openings : starting "  subgraph cluster_" (outline request) =
    (clustersOf request.hierarchy).map fun id => (around request.hierarchy id,
      openingLine ((clustersOf request.hierarchy).idxOf id)) := by
  rw [starting, filter_outline request ("  subgraph cluster_".toList.isPrefixOf ·.toList) rfl
    (by decide) DotStatement.isPrefixOf_opening, filter_statementsAt request fun _ _ => rfl]
  have hown : ∀ id, request.hierarchy.containers.contains id = true →
      (own request id).filter (fun e => e.2.isOpening) =
        if !request.hierarchy.isRoot id then [(around request.hierarchy id,
          .opening ((clustersOf request.hierarchy).idxOf id))] else [] := fun id hid => by
    obtain ⟨c, w, h, -, he⟩ := exists_own hid
    rw [he, List.filter_append, filter_elementLines (Q := DotStatement.isOpening) fun _ _ _ => rfl]
    cases request.hierarchy.isRoot id <;> cases isVacant request.hierarchy id <;> rfl
  rw [flatMap_preOrder_congr t hown, flatMap_ite, List.map_map]
  rfl

/-- **Placeholders stand** in the clusters of the containers without contents. -/
theorem map_placeholders : (starting "    e" (outline request)).map (·.1) =
    ((clustersOf request.hierarchy).filter (isVacant request.hierarchy)).map
      (inside request.hierarchy) := by
  rw [starting, filter_outline request ("    e".toList.isPrefixOf ·.toList) rfl (by decide)
    DotStatement.isPrefixOf_placeholder, filter_statementsAt request fun _ _ => rfl]
  have hown : ∀ id, request.hierarchy.containers.contains id = true →
      ((own request id).filter (fun e => e.2.isPlaceholder)).map (·.1) =
        if isVacant request.hierarchy id && !request.hierarchy.isRoot id then
          [inside request.hierarchy id] else [] := fun id hid => by
    obtain ⟨c, w, h, -, he⟩ := exists_own hid
    rw [he, List.filter_append,
      filter_elementLines (Q := DotStatement.isPlaceholder) fun _ _ _ => rfl]
    cases request.hierarchy.isRoot id <;> cases isVacant request.hierarchy id <;> rfl
  rw [List.map_map, show (Prod.fst ∘ entry) = Prod.fst from rfl, List.map_flatMap,
    flatMap_preOrder_congr t hown, flatMap_ite, clustersOf, List.filter_filter]

/-- **Nodes stand** in the blocks of the containers that own their elements. -/
theorem map_nodes {mark : String} {q : Nat → Bool}
    (hhead : mark.toList.isPrefixOf headLine.toList = false)
    (hpreamble : ∀ l ∈ preamble, mark.toList.isPrefixOf l.toList = false)
    (hs : ∀ s : DotStatement Float32, mark.toList.isPrefixOf s.text.toList = s.nodeIndex?.any q) :
    (starting mark (outline request)).map (·.1) =
      ((Drawing.members request.hierarchy).filter fun m =>
        q (request.hierarchy.owners.keys.idxOf m.2)).map fun m => inside request.hierarchy m.1 := by
  rw [starting, filter_outline request (mark.toList.isPrefixOf ·.toList) hhead hpreamble hs,
    filter_statementsAt request (Q := fun s => s.nodeIndex?.any q) fun _ _ => rfl]
  obtain ⟨w, h, hnode⟩ := exists_nodeStatement request
  have hown : ∀ id, request.hierarchy.containers.contains id = true →
      ((own request id).filter (fun e => e.2.nodeIndex?.any q)).map (·.1) =
        (((request.hierarchy.elements id).map fun e => (id, e)).filter fun m =>
          q (request.hierarchy.owners.keys.idxOf m.2)).map fun m => inside request.hierarchy m.1 :=
      fun id hid => by
    obtain ⟨c, _, _, hc, he⟩ := exists_own hid
    have hlines : elementLines request c = (request.hierarchy.elements id).map fun e =>
        .node (request.hierarchy.owners.keys.idxOf e) (w e) (h e) := by
      rw [elementLines, ← Hierarchy.container?_elements hc, ← List.filterMap_eq_map]
      refine List.filterMap_congr fun e hm => hnode e ?_
      exact Table.mem_keys_iff.2 (Table.contains_of_get? (t.mem_elements.1 hm))
    have hcluster : ∀ l : List (List String × DotStatement Float32),
        (∀ e ∈ l, e.2.nodeIndex? = none) → l.filter (fun e => e.2.nodeIndex?.any q) = [] :=
      fun l hl => List.filter_eq_nil_iff.2 fun e hm => by simp [hl e hm]
    rw [he, List.filter_append, hcluster, List.nil_append, hlines, List.map_map, List.filter_map,
      List.filter_map, List.map_map, List.map_map]
    · rfl
    · cases request.hierarchy.isRoot id <;> cases isVacant request.hierarchy id <;>
        simp [DotStatement.nodeIndex?]
  rw [List.map_map, show (Prod.fst ∘ entry) = Prod.fst from rfl, List.map_flatMap,
    flatMap_preOrder_congr t hown, Drawing.members, List.filter_flatMap, List.map_flatMap]

/-- **Edges** stand outside of all clusters, from the hub of each connector to its other
endpoints. -/
theorem filter_arrows
    (hknown : ∀ c ∈ request.connectors, c.hub ∈ request.hierarchy.owners.keys ∧
      ∀ e ∈ c.others, e ∈ request.hierarchy.owners.keys) :
    (outline request).filter (fun e => e.2.toList.contains '>') =
      request.connectors.flatMap fun c => c.others.map fun o => ([headLine],
        edgeLine (request.hierarchy.owners.keys.idxOf c.hub)
          (request.hierarchy.owners.keys.idxOf o)) := by
  have harrow : ∀ s : DotStatement Float32, s.text.toList.contains '>' = s.isEdge := fun s => by
    rw [Bool.eq_iff_iff, List.contains_iff_mem]
    exact s.arrow_mem_text_iff
  have hedges : ∀ c ∈ request.connectors, edges (α := Float32) request.hierarchy.owners.keys c =
      c.others.map fun o => .edge (request.hierarchy.owners.keys.idxOf c.hub)
        (request.hierarchy.owners.keys.idxOf o) := fun c hc => by
    obtain ⟨hhub, hothers⟩ := hknown c hc
    rw [edges, idxOf?_of_mem hhub, List.filterMap_congr fun o ho => idxOf?_of_mem (hothers o ho),
      List.filterMap_eq_map']
    exact List.map_map
  have hown : ∀ id, request.hierarchy.containers.contains id = true →
      (own request id).filter (fun e => e.2.isEdge) = [] := fun id hid => by
    obtain ⟨c, w, h, -, he⟩ := exists_own hid
    rw [he, List.filter_append, filter_elementLines (Q := DotStatement.isEdge) fun _ _ _ => rfl]
    cases request.hierarchy.isRoot id <;> cases isVacant request.hierarchy id <;> rfl
  have hall : ∀ s ∈ request.connectors.flatMap
      (edges (α := Float32) request.hierarchy.owners.keys), s.isEdge = true := fun s hs => by
    obtain ⟨c, hc, hs⟩ := List.mem_flatMap.1 hs
    rw [hedges c hc] at hs
    obtain ⟨o, -, rfl⟩ := List.mem_map.1 hs
    rfl
  rw [filter_outline request (·.toList.contains '>') rfl (by decide) harrow, statementsAt,
    List.filter_append, List.filter_flatMap, flatMap_preOrder_congr t hown,
    List.flatMap_eq_nil_iff.2 fun _ _ => rfl, List.nil_append,
    List.filter_eq_self.2 (fun e he => by
      obtain ⟨s, hs, rfl⟩ := List.mem_map.1 he
      exact hall s hs),
    List.flatMap_congr hedges, List.map_map, List.map_flatMap]
  exact List.flatMap_congr fun c _ => List.map_map

end

/-! ## The whole text -/

theorem clusters_build {α : Type} [Scalar α] (request : SizingRequest α) :
    (build request).clusters = clustersOf request.hierarchy := rfl

/-- An outline shows the containers, elements and connectors under the numbers of the tables. -/
structure Mirrors (h : Hierarchy) (cs : List Connector) (r : DotRequest Float32)
    (entries : List Entry) : Prop where
  /-- The clusters are the containers below the root, in pre-order. -/
  clusters : h.preOrder = h.root :: r.clusters
  /-- The nodes are the elements. -/
  nodes : r.nodes = h.owners.keys
  /-- Every cluster opens once. -/
  openings : (starting "  subgraph cluster_" entries).map (·.2) =
    (List.range r.clusters.length).map openingLine
  /-- A cluster stands directly in another one when it is that of a child. -/
  nested : ∀ {i j a b}, r.clusters[i]? = some a → r.clusters[j]? = some b →
    ((∃ rest, (openingLine j :: rest, openingLine i) ∈ entries) ↔ h.parent? a = some b)
  /-- A cluster stands outside of all others when it is that of a child of the root. -/
  outermost : ∀ {i a}, r.clusters[i]? = some a →
    (([headLine], openingLine i) ∈ entries ↔ h.parent? a = some h.root)
  /-- Every element has one line, directly in the block of its owner. -/
  owned : ∀ {k e c}, r.nodes[k]? = some e → h.owners.get? e = some c →
    ∃ rest, (starting (DotStatement.nodeMark k) entries).map (·.1) = [blockLine h c :: rest]
  nodeCount : (starting "    n" entries).length = r.nodes.length
  /-- The clusters without contents hold a placeholder. -/
  held : ∀ {i a}, r.clusters[i]? = some a →
    ((∃ rest, openingLine i :: rest ∈ (starting "    e" entries).map (·.1)) ↔
      h.elements a = [] ∧ h.children a = [])
  placeholderCount : (starting "    e" entries).length = (r.clusters.filter (isVacant h)).length
  /-- The ends of connectors have nodes. -/
  ends : ∀ c ∈ cs, c.hub ∈ r.nodes ∧ ∀ o ∈ c.others, o ∈ r.nodes
  /-- Every end of a connector beside its hub has one edge. -/
  arrows : entries.filter (fun e => e.2.toList.contains '>') = cs.flatMap fun c =>
    c.others.map fun o => ([headLine], edgeLine (r.nodes.idxOf c.hub) (r.nodes.idxOf o))

section
variable {h : Hierarchy} (t : h.IsTree)
include t

theorem preOrder_eq : h.preOrder = h.root :: clustersOf h := by
  have hhead : ∃ rest, h.preOrder = h.root :: rest := ⟨_, rfl⟩
  obtain ⟨rest, hrest⟩ := hhead
  have hnodup := t.nodup_preOrder
  rw [hrest, List.nodup_cons] at hnodup
  have hbelow : ∀ id ∈ rest, (!h.isRoot id) = true := fun id hid => by
    have hknown := t.mem_preOrder.1 (hrest ▸ List.mem_cons_of_mem _ hid)
    have hne : ¬ h.isRoot id = true := fun hr => hnodup.1 ((isRoot_iff t hknown).1 hr ▸ hid)
    simpa using hne
  rw [clustersOf, hrest, List.filter_cons_of_neg, List.filter_eq_self.2 hbelow]
  simpa using (isRoot_iff t t.rootKnown).2 rfl

theorem mem_clustersOf_iff {id : String} : id ∈ clustersOf h ↔ ∃ p, h.parent? id = some p := by
  rw [clustersOf, List.mem_filter, t.mem_preOrder, Bool.not_eq_true', Hierarchy.isRoot,
    ← Option.isSome_iff_exists, ← Option.not_isNone, Bool.not_eq_true']
  refine ⟨fun hid => hid.2, fun hp => ⟨?_, hp⟩⟩
  obtain ⟨p, hp⟩ := Option.isSome_iff_exists.1 (by rw [← Option.not_isNone, hp]; rfl)
  exact Hierarchy.known_of_parent hp

omit t in
/-- What is in a container stands directly in its block. -/
theorem exists_inside (h : Hierarchy) (id : String) :
    ∃ rest, inside h id = blockLine h id :: rest := ⟨_, rfl⟩

theorem blockLine_root : blockLine h h.root = headLine := by
  rw [blockLine, if_pos ((isRoot_iff t t.rootKnown).2 rfl)]

/-- **Blocks of different containers** are opened by different lines. -/
theorem blockLine_inj {a b : String} (ha : h.containers.contains a = true)
    (hb : h.containers.contains b = true) : blockLine h a = blockLine h b ↔ a = b := by
  have hhead : ∀ i, headLine ≠ openingLine i := fun i he => by
    have hprefix : "  subgraph cluster_".toList.isPrefixOf (openingLine i).toList = true :=
      DotStatement.isPrefixOf_opening (.opening i)
    rw [← he] at hprefix
    exact absurd hprefix (by decide)
  have hmem : ∀ {id}, h.containers.contains id = true → h.isRoot id = false → id ∈ clustersOf h :=
    fun hid hr => List.mem_filter.2 ⟨t.mem_preOrder.2 hid, by simp [hr]⟩
  refine ⟨fun he => ?_, fun he => he ▸ rfl⟩
  unfold blockLine at he
  cases hra : h.isRoot a <;> cases hrb : h.isRoot b <;> simp only [hra, hrb] at he
  · exact (List.idxOf_inj (hmem ha hra)).1 (DotStatement.text_opening_inj.1 he)
  · exact absurd he.symm (hhead _)
  · exact absurd he (hhead _)
  · rw [(isRoot_iff t ha).1 hra, (isRoot_iff t hb).1 hrb]

/-- The block of a container with a cluster. -/
theorem blockLine_cluster {i : Nat} {a : String} (ha : (clustersOf h)[i]? = some a) :
    h.containers.contains a = true ∧ blockLine h a = openingLine i := by
  obtain ⟨hknown, hroot⟩ := List.mem_filter.1 (List.mem_of_getElem? ha)
  refine ⟨t.mem_preOrder.1 hknown, ?_⟩
  rw [blockLine, if_neg (by simpa using hroot), idxOf_of_getElem? (nodup_clustersOf t) ha]

end

section
variable {request : SizingRequest Float32} (t : request.hierarchy.IsTree)
include t

/-- **A cluster stands** in the blocks around its container, and nowhere else. -/
theorem mem_outline_opening {path : List String} {i : Nat} {a : String}
    (ha : (clustersOf request.hierarchy)[i]? = some a) :
    (path, openingLine i) ∈ outline request ↔ path = around request.hierarchy a := by
  have hmark : "  subgraph cluster_".toList.isPrefixOf (openingLine i).toList = true :=
    DotStatement.isPrefixOf_opening (.opening i)
  have hmem : (path, openingLine i) ∈ outline request ↔
      (path, openingLine i) ∈ starting "  subgraph cluster_" (outline request) := by
    rw [starting, List.mem_filter, and_iff_left hmark]
  have hindex := idxOf_of_getElem? (nodup_clustersOf t) ha
  rw [hmem, starting_openings t, List.mem_map]
  refine ⟨fun ⟨id, hid, he⟩ => ?_, fun hp => ⟨a, List.mem_of_getElem? ha, by rw [hindex, hp]⟩⟩
  obtain ⟨rfl, hline⟩ := Prod.mk.inj he
  rw [DotStatement.text_opening_inj.1 hline |>.trans hindex.symm |> (List.idxOf_inj hid).1]

/-- **The line of an element** stands directly in the block of its owner. -/
theorem starting_nodeMark {k : Nat} {e c : String} (he : request.hierarchy.owners.keys[k]? = some e)
    (hc : request.hierarchy.owners.get? e = some c) :
    (starting (DotStatement.nodeMark k) (outline request)).map (·.1) =
      [inside request.hierarchy c] := by
  have hplain : ∀ l : String, "    n".toList.isPrefixOf l.toList = false →
      (DotStatement.nodeMark k).toList.isPrefixOf l.toList = false := fun l hl => by
    refine Bool.eq_false_iff.2 fun hp => Bool.eq_false_iff.1 hl ?_
    exact List.isPrefixOf_iff_prefix.2
      ((DotStatement.prefix_nodeMark k).trans (List.isPrefixOf_iff_prefix.1 hp))
  have hmark : ∀ s : DotStatement Float32,
      (DotStatement.nodeMark k).toList.isPrefixOf s.text.toList =
        s.nodeIndex?.any fun i => decide (i = k) := fun s => by
    rw [Bool.eq_iff_iff, DotStatement.isPrefixOf_nodeMark_iff]
    cases s.nodeIndex? <;> simp
  have hkeys := Table.nodup_keys request.hierarchy.owners
  have hindex := idxOf_of_getElem? hkeys he
  have hnodup : ((Drawing.members request.hierarchy).map fun m =>
      request.hierarchy.owners.keys.idxOf m.2).Nodup := by
    have hperm := (Drawing.members_perm t).map request.hierarchy.owners.keys.idxOf
    rw [List.map_map, map_idxOf hkeys] at hperm
    exact hperm.nodup_iff.2 List.nodup_range
  rw [map_nodes t (hplain _ rfl) (fun l hl => hplain l (by revert l; decide)) hmark, ← hindex,
    filter_eq_singleton hnodup (x := (c, e)) ((Drawing.mem_members t).2 hc)]
  rfl

/-- **A cluster stands directly in the block** of another container when that is its parent. -/
theorem opening_in_block_iff {i : Nat} {a b : String}
    (ha : (clustersOf request.hierarchy)[i]? = some a)
    (hb : request.hierarchy.containers.contains b = true) :
    (∃ rest, (blockLine request.hierarchy b :: rest, openingLine i) ∈ outline request) ↔
      request.hierarchy.parent? a = some b := by
  obtain ⟨p, hp⟩ := (mem_clustersOf_iff t).1 (List.mem_of_getElem? ha)
  obtain ⟨rest, hrest⟩ := exists_inside request.hierarchy p
  have hinj := blockLine_inj t (t.parentKnown hp) hb
  rw [hp, Option.some.injEq, ← hinj]
  constructor
  · rintro ⟨rest', hm⟩
    rw [mem_outline_opening t ha, around_of_parent hp, hrest] at hm
    exact (List.cons.inj hm).1.symm
  · intro he
    refine ⟨rest, ?_⟩
    rw [mem_outline_opening t ha, around_of_parent hp, hrest, he]

/-- A cluster stands outside of all others when its container is a child of the root. -/
theorem opening_outermost_iff {i : Nat} {a : String}
    (ha : (clustersOf request.hierarchy)[i]? = some a) :
    ([headLine], openingLine i) ∈ outline request ↔
      request.hierarchy.parent? a = some request.hierarchy.root := by
  obtain ⟨p, hp⟩ := (mem_clustersOf_iff t).1 (List.mem_of_getElem? ha)
  obtain ⟨rest, hrest⟩ := exists_inside request.hierarchy p
  rw [mem_outline_opening t ha, around_of_parent hp, hp, Option.some.injEq]
  refine ⟨fun he => ?_, fun he => he ▸ (inside_root t).symm⟩
  rw [hrest, ← blockLine_root t] at he
  exact (blockLine_inj t (t.parentKnown hp) t.rootKnown).1 (List.cons.inj he).1.symm

/-- **A placeholder stands in the block** of a container without contents. -/
theorem placeholder_in_block_iff {i : Nat} {a : String}
    (ha : (clustersOf request.hierarchy)[i]? = some a) :
    (∃ rest, openingLine i :: rest ∈ (starting "    e" (outline request)).map (·.1)) ↔
      request.hierarchy.elements a = [] ∧ request.hierarchy.children a = [] := by
  obtain ⟨ha', hline⟩ := blockLine_cluster t ha
  have hvacant : isVacant request.hierarchy a = true ↔
      request.hierarchy.elements a = [] ∧ request.hierarchy.children a = [] := by
    rw [isVacant, Bool.and_eq_true, List.isEmpty_iff, List.isEmpty_iff]
  rw [← hvacant, map_placeholders t]
  constructor
  · rintro ⟨rest, hm⟩
    obtain ⟨id, hid, he⟩ := List.mem_map.1 hm
    obtain ⟨hid, hv⟩ := List.mem_filter.1 hid
    obtain ⟨rest', hrest⟩ := exists_inside request.hierarchy id
    rw [hrest, ← hline] at he
    have hknown := t.mem_preOrder.1 (List.mem_filter.1 hid).1
    rwa [← (blockLine_inj t hknown ha').1 (List.cons.inj he).1]
  · intro hv
    obtain ⟨rest, hrest⟩ := exists_inside request.hierarchy a
    rw [hline] at hrest
    exact ⟨rest, hrest ▸ List.mem_map_of_mem
      (List.mem_filter.2 ⟨List.mem_of_getElem? ha, hv⟩)⟩

theorem length_nodes :
    (starting "    n" (outline request)).length = request.hierarchy.owners.keys.length := by
  have hmark : ∀ s : DotStatement Float32,
      "    n".toList.isPrefixOf s.text.toList = s.nodeIndex?.any fun _ => true := fun s => by
    rw [DotStatement.isPrefixOf_node]
    cases s.nodeIndex? <;> rfl
  rw [← List.length_map (·.1), map_nodes t rfl (by decide) hmark, List.length_map,
    List.filter_eq_self.2 fun _ _ => rfl, ← List.length_map (·.2)]
  exact (Drawing.members_perm t).length_eq

/-- **The text of a request** shows the containers, elements and connectors. -/
theorem mirrors_outline
    (hends : ∀ c ∈ request.connectors, c.hub ∈ request.hierarchy.owners.keys ∧
      ∀ e ∈ c.others, e ∈ request.hierarchy.owners.keys) :
    Mirrors request.hierarchy request.connectors (build request) (outline request) where
  clusters := preOrder_eq t
  nodes := rfl
  openings := by
    rw [starting_openings t, List.map_map]
    exact (List.map_map (g := openingLine)).symm.trans
      (congrArg _ (map_idxOf (nodup_clustersOf t)))
  nested {i j a b} ha hb := by
    obtain ⟨hb', hline⟩ := blockLine_cluster t hb
    rw [← hline]
    exact opening_in_block_iff t ha hb'
  outermost ha := opening_outermost_iff t ha
  owned {k e c} he hc := by
    obtain ⟨rest, hrest⟩ := exists_inside request.hierarchy c
    exact ⟨rest, by rw [starting_nodeMark t he hc, hrest]⟩
  nodeCount := length_nodes t
  held ha := placeholder_in_block_iff t ha
  placeholderCount := by
    rw [← List.length_map (·.1), map_placeholders t, List.length_map]
    rfl
  ends := hends
  arrows := filter_arrows t hends

end

/-- **A request for a diagram** is written in one walk that numbers the clusters as it goes. The
braces of its text are balanced, and the blocks show the containers, elements and connectors of the
diagram. -/
theorem build_mirrors {d : Diagram} {request : SizingRequest Float32}
    (hh : Hierarchy.extract d = .ok request.hierarchy)
    (hc : Connector.derive d request.hierarchy = .ok request.connectors) :
    WrittenBy request (build request) ∧ Outline.Balanced (build request).text.toList ∧
      ∃ entries, Outline.read [] (Outline.linesOf (build request).text) = some entries ∧
        Mirrors request.hierarchy request.connectors (build request) entries := by
  have t := Hierarchy.extract_treeOf hh
  refine ⟨build_writtenBy t.toIsTree, balanced_text request t.toIsTree, _,
    read_text request t.toIsTree, mirrors_outline t.toIsTree fun c hm => ?_⟩
  have hknown : ∀ e ∈ c.endpoints, e ∈ request.hierarchy.owners.keys := fun e he => by
    rw [Table.mem_keys_iff, t.owned]
    exact ((Connector.derive_spec hc).joining c hm).known e he
  exact ⟨hknown _ ((Connector.derive_spec hc).joining c hm).hub,
    fun e he => hknown e (Connector.mem_others.1 he).1⟩

/-- A container in another one, and one without contents. -/
def nested : Diagram :=
  .build "sheet" [.area "A" "sheet", .vertex "sheet" "v" none, .area "B" "A",
    .vertex "B" "w" none, .area "C" "sheet", .connect "v" "w"]

def nestedTree : Hierarchy where
  root := "sheet"
  containers := .ofList [("A", ⟨"A", some "sheet", ["B"], [], 1⟩),
    ("B", ⟨"B", some "A", [], ["w"], 2⟩), ("C", ⟨"C", some "sheet", [], [], 1⟩),
    ("sheet", ⟨"sheet", none, ["A", "C"], ["v"], 0⟩)]
  owners := .ofList [("v", "sheet"), ("w", "B")]

theorem nested_mirrors : ∃ request : SizingRequest Float32,
    Hierarchy.extract nested = .ok request.hierarchy ∧
    Connector.derive nested request.hierarchy = .ok request.connectors ∧
    (build request).clusters = ["A", "B", "C"] ∧ (build request).nodes = ["v", "w"] ∧
    WrittenBy request (build request) ∧ Outline.Balanced (build request).text.toList ∧
      ∃ entries, Outline.read [] (Outline.linesOf (build request).text) = some entries ∧
        Mirrors request.hierarchy request.connectors (build request) entries := by
  have hh : Hierarchy.extract nested = .ok nestedTree := rfl
  obtain ⟨cs, hc⟩ : ∃ cs, Connector.derive nested nestedTree = .ok cs := ⟨_, rfl⟩
  have hclusters : clustersOf nestedTree = ["A", "B", "C"] := rfl
  have hnodes : nestedTree.owners.keys = ["v", "w"] := rfl
  exact ⟨⟨nestedTree, .new LayoutSettings.standard.spacing, .empty, cs, .standard,
    (1200.0, 800.0)⟩, hh, hc, (clusters_build _).trans hclusters, hnodes, build_mirrors hh hc⟩

end NestedLayout.DotRequest
