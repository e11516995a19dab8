import NestedLayout.Proofs.Binary32.Order
import NestedLayout.Proofs.Fold
import NestedLayout.Proofs.Hierarchy.Walk
import NestedLayout.Proofs.Sizing.Tracks
import NestedLayout.Space.Search

/-!
# Where sizing breaks down

Sizes can be so large that single precision has no number for them. Three places depend on numbers
that are in order: a child that looks up the tracks of its cell, the search that pulls a place onto
an edge, and a box that shrinks. The first two hold for all values; only the third can break down.

* `gridShape_places`, `childCells_ids`: no track of a grid is missing.
* `axisCandidates_eq_pulled`: a place passes the filter of the search only if the range it is pulled
  into is in order.
* `shrinkToContent_eq_none_iff`: a box cannot shrink where one of its sides has no length in pixels.
* `plan_eq_none_iff`: sizing has no answer exactly when it comes to a container with such a box.
-/

set_option autoImplicit false

namespace NestedLayout

/-! ## Lookups -/

section
variable {α : Type} [Scalar α]

/-- **The place of a member is in the grid.** -/
theorem gridShape_places {n i : Nat} (hi : i < n) :
    i % (gridShape α n).1 < (gridShape α n).1 ∧ i / (gridShape α n).1 < (gridShape α n).2 := by
  have hg : gridShape α n = ((gridShape α n).1, (gridShape α n).2) := rfl
  have hn : 0 < n := by omega
  exact ⟨Nat.mod_lt _ (gridShape_eq hn hg).1, gridShape_row_lt hi hg⟩

/-- **Every child gets a cell**, in order: no track is missing. -/
theorem Proportional.childCells_ids (request : SizingRequest α) (children : List String)
    (region : Rect α) (scale : WorldScale α) :
    (childCells request children region scale).map (·.1) = children := by
  unfold childCells
  dsimp only
  rw [List.map_filterMap]
  refine (List.filterMap_congr (g := fun e => some e.1) fun e he => ?_).trans ?_
  · obtain ⟨hcolumn, hrow⟩ := gridShape_places (α := α) (List.mem_zipIdx' he).1
    simp [hcolumn, hrow]
  · rw [List.filterMap_eq_map', List.zipIdx_map_fst]

end

/-! ## The search -/

section
variable {α : Type} [Scalar α]

/-- The range of places for an extent along an axis. -/
def placeRange (span : Span α) (size : α) : Span α :=
  ⟨span.low + size / 2.0, Scalar.max (span.high - size / 2.0) (span.low + size / 2.0)⟩

/-- Whether a place is in the range, or so little past an edge of it that it is pulled back. -/
def nearRange (range : Span α) (gap c : α) : Bool :=
  let slack := Scalar.max Scalar.epsilon (gap * 0.25)
  decide (range.low - slack ≤ c) && decide (c ≤ range.high + slack)

/-- The places for an extent that the search starts from: the seeds, both edges, and the slots
beside the zones. -/
def soughtPlaces (span : Span α) (size gap : α) (seeds : List α) (zones : List (Span α)) :
    List α :=
  seeds ++ [(placeRange span size).low, (placeRange span size).high] ++
    zones.flatMap fun z => [z.high + gap + size / 2.0, z.low - gap - size / 2.0]

end

namespace Binary32

variable {span : Span Float32} {size gap : Float32}

/-- **A range with a place near it is in order.** -/
theorem placeRange_inOrder {c : Float32} (h : nearRange (placeRange span size) gap c = true) :
    (placeRange span size).low ≤ (placeRange span size).high := by
  rw [nearRange, Bool.and_eq_true, decide_eq_true_eq] at h
  refine le_max_right_iff.2 ?_
  rw [← Bool.not_eq_true]
  intro hnan
  exact not_le_of_isNaN_left (isNaN_sub_left hnan) h.1

/-- The places near the range of an extent, each pulled into it. -/
def pulled (span : Span Float32) (size gap : Float32) (places : List Float32) : List Float32 :=
  (places.filter (nearRange (placeRange span size) gap)).pmap
    (fun c near => Scalar.clamp (placeRange span size).low (placeRange span size).high
      (placeRange_inOrder near) c)
    fun _ hc => (List.mem_filter.1 hc).2

theorem pulled_of_order (places : List Float32)
    (h : (placeRange span size).low ≤ (placeRange span size).high) :
    pulled span size gap places =
      (places.filter (nearRange (placeRange span size) gap)).map
        (Scalar.clamp (placeRange span size).low (placeRange span size).high h) :=
  List.pmap_eq_map ..

theorem pulled_of_disorder (places : List Float32)
    (h : ¬ (placeRange span size).low ≤ (placeRange span size).high) :
    pulled span size gap places = [] := by
  rw [pulled, List.pmap_eq_nil_iff, List.filter_eq_nil_iff]
  intro c _ hc
  exact h (placeRange_inOrder hc)

/-- **The search pulls places into ranges in order only**: what it tries along an axis are the
places near the range, pulled into it. -/
theorem axisCandidates_eq_pulled (seeds : List Float32) (zones : List (Span Float32))
    (hfit : ¬ span.high - span.low < size) :
    axisCandidates span size gap seeds zones =
      thinned ((pulled span size gap (soughtPlaces span size gap seeds zones)).mergeSort
        fun a b => (Scalar.compareTotal a b).isLE) := by
  unfold axisCandidates
  dsimp only
  rw [if_neg hfit]
  by_cases horder : (placeRange span size).low ≤ (placeRange span size).high
  · rw [pulled_of_order _ horder]
    exact dif_pos horder
  · rw [pulled_of_disorder _ horder, List.mergeSort_nil]
    exact dif_neg horder

end Binary32

/-! ## Shrinking -/

namespace Proportional

open Binary32

/-- A box with a side that has no length in pixels. -/
def Unmeasured (box : Rect Float32) (scale : WorldScale Float32) : Prop :=
  (box.width * scale.width).isNaN = true ∨ (box.height * scale.height).isNaN = true

/-- A side can be brought into its range exactly when it has a length. -/
theorem clamp?_min_eq_none_iff {least side x : Float32} :
    clamp? (Scalar.min least side) side x = none ↔ side.isNaN = true := by
  rw [clamp?, dite_eq_right_iff]
  simp [min_le_right_iff]

theorem exists_clamp?_min_iff {least side x : Float32} :
    (∃ y, clamp? (Scalar.min least side) side x = some y) ↔ ¬ side.isNaN = true := by
  rw [← clamp?_min_eq_none_iff, ← ne_eq, Option.ne_none_iff_exists']

section
variable {box : Rect Float32} {r : Requirement Float32} {scale : WorldScale Float32}
  {settings : SizingSettings Float32}

/-- An area is a number only if both sides are. -/
theorem not_area_le (h : Unmeasured box scale) (bound : Float32) :
    ¬ box.width * scale.width * (box.height * scale.height) ≤ bound := by
  rcases h with hwidth | hheight
  · exact not_le_of_isNaN_left (isNaN_mul_left hwidth)
  · exact not_le_of_isNaN_left (isNaN_mul_right hheight)

/-- **A box cannot shrink** exactly when something has to fit into it and it has a side without a
length. -/
theorem shrinkToContent_eq_none_iff :
    shrinkToContent box r scale settings = none ↔ ¬ r.minArea ≤ 0.0 ∧ Unmeasured box scale := by
  unfold shrinkToContent
  dsimp only
  by_cases harea : r.minArea ≤ 0.0
  · simp [harea]
  · by_cases hunmeasured : Unmeasured box scale
    · simp only [harea, not_area_le hunmeasured, or_self, if_false, not_false_eq_true,
        hunmeasured, and_self, iff_true]
      rcases hunmeasured with hwidth | hheight
      · simp [clamp?_min_eq_none_iff.2 hwidth]
      · simp [clamp?_min_eq_none_iff.2 hheight]
    · obtain ⟨hwidth, hheight⟩ := not_or.1 hunmeasured
      split
      · simp [hunmeasured]
      · simp [exists_clamp?_min_iff, hwidth, hheight, hunmeasured,
          -Float32.isNaN_eq_decide_eq_nan]

end

/-! ## The plan -/

variable {request : SizingRequest Float32} {scale : WorldScale Float32}

/-- A container at which sizing is stuck: something has to fit into it, and its box, which is not
the root's, has a side without a length. -/
structure StuckAt (request : SizingRequest Float32) (scale : WorldScale Float32)
    (boxes : Boxes Float32) (id : String) : Prop where
  inner : (request.hierarchy.parent? id).isSome = true
  filled : ∃ r, request.ledger.requirements.get? id = some r ∧ ¬ r.minArea ≤ 0.0
  unmeasured : ∃ own, boxes.get? id = some own ∧ Unmeasured own scale

theorem shrinkOwn_eq_none_iff {p : Progress Float32} {id : String} {c : Container}
    {own : Rect Float32} : shrinkOwn request scale p id c own = none ↔ c.parent.isSome = true ∧
      (∃ r, request.ledger.requirements.get? id = some r ∧ ¬ r.minArea ≤ 0.0) ∧
        Unmeasured own scale := by
  unfold shrinkOwn
  cases hparent : c.parent with
  | none => simp
  | some parent =>
    cases hr : request.ledger.requirements.get? id with
    | none => simp
    | some r =>
      have hshrink : (shrinkToContent own r scale request.settings.sizing >>= fun reduced =>
          if reduced.sameAs own then some (p, own)
          else some (⟨p.boxes.insert id reduced, p.shrunk + 1⟩, reduced)) = none ↔
          shrinkToContent own r scale request.settings.sizing = none := by
        cases shrinkToContent own r scale request.settings.sizing with
        | none => simp
        | some reduced =>
          by_cases hsame : reduced.sameAs own = true <;> simp [hsame]
      simpa [shrinkToContent_eq_none_iff] using hshrink

/-- **A step of sizing has no answer** exactly when it is stuck. -/
theorem sizeContainer_eq_none_iff {p : Progress Float32} {id : String} :
    sizeContainer request scale p id = none ↔ StuckAt request scale p.boxes id := by
  unfold sizeContainer
  cases hc : request.hierarchy.container? id with
  | none =>
    refine ⟨fun h => ?_, fun h => ?_⟩
    · cases h
    · have hinner := h.inner
      rw [Hierarchy.parent?, hc] at hinner
      cases hinner
  | some c =>
    cases hown : p.boxes.get? id with
    | none =>
      refine ⟨fun h => ?_, fun h => ?_⟩
      · cases h
      · obtain ⟨own, hown', -⟩ := h.unmeasured
        cases hown.symm.trans hown'
    | some own =>
      have hstep : StuckAt request scale p.boxes id ↔
          shrinkOwn request scale p id c own = none := by
        rw [shrinkOwn_eq_none_iff, ← Hierarchy.container?_parent hc]
        refine ⟨fun h => ⟨h.inner, h.filled, ?_⟩, fun h => ⟨h.1, h.2.1, own, hown, h.2.2⟩⟩
        obtain ⟨own', hown', h'⟩ := h.unmeasured
        cases hown.symm.trans hown'
        exact h'
      rw [hstep]
      dsimp only
      cases shrinkOwn request scale p id c own with
      | none => simp
      | some answer =>
        by_cases hleaf : c.children.isEmpty = true <;> simp [hleaf]

/-- Sizing gets to a container with these boxes. -/
def Reaches (request : SizingRequest Float32) (id : String) (boxes : Boxes Float32) : Prop :=
  ∃ done rest shrunk, request.hierarchy.preOrder = done ++ id :: rest ∧
    done.foldlM (sizeContainer request request.workingScale)
      ⟨Table.empty.insert request.hierarchy.root .unit, 0⟩ = some ⟨boxes, shrunk⟩

/-- **Sizing has no answer** exactly when it gets to a container at which it is stuck. -/
theorem plan_eq_none_iff : plan request = none ↔
    ∃ id boxes, Reaches request id boxes ∧ StuckAt request request.workingScale boxes id := by
  have hfold : plan request = none ↔
      request.hierarchy.preOrder.foldlM (sizeContainer request request.workingScale)
        ⟨Table.empty.insert request.hierarchy.root .unit, 0⟩ = none := by
    unfold plan
    dsimp only
    cases request.hierarchy.preOrder.foldlM (sizeContainer request request.workingScale)
      ⟨Table.empty.insert request.hierarchy.root .unit, 0⟩ <;> simp
  rw [hfold, Fold.eq_none_iff]
  refine ⟨?_, ?_⟩
  · rintro ⟨done, id, rest, ⟨boxes, shrunk⟩, hsplit, hdone, hstep⟩
    exact ⟨id, boxes, ⟨done, rest, shrunk, hsplit, hdone⟩, sizeContainer_eq_none_iff.1 hstep⟩
  · rintro ⟨id, boxes, ⟨done, rest, shrunk, hsplit, hdone⟩, hstuck⟩
    exact ⟨done, id, rest, ⟨boxes, shrunk⟩, hsplit, hdone, sizeContainer_eq_none_iff.2 hstuck⟩

end Proportional

end NestedLayout
