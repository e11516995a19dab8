import NestedLayout.Proofs.Fold
import NestedLayout.Proofs.Hierarchy.Walk
import NestedLayout.Proofs.Measure
import NestedLayout.Space.Ledger

/-!
# The requirements of a tree

* `SpaceLedger.calculate_required`: after `calculate` the requirement of every container is what
  `compute` makes of the requirements of its children, since the walk comes to children before their
  parents and to every container once.
* `Required`: a ledger with such requirements, positive extents and spacing in range.
* `Required.room`: the least size of a container has room for its padding, its elements, its
  children in their preferred sizes, and for both above each other (`ContentRoom`).
-/

set_option autoImplicit false

namespace NestedLayout

/-! ## The equation of every container -/

section
variable {α : Type} [Scalar α]

theorem Requirement.childrenFootprint_congr {gap : α} {rs rs' : IdTable (Requirement α)}
    {children : List String} (h : ∀ c ∈ children, rs.get? c = rs'.get? c) :
    childrenFootprint gap rs children = childrenFootprint gap rs' children := by
  simp only [childrenFootprint]
  split
  · rfl
  · congr 4 <;> exact List.map_congr_left fun c hc => by rw [h c hc]

/-- What a container needs depends on what the ledger says about its children. -/
theorem SpaceLedger.requirementOf_congr {l l' : SpaceLedger α} {h : Hierarchy}
    {extents : IdTable (Extent α)} {id : String} (hs : l.spacing = l'.spacing)
    (hr : ∀ c ∈ h.children id, l.requirements.get? c = l'.requirements.get? c) :
    l.requirementOf h extents id = l'.requirementOf h extents id := by
  simp only [requirementOf, Requirement.compute, hs, Requirement.childrenFootprint_congr hr]

omit [Scalar α] in
theorem SpaceLedger.get?_require (l : SpaceLedger α) (id x : String) (r : Requirement α) :
    (l.require id r).requirements.get? x = if x = id then some r else l.requirements.get? x :=
  Table.get?_insert_eq _ _ _ _

/-- What `calculate` has reached when the given containers are done. -/
structure SpaceLedger.Calculated (l : SpaceLedger α) (h : Hierarchy)
    (extents : IdTable (Extent α)) (done : List String) (l' : SpaceLedger α) : Prop where
  spacing : l'.spacing = l.spacing
  required : ∀ id ∈ done, l'.requirements.get? id = some (l'.requirementOf h extents id)

/-- **Every requirement satisfies its equation** after the calculation. -/
theorem SpaceLedger.calculate_required {h : Hierarchy} (t : h.IsTree) (l : SpaceLedger α)
    (extents : IdTable (Extent α)) :
    Calculated l h extents h.postOrder (l.calculate h extents) := by
  refine Fold.keeps (Calculated l h extents) ⟨rfl, by simp⟩ fun done x rest l' hs hl' => ?_
  have hx := t.postOrder_split hs
  refine ⟨hl'.spacing, fun id hid => ?_⟩
  rw [get?_require]
  -- nothing that is done, and not the new container itself, has the new one as a child
  have hchild : ∀ c ∈ h.children id, c ≠ x := by
    rintro c hc rfl
    have hp := t.mem_children.1 hc
    rcases List.mem_append.1 hid with hid | hid
    · exact hx.aroundNotDone (.of_parent hp) hid
    · exact t.child_ne hp (List.mem_singleton.1 hid).symm
  have hsame : (l'.require x (l'.requirementOf h extents x)).requirementOf h extents id =
      l'.requirementOf h extents id :=
    requirementOf_congr rfl fun c hc => (get?_require _ _ _ _).trans (if_neg (hchild c hc))
  rw [hsame]
  split
  · rename_i he
    rw [he]
  · rename_i hne
    rcases List.mem_append.1 hid with hid | hid
    · exact hl'.required id hid
    · exact absurd (List.mem_singleton.1 hid) hne

end

/-! ## Sizes of contents -/

namespace Requirement

theorem elementFootprint_nil (gap : ℝ) (extents : IdTable (Extent ℝ)) :
    elementFootprint gap extents [] = (0, 0) := by
  simp only [elementFootprint, List.length_nil, gridShape_zero, if_true, Scalar.zero_real]

/-- The grid of elements is made of cells with room for any of them. -/
theorem exists_cell (gap : ℝ) (extents : IdTable (Extent ℝ)) {elements : List String}
    {columns rows : Nat} (hpos : 0 < elements.length)
    (hshape : gridShape ℝ elements.length = (columns, rows)) :
    ∃ cell : ℝ × ℝ, elementFootprint gap extents elements =
        (columns * (cell.1 + gap) - gap, rows * (cell.2 + gap) - gap) ∧
      ∀ e ∈ elements, ∀ x, extents.get? e = some x →
        x.totalWidth ≤ cell.1 ∧ x.totalHeight ≤ cell.2 := by
  refine ⟨(((elements.filterMap extents.get?).map Extent.totalWidth).foldl Scalar.max 0.0,
    ((elements.filterMap extents.get?).map Extent.totalHeight).foldl Scalar.max 0.0), ?_,
    fun e he x hx => ?_⟩
  · simp only [elementFootprint, hshape, if_neg (gridShape_eq hpos hshape).1.ne',
      Scalar.ofNat_real]
  · have hmem : x ∈ elements.filterMap extents.get? := List.mem_filterMap.2 ⟨e, he, hx⟩
    exact ⟨le_largest (List.mem_map_of_mem (f := Extent.totalWidth) hmem) 0.0,
      le_largest (List.mem_map_of_mem (f := Extent.totalHeight) hmem) 0.0⟩

/-- **The grid of elements has room for each of them.** -/
theorem extent_le_elementFootprint {gap : ℝ} {extents : IdTable (Extent ℝ)}
    {elements : List String} {e : String} {x : Extent ℝ} (hg : 0 ≤ gap) (hp : x.Proper)
    (he : e ∈ elements) (hx : extents.get? e = some x) :
    x.totalWidth ≤ (elementFootprint gap extents elements).1 ∧
      x.totalHeight ≤ (elementFootprint gap extents elements).2 := by
  obtain ⟨columns, rows, hshape⟩ : ∃ c r, gridShape ℝ elements.length = (c, r) := ⟨_, _, rfl⟩
  have hpos := List.length_pos_of_mem he
  have hc : (1 : ℝ) ≤ columns := Nat.one_le_cast.2 (gridShape_eq hpos hshape).1
  have hr : (1 : ℝ) ≤ rows := Nat.one_le_cast.2 (gridShape_rows_pos hpos hshape)
  obtain ⟨cell, hcells, hfit⟩ := exists_cell gap extents hpos hshape
  obtain ⟨hw, hh⟩ := hfit e he x hx
  have := hp.width
  have := hp.height
  rw [hcells]
  constructor <;> simp only <;> nlinarith

theorem elementFootprint_one {gap : ℝ} {extents : IdTable (Extent ℝ)} {e : String} {x : Extent ℝ}
    (he : extents.get? e = some x) (hx : x.Proper) :
    elementFootprint gap extents [e] = (x.totalWidth, x.totalHeight) := by
  have hz : (0.0 : ℝ) = 0 := Scalar.zero_real
  simp [elementFootprint, gridShape_one, he, hz, hx.width.le, hx.height]

theorem childrenFootprint_one {gap : ℝ} {rs : IdTable (Requirement ℝ)} {c : String}
    {r : Requirement ℝ} (hc : rs.get? c = some r) (hw : 0 ≤ r.preferredWidth)
    (hh : 0 ≤ r.preferredHeight) :
    childrenFootprint gap rs [c] = (r.preferredWidth, r.preferredHeight) := by
  simp [childrenFootprint, gridShape_one, trackSizes_one, hc, hw, hh, Scalar.sum_real]

/-- A row of equal cells grows with the cells and with the gaps between them. -/
theorem cells_mono {n : ℕ} (hn : 0 < n) {gap gap' cell cell' : ℝ} (hg : gap ≤ gap')
    (hc : cell ≤ cell') : n * (cell + gap) - gap ≤ n * (cell' + gap') - gap' := by
  have hn : (1 : ℝ) ≤ n := Nat.one_le_cast.2 hn
  calc n * (cell + gap) - gap = n * cell + (n - 1) * gap := by ring
    _ ≤ n * cell' + (n - 1) * gap' := by gcongr
    _ = n * (cell' + gap') - gap' := by ring

theorem elementFootprint_height_nonneg {gap : ℝ} (hg : 0 ≤ gap) (extents : IdTable (Extent ℝ))
    (elements : List String) : 0 ≤ (elementFootprint gap extents elements).2 := by
  rcases elements.length.eq_zero_or_pos with hzero | hpos
  · rw [List.length_eq_zero_iff.1 hzero, elementFootprint_nil]
  · obtain ⟨columns, rows, hshape⟩ : ∃ c r, gridShape ℝ elements.length = (c, r) := ⟨_, _, rfl⟩
    simp only [elementFootprint, hshape, if_neg (gridShape_eq hpos hshape).1.ne',
      Scalar.ofNat_real]
    have h := cells_mono (gridShape_rows_pos hpos hshape) hg
      (largest_nonneg ((elements.filterMap extents.get?).map Extent.totalHeight))
    linarith

theorem childrenFootprint_height_nonneg {gap : ℝ} (hg : 0 ≤ gap) (rs : IdTable (Requirement ℝ))
    (children : List String) : 0 ≤ (childrenFootprint gap rs children).2 := by
  simp only [childrenFootprint]
  split
  · exact Scalar.zero_real.ge
  · simp only [Scalar.sum_real, Scalar.ofNat_real]
    exact add_nonneg (List.sum_nonneg trackSizes_nonneg) (mul_nonneg hg (Nat.cast_nonneg _))

/-- A size of contents with room for a grid of elements and a grid of children. -/
structure ContentRoom (gap : ℝ) (elements children size : ℝ × ℝ) : Prop where
  width : 0 ≤ size.1
  height : 0 ≤ size.2
  elementsWidth : elements.1 ≤ size.1
  elementsHeight : 0 < elements.1 → elements.2 ≤ size.2
  childrenWidth : children.1 ≤ size.1
  childrenHeight : 0 < children.1 → children.2 ≤ size.2
  both : 0 < elements.1 → 0 < children.1 → elements.2 + children.2 + gap ≤ size.2

theorem contentSize_room {gap : ℝ} {elements children : ℝ × ℝ} (hg : 0 ≤ gap)
    (he : 0 ≤ elements.2) (hc : 0 ≤ children.2) :
    ContentRoom gap elements children (contentSize gap elements children) := by
  unfold contentSize
  simp only [Scalar.zero_real, Scalar.max_real]
  split
  · rename_i he'
    split
    · rename_i hc'
      exact ⟨he'.le.trans (le_max_left _ _), by simp only; linarith, le_max_left _ _,
        fun _ => by simp only; linarith, le_max_right _ _, fun _ => by simp only; linarith,
        fun _ _ => le_rfl⟩
    · rename_i hc'
      exact ⟨he'.le, he, le_rfl, fun _ => le_rfl, (not_lt.1 hc').trans he'.le,
        fun h => absurd h hc', fun _ h => absurd h hc'⟩
  · rename_i he'
    split
    · rename_i hc'
      exact ⟨hc'.le, hc, (not_lt.1 he').trans hc'.le, fun h => absurd h he', le_rfl,
        fun _ => le_rfl, fun h => absurd h he'⟩
    · rename_i hc'
      exact ⟨le_rfl, le_rfl, not_lt.1 he', fun h => absurd h he', not_lt.1 hc',
        fun h => absurd h hc', fun h => absurd h he'⟩

/-- What a container without children requires holds its grid of elements within the padding. -/
theorem le_min_of_leaf {spacing : Spacing ℝ} {extents : IdTable (Extent ℝ)}
    {elements : List String} (rs : IdTable (Requirement ℝ)) (hg : 0 ≤ spacing.gap)
    (hw : 0 < (elementFootprint spacing.gap extents elements).1)
    (hh : 0 ≤ (elementFootprint spacing.gap extents elements).2) :
    (elementFootprint spacing.gap extents elements).1 + spacing.padding * 2 ≤
        (compute spacing extents rs elements []).minWidth ∧
      (elementFootprint spacing.gap extents elements).2 + spacing.padding * 2 ≤
        (compute spacing extents rs elements []).minHeight := by
  have hroom := contentSize_room hg hh (childrenFootprint_height_nonneg hg rs [])
  simp only [compute, ofMinimum, Scalar.max_real, Scalar.two_real]
  exact ⟨(add_le_add_left hroom.elementsWidth _).trans (le_max_left _ _),
    (add_le_add_left (hroom.elementsHeight hw) _).trans (le_max_left _ _)⟩

end Requirement

/-! ## Ledgers with requirements -/

/-- A ledger in which every container has the requirement that its contents ask for. -/
structure Required (h : Hierarchy) (extents : IdTable (Extent ℝ)) (l : SpaceLedger ℝ) :
    Prop where
  spacing : l.spacing.InRange
  proper : ∀ {e x}, extents.get? e = some x → x.Proper
  measured : ∀ {id e}, e ∈ h.elements id → ∃ x, extents.get? e = some x
  required : ∀ {id}, h.containers.contains id = true →
    l.requirements.get? id = some (l.requirementOf h extents id)

namespace Required

open Requirement Hierarchy

variable {h : Hierarchy} {extents : IdTable (Extent ℝ)} {l : SpaceLedger ℝ}
  (q : Required h extents l)
include q

theorem one_le_min (id : String) :
    1 ≤ (l.requirementOf h extents id).minWidth ∧ 1 ≤ (l.requirementOf h extents id).minHeight := by
  simp only [SpaceLedger.requirementOf, compute, ofMinimum, Scalar.max_real]
  exact ⟨q.spacing.minWidth.trans (le_max_right _ _), q.spacing.minHeight.trans (le_max_right _ _)⟩

theorem min_le_preferred (id : String) :
    (l.requirementOf h extents id).minWidth ≤ (l.requirementOf h extents id).preferredWidth ∧
      (l.requirementOf h extents id).minHeight ≤
        (l.requirementOf h extents id).preferredHeight := by
  obtain ⟨hw, hh⟩ := q.one_le_min id
  have hgw := q.spacing.growthWidth
  have hgh := q.spacing.growthHeight
  simp only [SpaceLedger.requirementOf, compute, ofMinimum, Scalar.one_real] at *
  exact ⟨le_mul_of_one_le_right (by linarith) (by linarith),
    le_mul_of_one_le_right (by linarith) (by linarith)⟩

/-- The preferred sizes of children make up the tracks of their grid. -/
theorem childrenFootprint_eq {id : String} {columns rows : Nat} (t : h.IsTree)
    (hpos : 0 < (h.children id).length)
    (hshape : gridShape ℝ (h.children id).length = (columns, rows)) :
    childrenFootprint l.spacing.gap l.requirements (h.children id) =
      ((trackSizes columns (· % columns)
          ((h.children id).map fun c => (l.requirementOf h extents c).preferredWidth)).sum +
          l.spacing.gap * (columns - 1 : Nat),
        (trackSizes rows (· / columns)
          ((h.children id).map fun c => (l.requirementOf h extents c).preferredHeight)).sum +
          l.spacing.gap * (rows - 1 : Nat)) := by
  have hreq : ∀ c ∈ h.children id,
      l.requirements.get? c = some (l.requirementOf h extents c) := fun c hc =>
    q.required (known_of_parent (t.mem_children.1 hc))
  simp only [childrenFootprint, hshape, if_neg (gridShape_eq hpos hshape).1.ne',
    Scalar.sum_real, Scalar.ofNat_real]
  congr 4 <;> exact List.map_congr_left fun c hc => by rw [hreq c hc]

theorem elementFootprint_pos {id : String} (hne : h.elements id ≠ []) :
    0 < (elementFootprint l.spacing.gap extents (h.elements id)).1 := by
  obtain ⟨e, he⟩ := List.exists_mem_of_ne_nil _ hne
  obtain ⟨x, hx⟩ := q.measured he
  exact (q.proper hx).width.trans_le
    (extent_le_elementFootprint q.spacing.gap (q.proper hx) he hx).1

/-- The columns and the rows of the children have a length. -/
theorem one_le_tracks {id : String} {columns rows : Nat} (hpos : 0 < (h.children id).length)
    (hshape : gridShape ℝ (h.children id).length = (columns, rows)) :
    1 ≤ (trackSizes columns (· % columns)
        ((h.children id).map fun c => (l.requirementOf h extents c).preferredWidth)).sum ∧
      1 ≤ (trackSizes rows (· / columns)
        ((h.children id).map fun c => (l.requirementOf h extents c).preferredHeight)).sum := by
  have hc := (gridShape_eq hpos hshape).1
  have hr := gridShape_rows_pos hpos hshape
  refine ⟨?_, ?_⟩
  · refine one_le_sum_trackSizes (by simpa using hpos) (Nat.mod_lt 0 hc) fun s hs => ?_
    obtain ⟨c, -, rfl⟩ := List.mem_map.1 hs
    exact (q.one_le_min c).1.trans (q.min_le_preferred c).1
  · refine one_le_sum_trackSizes (by simpa using hpos) (by simpa using hr) fun s hs => ?_
    obtain ⟨c, -, rfl⟩ := List.mem_map.1 hs
    exact (q.one_le_min c).2.trans (q.min_le_preferred c).2

theorem one_le_childrenFootprint (t : h.IsTree) {id : String} (hne : h.children id ≠ []) :
    1 ≤ (childrenFootprint l.spacing.gap l.requirements (h.children id)).1 ∧
      1 ≤ (childrenFootprint l.spacing.gap l.requirements (h.children id)).2 := by
  obtain ⟨columns, rows, hshape⟩ :
      ∃ c r, gridShape ℝ (h.children id).length = (c, r) := ⟨_, _, rfl⟩
  have hpos := List.length_pos_of_ne_nil hne
  obtain ⟨hw, hh⟩ := q.one_le_tracks hpos hshape
  have hgc := mul_nonneg q.spacing.gap (Nat.cast_nonneg (columns - 1) : (0 : ℝ) ≤ _)
  have hgr := mul_nonneg q.spacing.gap (Nat.cast_nonneg (rows - 1) : (0 : ℝ) ≤ _)
  rw [q.childrenFootprint_eq t hpos hshape]
  exact ⟨by simp only; linarith, by simp only; linarith⟩

/-- **The least size of a container has room for its contents** within the padding. -/
theorem room (id : String) :
    ∃ size : ℝ × ℝ,
      ContentRoom l.spacing.gap (elementFootprint l.spacing.gap extents (h.elements id))
        (childrenFootprint l.spacing.gap l.requirements (h.children id)) size ∧
      size.1 + l.spacing.padding * 2 ≤ (l.requirementOf h extents id).minWidth ∧
      size.2 + l.spacing.padding * 2 ≤ (l.requirementOf h extents id).minHeight := by
  refine ⟨_, contentSize_room q.spacing.gap (elementFootprint_height_nonneg q.spacing.gap _ _)
    (childrenFootprint_height_nonneg q.spacing.gap _ _), ?_⟩
  simp only [SpaceLedger.requirementOf, compute, ofMinimum, Scalar.max_real, Scalar.two_real]
  exact ⟨le_max_left _ _, le_max_left _ _⟩

end Required

end NestedLayout
