import NestedLayout.Proofs.Hierarchy.Nest
import NestedLayout.Proofs.Hierarchy.Shape
import NestedLayout.Proofs.Space.Growth

/-!
# Larger inputs, larger requirements

A container asks for no less when its elements are larger, when the spacing is wider, and when the
containers in it prefer to be larger. This also holds where a grid without a width, which takes no
room, gets one.

* `Requirement.compute_mono`: one container, given what its children prefer.
* `SpaceLedger.calculate_mono`: all containers of a tree, by induction along the nest of each, from
  the innermost containers outwards.
-/

set_option autoImplicit false

namespace NestedLayout

/-! ## Larger inputs -/

namespace Spacing

/-- The second spacing asks for no less room. -/
structure NoMoreThan (s s' : Spacing ℝ) : Prop where
  padding : s.padding ≤ s'.padding
  gap : s.gap ≤ s'.gap
  minWidth : s.minWidth ≤ s'.minWidth
  minHeight : s.minHeight ≤ s'.minHeight
  growthWidth : s.growthWidth ≤ s'.growthWidth
  growthHeight : s.growthHeight ≤ s'.growthHeight

theorem NoMoreThan.refl (s : Spacing ℝ) : s.NoMoreThan s :=
  ⟨le_rfl, le_rfl, le_rfl, le_rfl, le_rfl, le_rfl⟩

/-- No length and no growth is negative. -/
structure Nonneg (s : Spacing ℝ) : Prop where
  padding : 0 ≤ s.padding
  gap : 0 ≤ s.gap
  minWidth : 0 ≤ s.minWidth
  minHeight : 0 ≤ s.minHeight
  growthWidth : 0 ≤ s.growthWidth
  growthHeight : 0 ≤ s.growthHeight

end Spacing

/-- Every element of the first table is in the second one, where it is no smaller. -/
def ElementsGrow (extents extents' : IdTable (Extent ℝ)) : Prop :=
  ∀ {e a}, extents.get? e = some a → ∃ a', extents'.get? e = some a' ∧
    a.totalWidth ≤ a'.totalWidth ∧ a.totalHeight ≤ a'.totalHeight

theorem ElementsGrow.refl (extents : IdTable (Extent ℝ)) : ElementsGrow extents extents :=
  fun ha => ⟨_, ha, le_rfl, le_rfl⟩

namespace Requirement

/-- In the second table every child has a preferred size that is no smaller than in the first. -/
def ChildrenGrow (rs rs' : IdTable (Requirement ℝ)) (children : List String) : Prop :=
  ∀ c ∈ children, ∃ r r', rs.get? c = some r ∧ rs'.get? c = some r' ∧
    r.preferredWidth ≤ r'.preferredWidth ∧ r.preferredHeight ≤ r'.preferredHeight

/-- The second requirement is no smaller in its least and in its preferred sizes. -/
structure AtMost (r r' : Requirement ℝ) : Prop extends NoMoreThan r r' where
  preferredWidth : r.preferredWidth ≤ r'.preferredWidth
  preferredHeight : r.preferredHeight ≤ r'.preferredHeight

/-! ## Contents -/

section
variable {gap gap' : ℝ} {extents extents' : IdTable (Extent ℝ)}

/-- The largest element is no smaller where every element is no smaller. -/
theorem largest_element_mono {f : Extent ℝ → ℝ} {elements : List String}
    (hf : ∀ {e a}, extents.get? e = some a → ∃ a', extents'.get? e = some a' ∧ f a ≤ f a') :
    ((elements.filterMap extents.get?).map f).foldl Scalar.max 0.0 ≤
      ((elements.filterMap extents'.get?).map f).foldl Scalar.max 0.0 := by
  refine largest_le (start_le_largest _ _) fun x hx => ?_
  obtain ⟨a, ha, rfl⟩ := List.mem_map.1 hx
  obtain ⟨e, he, hget⟩ := List.mem_filterMap.1 ha
  obtain ⟨a', hget', hle⟩ := hf hget
  exact hle.trans (le_largest (List.mem_map_of_mem (List.mem_filterMap.2 ⟨e, he, hget'⟩)) _)

theorem elementFootprint_mono (hg : gap ≤ gap') (hx : ElementsGrow extents extents')
    (elements : List String) :
    (elementFootprint gap extents elements).1 ≤ (elementFootprint gap' extents' elements).1 ∧
      (elementFootprint gap extents elements).2 ≤ (elementFootprint gap' extents' elements).2 := by
  rcases elements.length.eq_zero_or_pos with hzero | hpos
  · rw [List.length_eq_zero_iff.1 hzero, elementFootprint_nil, elementFootprint_nil]
    exact ⟨le_rfl, le_rfl⟩
  obtain ⟨columns, rows, hshape⟩ :
      ∃ c r, gridShape ℝ elements.length = (c, r) := ⟨_, _, rfl⟩
  have hcolumns := (gridShape_eq hpos hshape).1
  simp only [elementFootprint, hshape, if_neg hcolumns.ne', Scalar.ofNat_real]
  refine ⟨cells_mono hcolumns hg (largest_element_mono fun ha => ?_),
    cells_mono (gridShape_rows_pos hpos hshape) hg (largest_element_mono fun ha => ?_)⟩
  · obtain ⟨a', ha', hw, -⟩ := hx ha
    exact ⟨a', ha', hw⟩
  · obtain ⟨a', ha', -, hh⟩ := hx ha
    exact ⟨a', ha', hh⟩

theorem childrenFootprint_mono (hg : gap ≤ gap') {rs rs' : IdTable (Requirement ℝ)}
    {children : List String} (hc : ChildrenGrow rs rs' children) :
    (childrenFootprint gap rs children).1 ≤ (childrenFootprint gap' rs' children).1 ∧
      (childrenFootprint gap rs children).2 ≤ (childrenFootprint gap' rs' children).2 := by
  simp only [childrenFootprint]
  split
  · exact ⟨le_rfl, le_rfl⟩
  · simp only [Scalar.sum_real, Scalar.ofNat_real]
    constructor <;>
    · refine add_le_add (trackSizes_mono _ _ fun c hm => ?_)
        (mul_le_mul_of_nonneg_right hg (Nat.cast_nonneg _))
      obtain ⟨r, r', hr, hr', hw, hh⟩ := hc c hm
      simp only [hr, hr']
      assumption

/-- Contents grow with the grids that they consist of. The larger contents have room for either
grid and for both, so only the grids that were there before matter. -/
theorem contentSize_mono {e e' c c' : ℝ × ℝ} (hg : gap ≤ gap') (hg' : 0 ≤ gap')
    (he : e.1 ≤ e'.1 ∧ e.2 ≤ e'.2) (hc : c.1 ≤ c'.1 ∧ c.2 ≤ c'.2) (he' : 0 ≤ e'.2)
    (hc' : 0 ≤ c'.2) : (contentSize gap e c).1 ≤ (contentSize gap' e' c').1 ∧
      (contentSize gap e c).2 ≤ (contentSize gap' e' c').2 := by
  have hroom : ContentRoom gap' e' c' (contentSize gap' e' c') := contentSize_room hg' he' hc'
  have hthere : 0 < e.1 → 0 < e'.1 := fun h => h.trans_le he.1
  have hthere' : 0 < c.1 → 0 < c'.1 := fun h => h.trans_le hc.1
  generalize contentSize gap' e' c' = size at hroom
  simp only [contentSize, Scalar.zero_real, Scalar.max_real]
  split
  · rename_i hep
    split
    · rename_i hcp
      have hboth := hroom.both (hthere hep) (hthere' hcp)
      exact ⟨max_le (he.1.trans hroom.elementsWidth) (hc.1.trans hroom.childrenWidth),
        le_trans (by linarith [he.2, hc.2]) hboth⟩
    · exact ⟨he.1.trans hroom.elementsWidth, he.2.trans (hroom.elementsHeight (hthere hep))⟩
  · split
    · rename_i hcp
      exact ⟨hc.1.trans hroom.childrenWidth, hc.2.trans (hroom.childrenHeight (hthere' hcp))⟩
    · exact ⟨hroom.width, hroom.height⟩

end

/-! ## One container -/

section
variable {spacing spacing' : Spacing ℝ}

/-- **A container asks for no less** with larger elements, wider spacing, and children that prefer
no less. -/
theorem compute_mono (hg : 0 ≤ spacing.gap) (hs : spacing.NoMoreThan spacing')
    {extents extents' : IdTable (Extent ℝ)} (hx : ElementsGrow extents extents')
    {rs rs' : IdTable (Requirement ℝ)} (elements : List String) {children : List String}
    (hc : ChildrenGrow rs rs' children) :
    (compute spacing extents rs elements children).NoMoreThan
      (compute spacing' extents' rs' elements children) := by
  have hg' := hg.trans hs.gap
  obtain ⟨hw, hh⟩ := contentSize_mono hs.gap hg' (elementFootprint_mono hs.gap hx elements)
    (childrenFootprint_mono hs.gap hc) (elementFootprint_height_nonneg hg' _ _)
    (childrenFootprint_height_nonneg hg' _ _)
  have hpadding := hs.padding
  constructor <;> simp only [compute, ofMinimum, Scalar.max_real, Scalar.two_real]
  · exact max_le_max (by linarith) hs.minWidth
  · exact max_le_max (by linarith) hs.minHeight

/-- The preferred sizes are the least ones with the growth. -/
structure Scaled (spacing : Spacing ℝ) (r : Requirement ℝ) : Prop where
  width : r.preferredWidth = r.minWidth * (1 + spacing.growthWidth)
  height : r.preferredHeight = r.minHeight * (1 + spacing.growthHeight)

theorem scaled_ofMinimum (spacing : Spacing ℝ) (w h : ℝ) (elements children : List String) :
    (ofMinimum spacing w h elements children).Scaled spacing := by
  constructor <;> simp only [ofMinimum, Scalar.one_real]

/-- What asks for no less also prefers no less, when the growth is no less either. -/
theorem NoMoreThan.atMost {r r' : Requirement ℝ} (h : r.NoMoreThan r') (hn : spacing.Nonneg)
    (hs : spacing.NoMoreThan spacing') (hr : r.Scaled spacing) (hr' : r'.Scaled spacing')
    (hw : 0 ≤ r.minWidth) (hh : 0 ≤ r.minHeight) : r.AtMost r' := by
  have hgrow : 0 ≤ 1 + spacing.growthWidth := add_nonneg zero_le_one hn.growthWidth
  have hgrow' : 0 ≤ 1 + spacing.growthHeight := add_nonneg zero_le_one hn.growthHeight
  refine ⟨h, ?_, ?_⟩
  · rw [hr.width, hr'.width]
    exact mul_le_mul h.width (add_le_add_right hs.growthWidth 1) hgrow (hw.trans h.width)
  · rw [hr.height, hr'.height]
    exact mul_le_mul h.height (add_le_add_right hs.growthHeight 1) hgrow' (hh.trans h.height)

theorem compute_atMost (hn : spacing.Nonneg) (hs : spacing.NoMoreThan spacing')
    {extents extents' : IdTable (Extent ℝ)} (hx : ElementsGrow extents extents')
    {rs rs' : IdTable (Requirement ℝ)} (elements : List String) {children : List String}
    (hc : ChildrenGrow rs rs' children) :
    (compute spacing extents rs elements children).AtMost
      (compute spacing' extents' rs' elements children) := by
  refine (compute_mono hn.gap hs hx elements hc).atMost hn hs (scaled_ofMinimum _ _ _ _ _)
    (scaled_ofMinimum _ _ _ _ _) ?_ ?_
  · simpa only [compute, ofMinimum, Scalar.max_real] using hn.minWidth.trans (le_max_right _ _)
  · simpa only [compute, ofMinimum, Scalar.max_real] using hn.minHeight.trans (le_max_right _ _)

end

end Requirement

/-! ## All containers of a tree -/

namespace SpaceLedger

section
variable {h : Hierarchy} (t : h.IsTree) {l l' : SpaceLedger ℝ}
  {extents extents' : IdTable (Extent ℝ)}
include t

/-- By induction along the nest of the container: its children ask for no less. -/
theorem calculate_atMost (hn : l.spacing.Nonneg) (hs : l.spacing.NoMoreThan l'.spacing)
    (hx : ElementsGrow extents extents') {n : Nest} (hd : n.Describes h)
    (hid : h.containers.contains n.id = true) :
    ∃ r r', (l.calculate h extents).requirements.get? n.id = some r ∧
      (l'.calculate h extents').requirements.get? n.id = some r' ∧ r.AtMost r' := by
  have hcalc := calculate_required t l extents
  have hcalc' := calculate_required t l' extents'
  induction hd with
  | @node id elements nested _ hchildren _ ih =>
    have hmem := t.mem_postOrder.2 hid
    refine ⟨_, _, hcalc.required id hmem, hcalc'.required id hmem, ?_⟩
    rw [requirementOf, requirementOf, hcalc.spacing, hcalc'.spacing]
    refine Requirement.compute_atMost hn hs hx _ fun c hc => ?_
    have hknown := Hierarchy.known_of_parent (t.mem_children.1 hc)
    rw [hchildren] at hc
    obtain ⟨m, hm, rfl⟩ := List.mem_map.1 hc
    obtain ⟨r, r', hr, hr', hle⟩ := ih m hm hknown
    exact ⟨r, r', hr, hr', hle.preferredWidth, hle.preferredHeight⟩

end

/-- **Larger elements and wider spacing never make a container ask for less**, neither in its least
nor in its preferred sizes, in any tree and whatever the ledgers held before. -/
theorem calculate_mono {d : Diagram} {h : Hierarchy} (he : Hierarchy.extract d = .ok h)
    {l l' : SpaceLedger ℝ} {extents extents' : IdTable (Extent ℝ)} (hn : l.spacing.Nonneg)
    (hs : l.spacing.NoMoreThan l'.spacing) (hx : ElementsGrow extents extents') {id : String}
    (hid : h.containers.contains id = true) :
    ∃ r r', (l.calculate h extents).requirements.get? id = some r ∧
      (l'.calculate h extents').requirements.get? id = some r' ∧ r.AtMost r' := by
  have t := (Hierarchy.extract_treeOf he).toIsTree
  obtain ⟨n, rfl, hd⟩ := t.exists_nest hid
  exact calculate_atMost t hn hs hx hd hid

/-- The elements of a sheet become wide, and so do the spacing and the growth: the grids that took
no room before get some. -/
theorem scattered_calculate_mono : ∃ h, Hierarchy.extract Hierarchy.scattered = .ok h ∧
    ∀ id, h.containers.contains id = true → ∃ r r',
      ((SpaceLedger.new (⟨0, 0, 1, 1, 0, 0⟩ : Spacing ℝ)).calculate h
        (.ofList [("v", ⟨0, 0, 0, 0⟩), ("w", ⟨0, 3, 0, 0⟩)])).requirements.get? id = some r ∧
      ((SpaceLedger.new (⟨2, 1, 1, 5, 1, 0⟩ : Spacing ℝ)).calculate h
        (.ofList [("v", ⟨4, 0, 1, 0⟩), ("w", ⟨6, 3, 0, 2⟩)])).requirements.get? id = some r' ∧
      r.AtMost r' := by
  obtain ⟨h, he⟩ : ∃ h, Hierarchy.extract Hierarchy.scattered = .ok h := ⟨_, rfl⟩
  refine ⟨h, he, fun id hid => calculate_mono he ?_ ?_ (fun {e a} ha => ?_) hid⟩
  · constructor <;> norm_num [SpaceLedger.new]
  · constructor <;> norm_num [SpaceLedger.new]
  · have hm := Table.mem_of_get?_ofList ha
    simp only [List.mem_cons, Prod.mk.injEq, List.not_mem_nil, or_false] at hm
    rcases hm with ⟨rfl, rfl⟩ | ⟨rfl, rfl⟩ <;>
    exact ⟨_, rfl, by norm_num [Extent.totalWidth], by norm_num [Extent.totalHeight]⟩

end SpaceLedger

end NestedLayout
