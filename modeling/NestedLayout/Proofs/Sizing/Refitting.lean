import NestedLayout.Proofs.Sizing.Repair

/-!
# Refitting a subtree

`Containment.mapSubtree` carries a container and everything nested in it by one map, the one that
takes its box onto a new one. In exact arithmetic:

* `mapSubtree_inside`, `mapSubtree_outside`: what happens to the boxes of the subtree, and that
  nothing happens to any other box.
* `between_factors_pos`: the map of a box that is wide and tall enough keeps the order on both axes.
* `mapSubtree_faithful`: so the container gets its new box, and the boxes of the subtree lie to each
  other as before. A box without extent on an axis takes the whole subtree to the middle of the new
  one there.
-/

set_option autoImplicit false

namespace NestedLayout.Containment

open Scalar (epsilon)

variable {h : Hierarchy}

section
variable (t : h.IsTree) (m : AxisMap ℝ) {boxes : Boxes ℝ} {c x : String}
include t

theorem mapSubtree_inside (hx : h.Encloses c x) {r : Rect ℝ} (hr : boxes.get? x = some r) :
    (mapSubtree h boxes c m).get? x = some (m.applyRect r) := by
  rw [get?_mapSubtree, hr, Option.map_some, if_pos (t.mem_subtree.2 hx)]

theorem mapSubtree_outside (hx : ¬ h.Encloses c x) :
    (mapSubtree h boxes c m).get? x = boxes.get? x := by
  rw [get?_mapSubtree, funext fun r => if_neg (mt t.mem_subtree.1 hx), Option.map_id']

end

/-- A box that is wide and tall enough is carried in order. -/
theorem between_factors_pos {old new : Rect ℝ} (hw : epsilon < old.width)
    (hh : epsilon < old.height) (hacross : new.left < new.right) (hdown : new.top < new.bottom) :
    0 < (AxisMap.between old new).sx ∧ 0 < (AxisMap.between old new).sy :=
  ⟨AxisMap.axis_factor_pos hw hacross, AxisMap.axis_factor_pos hh hdown⟩

/-- **Refitting a subtree is faithful.** The container with the box `old` is carried onto `new`, a
rectangle with positive sides. When `old` is wider and taller than the tolerance, the container gets
`new` exactly, and of any two containers of the subtree the one lies in the other, or they overlap,
exactly as before: upright boxes as they are, any other ones with their sides put in order. Boxes
outside of the subtree stay. On an axis on which `old` is no longer than the tolerance every box of
the subtree collapses to the middle of `new`. -/
theorem mapSubtree_faithful {d : Diagram} (he : Hierarchy.extract d = .ok h) {boxes : Boxes ℝ}
    {c : String} {old new : Rect ℝ} (hold : boxes.get? c = some old)
    (hacross : new.left < new.right) (hdown : new.top < new.bottom) :
    let after := mapSubtree h boxes c (.between old new)
    (epsilon < old.width → epsilon < old.height →
      after.get? c = some new ∧
      ∀ x y r s, h.Encloses c x → h.Encloses c y → boxes.get? x = some r → boxes.get? y = some s →
        ∃ r' s', after.get? x = some r' ∧ after.get? y = some s' ∧
          Rect.SameRelations r.ordered s.ordered r' s' ∧
          (r.Upright → s.Upright → Rect.SameRelations r s r' s')) ∧
    (∀ x, ¬ h.Encloses c x → after.get? x = boxes.get? x) ∧
    (|old.width| ≤ epsilon → ∀ x r, h.Encloses c x → boxes.get? x = some r →
      ∃ r', after.get? x = some r' ∧ r'.left = new.center.x ∧ r'.right = new.center.x) ∧
    (|old.height| ≤ epsilon → ∀ x r, h.Encloses c x → boxes.get? x = some r →
      ∃ r', after.get? x = some r' ∧ r'.top = new.center.y ∧ r'.bottom = new.center.y) := by
  intro after
  have t := (Hierarchy.extract_treeOf he).toIsTree
  refine ⟨fun hw hh => ⟨?_, fun x y r s hx hy hr hs => ?_⟩,
    fun x hx => mapSubtree_outside t _ hx, fun hw x r hx hr => ?_, fun hh x r hx hr => ?_⟩
  · rw [← AxisMap.applyRect_between hw hh ⟨hacross.le, hdown.le⟩]
    exact mapSubtree_inside t _ (.refl c) hold
  · obtain ⟨hsx, hsy⟩ := between_factors_pos hw hh hacross hdown
    have hsame := AxisMap.applyRect_relations hsx hsy r s
    refine ⟨_, _, mapSubtree_inside t _ hx hr, mapSubtree_inside t _ hy hs, hsame,
      fun hur hus => ?_⟩
    rwa [Rect.ordered_of_upright hur, Rect.ordered_of_upright hus] at hsame
  · exact ⟨_, mapSubtree_inside t _ hx hr, AxisMap.applyRect_of_narrow hw new r⟩
  · exact ⟨_, mapSubtree_inside t _ hx hr, AxisMap.applyRect_of_low hh new r⟩

/-- A sheet with an area that holds two others. -/
def couple : Diagram := .build "sheet" [.area "A" "sheet", .area "B" "A", .area "C" "A"]

def coupleTree : Hierarchy where
  root := "sheet"
  containers := .ofList [("A", ⟨"A", some "sheet", ["B", "C"], [], 1⟩),
    ("B", ⟨"B", some "A", [], [], 2⟩), ("C", ⟨"C", some "A", [], [], 2⟩),
    ("sheet", ⟨"sheet", none, ["A"], [], 0⟩)]
  owners := .empty

/-- The two inner areas overlap, and one of them sticks out of the outer one. -/
noncomputable def coupleBoxes : Boxes ℝ :=
  .ofList [("A", ⟨0, 0, 10, 5⟩), ("B", ⟨1, 1, 5, 4⟩), ("C", ⟨4, 0, 21, 2⟩),
    ("sheet", ⟨0, 0, 21, 21⟩)]

/-- The outer area becomes narrow and tall. -/
noncomputable def coupleRefitted : Boxes ℝ :=
  mapSubtree coupleTree coupleBoxes "A" (.between ⟨0, 0, 10, 5⟩ ⟨2, 1, 4, 10⟩)

/-- The overlap stays, and so does what sticks out. -/
theorem couple_faithful : Hierarchy.extract couple = .ok coupleTree ∧
    coupleBoxes.get? "A" = some ⟨0, 0, 10, 5⟩ ∧
    coupleRefitted.get? "A" = some ⟨2, 1, 4, 10⟩ ∧
    coupleRefitted.get? "sheet" = some ⟨0, 0, 21, 21⟩ ∧
    ∃ b c, coupleRefitted.get? "B" = some b ∧ coupleRefitted.get? "C" = some c ∧
      b.intersects c = true ∧ b.Within ⟨2, 1, 4, 10⟩ ∧ ¬ c.Within ⟨2, 1, 4, 10⟩ := by
  have he : Hierarchy.extract couple = .ok coupleTree := rfl
  have t := (Hierarchy.extract_treeOf he).toIsTree
  have hA : coupleBoxes.get? "A" = some ⟨0, 0, 10, 5⟩ := rfl
  have hB : coupleBoxes.get? "B" = some ⟨1, 1, 5, 4⟩ := rfl
  have hC : coupleBoxes.get? "C" = some ⟨4, 0, 21, 2⟩ := rfl
  have hinB : coupleTree.Encloses "A" "B" := .of_parent rfl
  have hinC : coupleTree.Encloses "A" "C" := .of_parent rfl
  have hupA : (⟨0, 0, 10, 5⟩ : Rect ℝ).Upright := by constructor <;> norm_num
  have hupB : (⟨1, 1, 5, 4⟩ : Rect ℝ).Upright := by constructor <;> norm_num
  have hupC : (⟨4, 0, 21, 2⟩ : Rect ℝ).Upright := by constructor <;> norm_num
  have hacross : (⟨2, 1, 4, 10⟩ : Rect ℝ).left < (⟨2, 1, 4, 10⟩ : Rect ℝ).right := by norm_num
  have hdown : (⟨2, 1, 4, 10⟩ : Rect ℝ).top < (⟨2, 1, 4, 10⟩ : Rect ℝ).bottom := by norm_num
  obtain ⟨hrefit, hframe, -⟩ := mapSubtree_faithful he hA hacross hdown
  obtain ⟨hself, hpairs⟩ := hrefit (by norm_num [epsilon, Rect.width_eq])
    (by norm_num [epsilon, Rect.height_eq])
  obtain ⟨b, c, hb, hc, -, hBC⟩ := hpairs "B" "C" _ _ hinB hinC hB hC
  obtain ⟨_, _, hb', ha, -, hBA⟩ := hpairs "B" "A" _ _ hinB (.refl "A") hB hA
  obtain ⟨_, _, hc', ha', -, hCA⟩ := hpairs "C" "A" _ _ hinC (.refl "A") hC hA
  cases hb.symm.trans hb'
  cases hc.symm.trans hc'
  cases ha.symm.trans hself
  cases ha'.symm.trans hself
  refine ⟨he, hA, hself, (hframe "sheet" (t.not_encloses_parent rfl)).trans rfl, b, c, hb, hc,
    ?_, ?_, ?_⟩
  · rw [(hBC hupB hupC).intersects, Rect.intersects_iff]
    norm_num
  · rw [(hBA hupB hupA).within]
    constructor <;> norm_num
  · rw [(hCA hupC hupA).within]
    rintro ⟨-, -, hright, -⟩
    norm_num at hright

end NestedLayout.Containment
