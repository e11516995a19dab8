import NestedLayout.Proofs.Hierarchy.Shape
import NestedLayout.Proofs.Sizing.Breakdown
import NestedLayout.Proofs.Sizing.Plan

/-!
# Room for everyone

What proportional sizing promises to each container of a diagram, in exact arithmetic.

* `plan_root`: the root keeps the unit square, in every arithmetic.
* `plan_rooms`: every container has a box with room for its least size, in the padded interior of
  its parent's box, and no two siblings meet.
-/

set_option autoImplicit false

namespace NestedLayout.Proportional

open Hierarchy

/-! ## The root -/

section
variable {α : Type} [Scalar α] {request : SizingRequest α} {scale : WorldScale α}

/-- Only a container with a parent gets another box when it shrinks. -/
theorem shrinkOwn_root {p p' : Progress α} {id : String} {c : Container} {own own' : Rect α}
    (hid : id = request.hierarchy.root → c.parent = none)
    (hs : shrinkOwn request scale p id c own = some (p', own')) :
    p'.boxes.get? request.hierarchy.root = p.boxes.get? request.hierarchy.root := by
  unfold shrinkOwn at hs
  cases hpar : c.parent with
  | none =>
    simp only [hpar] at hs
    cases hs
    rfl
  | some parent =>
    have hne : request.hierarchy.root ≠ id := fun he => by
      rw [hid he.symm] at hpar
      cases hpar
    cases hr : request.ledger.requirements.get? id with
    | none =>
      simp only [hpar, hr] at hs
      cases hs
      rfl
    | some r =>
      simp only [hpar, hr] at hs
      obtain ⟨reduced, -, hs⟩ := Option.bind_eq_some_iff.1 hs
      split at hs
      · cases hs
        rfl
      · cases hs
        exact Table.get?_insert_ne _ _ hne

variable (t : request.hierarchy.IsTree)
include t

/-- No step changes the box of the root: it does not shrink, and it is nobody's child. -/
theorem sizeContainer_root {p p' : Progress α} {id : String}
    (hs : sizeContainer request scale p id = some p') :
    p'.boxes.get? request.hierarchy.root = p.boxes.get? request.hierarchy.root := by
  unfold sizeContainer at hs
  split at hs
  · rename_i c own hc hown
    obtain ⟨⟨p₁, own'⟩, hshrink, hs⟩ := Option.bind_eq_some_iff.1 hs
    have hkept : p₁.boxes.get? request.hierarchy.root = p.boxes.get? request.hierarchy.root :=
      shrinkOwn_root (fun he => by
        rw [← container?_parent hc, he]
        exact t.rootTop) hshrink
    dsimp only at hs
    split at hs
    · cases hs
      exact hkept
    · cases hs
      refine (Table.get?_insertAll_of_not_mem ?_ _).trans hkept
      rw [childCells_ids, ← container?_children hc, t.mem_children, t.rootTop]
      exact Option.some_ne_none _ ∘ Eq.symm
  · cases hs
    rfl

/-- **The root keeps the unit square.** -/
theorem plan_root {p : SizingPlan α} (hp : plan request = some p) :
    p.boxes.get? request.hierarchy.root = some .unit := by
  obtain ⟨progress, hfold, he⟩ := Option.bind_eq_some_iff.1 hp
  cases he
  refine Fold.keepsSome (fun b : Progress α => b.boxes.get? request.hierarchy.root = some .unit)
    (Table.get?_insert_self _ _ _) (fun id _ b b' hb hs => ?_) hfold
  exact (sizeContainer_root t hs).trans hb

end

/-! ## All containers -/

/-- The request for a tree whose requirements have been calculated is proper when the spacing is in
range and every element has an extent with a width. -/
theorem calculated_proper {d : Diagram} {h : Hierarchy} (t : TreeOf d h)
    {settings : LayoutSettings ℝ} (hspacing : settings.spacing.InRange)
    {extents : IdTable (Extent ℝ)}
    (hmeasured : ∀ e, d.elements.contains e = true → extents.contains e = true)
    (hproper : ∀ e x, extents.get? e = some x → x.Proper) {l : SpaceLedger ℝ}
    (hl : l.spacing = settings.spacing) (connectors : List Connector) (canvas : ℝ × ℝ) :
    SizingRequest.Proper ⟨h, l.calculate h extents, extents, connectors, settings, canvas⟩ := by
  have hcalc := SpaceLedger.calculate_required t.toIsTree l extents
  refine ⟨t.toIsTree, ⟨?_, fun {e x} hx => hproper e x hx, fun {id e} he => ?_,
    fun {id} hid => hcalc.required id (t.mem_postOrder.2 hid)⟩, ?_⟩
  · rw [hcalc.spacing, hl]
    exact hspacing
  · have ho := Table.contains_of_get? (t.mem_elements.1 he)
    exact Table.contains_iff.1 (hmeasured e ((t.owned e).symm.trans ho))
  · rw [hcalc.spacing, hl]

/-- **Everyone has room.** For every tree, all extents with a width, every canvas and spacing in
range, proportional sizing has an answer, and in it every container has a box: the root the unit
square, each one room for its least size, in pixels, each child a place in the padded interior of
its parent, and no two siblings a point in common. -/
theorem plan_rooms {d : Diagram} {h : Hierarchy} (he : extract d = .ok h)
    {settings : LayoutSettings ℝ} (hspacing : settings.spacing.InRange)
    {extents : IdTable (Extent ℝ)}
    (hmeasured : ∀ e, d.elements.contains e = true → extents.contains e = true)
    (hproper : ∀ e x, extents.get? e = some x → x.Proper) {l : SpaceLedger ℝ}
    (hl : l.spacing = settings.spacing) (connectors : List Connector) (canvas : ℝ × ℝ) :
    let request : SizingRequest ℝ :=
      ⟨h, l.calculate h extents, extents, connectors, settings, canvas⟩
    ∃ p, plan request = some p ∧ p.scale = request.workingScale ∧
      p.boxes.keys = h.containers.keys ∧ p.boxes.get? h.root = some .unit ∧
      (∀ id box, p.boxes.get? id = some box →
        ∃ r, request.ledger.requirements.get? id = some r ∧
          r.minWidth ≤ box.width * p.scale.width ∧ r.minHeight ≤ box.height * p.scale.height) ∧
      (∀ parent id pbox box, h.parent? id = some parent → p.boxes.get? parent = some pbox →
        p.boxes.get? id = some box →
        box.Within (pbox.deflate (p.scale.toUnitX settings.spacing.padding)
          (p.scale.toUnitY settings.spacing.padding))) ∧
      ∀ parent a b abox bbox, h.parent? a = some parent → h.parent? b = some parent → a ≠ b →
        p.boxes.get? a = some abox → p.boxes.get? b = some bbox →
        abox.intersects bbox = false := by
  intro request
  have t := extract_treeOf he
  have hq : request.Proper :=
    calculated_proper t hspacing hmeasured hproper hl connectors canvas
  obtain ⟨p, hp, hscale, -, hroomy⟩ := plan_spec hq
  have hdone : ∀ {a parent}, h.parent? a = some parent → parent ∈ h.preOrder := fun ha =>
    t.mem_preOrder.2 (t.parentKnown ha)
  refine ⟨p, hp, hscale, Table.keys_eq_of_contains fun id => ?keys, plan_root hq.tree hp,
    fun id box hbox => ?room, fun parent id pbox box hpar hpb hb => ?inside,
    fun parent a b abox bbox ha hb hne => hroomy.apart (hdone ha) ha hb hne⟩
  case keys =>
    refine Bool.eq_iff_iff.2 ⟨fun hid => ?_, fun hid => ?_⟩
    · obtain ⟨box, hbox⟩ := Table.contains_iff.1 hid
      exact hroomy.known hbox
    · refine Table.contains_iff.2 ?_
      cases hpar : h.parent? id with
      | none =>
        rw [t.top hid hpar]
        exact hroomy.root
      | some parent => exact hroomy.child (hdone hpar) hpar
  case room =>
    have hroom := hroomy.room hbox
    exact ⟨_, hq.required.required (hroomy.known hbox), hscale ▸ hroom.width,
      hscale ▸ hroom.height⟩
  case inside =>
    obtain ⟨region, hregion, hin⟩ := hroomy.nested (hdone hpar) hpar hpb hb
    have hpad : settings.spacing = (l.calculate h extents).spacing := hq.spacing
    rw [hscale, hpad]
    exact hin.trans hregion.within

/-- In a tree with an area in an area, under the standard settings, the inner one lies in the
interior of the outer one. -/
theorem scattered_rooms :
    let settings : LayoutSettings ℝ := .standard
    let extents := scattered.elements.map fun _ e => Extent.of e settings.measure
    ∃ h p outer inner, extract scattered = .ok h ∧
      plan ⟨h, (SpaceLedger.new settings.spacing).calculate h extents, extents, [], settings,
        (1200, 800)⟩ = some p ∧
      p.boxes.get? "root" = some .unit ∧ p.boxes.get? "C" = some outer ∧
      p.boxes.get? "B" = some inner ∧
      inner.Within (outer.deflate (p.scale.toUnitX settings.spacing.padding)
        (p.scale.toUnitY settings.spacing.padding)) := by
  intro settings extents
  obtain ⟨h, he⟩ : ∃ h, extract scattered = .ok h := ⟨_, rfl⟩
  have hs := Settings.standard_inRange
  have hspacing : settings.spacing.InRange := hs.spacing
  have hmeasured : ∀ e, scattered.elements.contains e = true → extents.contains e = true :=
    fun e hd => (Table.contains_map _ _ _).trans hd
  have hproper : ∀ e x, extents.get? e = some x → x.Proper := fun e x hx => by
    obtain ⟨element, -, rfl⟩ := Option.map_eq_some_iff.1 ((Table.get?_map _ _ _).symm.trans hx)
    exact Extent.of_proper element hs.measure
  obtain ⟨p, hp, -, hkeys, hroot, -, hin, -⟩ := plan_rooms he hspacing hmeasured hproper
    (l := .new settings.spacing) rfl [] (1200, 800)
  cases he
  have hbox : ∀ id, id ∈ p.boxes.keys → ∃ box, p.boxes.get? id = some box := fun id hid =>
    Table.contains_iff.1 (Table.mem_keys_iff.1 hid)
  obtain ⟨outer, hout⟩ := hbox "C" (hkeys ▸ by decide)
  obtain ⟨inner, hinn⟩ := hbox "B" (hkeys ▸ by decide)
  exact ⟨_, p, outer, inner, rfl, hp, hroot, hout, hinn, hin "C" "B" outer inner rfl hout hinn⟩

end NestedLayout.Proportional
