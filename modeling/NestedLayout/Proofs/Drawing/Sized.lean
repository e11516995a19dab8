import NestedLayout.Drawing.Sized
import NestedLayout.Proofs.Drawing.Ground
import NestedLayout.Proofs.Sizing.Containment
import NestedLayout.Proofs.Sizing.Plan

/-!
# Drawings with room for everything

`Drawing.Ready` is what sizing hands on to the later phases: every container has a box with its
padding to spare, children lie in the padded interior of their parent and apart from each other,
every element fits into its container, and below all child containers there is a band as high as
each element and a gap.

* `prepared_proper`: with settings in range the request of a drawing satisfies what proportional
  sizing asks for.
* `size_ready`: proportional sizing succeeds without any repair, and the drawing is ready.
* `Unpadded.ready`: so is one in boxes that use all of their room.
-/

set_option autoImplicit false

namespace NestedLayout.Drawing

/-! ## Drawings before sizing -/

section
variable {α : Type} [Scalar α]

/-- The drawing of a diagram when its requirements are known. -/
def prepared (diagram : Diagram) (settings : LayoutSettings α) (canvas : α × α)
    (hierarchy : Hierarchy) (connectors : List Connector) : Drawing α :=
  ((start diagram settings canvas hierarchy connectors).measure).require

omit [Scalar α] in
/-- Boxes for known containers are set as they are. -/
theorem foldl_setBox {l : List (String × Rect α)} {d : Drawing α}
    (hl : ∀ e ∈ l, d.hierarchy.containers.contains e.1 = true) :
    l.foldl (fun d e => d.setBox e.1 e.2) d =
      { d with boxes := l.foldl (fun t e => t.insert e.1 e.2) d.boxes } := by
  induction l generalizing d with
  | nil => rfl
  | cons e l ih =>
    have he : d.setBox e.1 e.2 = { d with boxes := d.boxes.insert e.1 e.2 } :=
      if_pos (hl e (.head _))
    rw [List.foldl_cons, he]
    exact ih fun e' he' => hl e' (.tail _ he')

end

section
variable {α : Type} [Scalar α] {diagram : Diagram} {settings : LayoutSettings α} {h : Hierarchy}

/-- Every element of the tree is measured. -/
theorem prepared_measured (canvas : α × α) (connectors : List Connector)
    (t : Hierarchy.TreeOf diagram h) {c e : String}
    (ho : h.owners.get? e = some c) :
    ∃ x, (prepared diagram settings canvas h connectors).extents.get? e = some x := by
  obtain ⟨element, he⟩ := Table.contains_iff.1 ((t.owned e).symm.trans (Table.contains_of_get? ho))
  exact ⟨Extent.of element settings.measure,
    (Table.get?_map _ _ _).trans (congrArg (Option.map _) he)⟩

end

section
variable {diagram : Diagram} {settings : LayoutSettings ℝ} {h : Hierarchy}
variable (canvas : ℝ × ℝ) (connectors : List Connector)

theorem prepared_proper (t : Hierarchy.TreeOf diagram h) (hspacing : settings.spacing.InRange)
    (hmeasure : settings.measure.InRange) :
    (prepared diagram settings canvas h connectors).sizingRequest.Proper := by
  have hcalc := SpaceLedger.calculate_required t.toIsTree (.new settings.spacing)
    (diagram.elements.map fun _ e => Extent.of e settings.measure)
  refine ⟨t.toIsTree, ⟨?_, fun {e x} hx => ?_, fun {id e} he => ?_, fun {id} hid => ?_⟩, ?_⟩
  · exact hcalc.spacing ▸ hspacing
  · obtain ⟨element, -, rfl⟩ := Option.map_eq_some_iff.1 ((Table.get?_map _ _ _).symm.trans hx)
    exact Extent.of_proper element hmeasure
  · exact prepared_measured canvas connectors t (t.mem_elements.1 he)
  · exact hcalc.required id (t.mem_postOrder.2 hid)
  · exact hcalc.spacing.symm

end

/-! ## What sizing leaves alone -/

section
variable {α : Type}

/-- Two drawings of one diagram and tree with the same settings and the same elements. -/
structure SameSubject (d d' : Drawing α) : Prop where
  diagram : d'.diagram = d.diagram
  hierarchy : d'.hierarchy = d.hierarchy
  connectors : d'.connectors = d.connectors
  settings : d'.settings = d.settings
  extents : d'.extents = d.extents

/-- Setting boxes leaves everything else alone. -/
theorem foldl_setBox_fields (l : List (String × Rect α)) (d : Drawing α) :
    ∃ boxes, l.foldl (fun (d : Drawing α) e => d.setBox e.1 e.2) d =
      { d with boxes := boxes } := by
  refine Fold.keeps (f := fun (d : Drawing α) (e : String × Rect α) => d.setBox e.1 e.2)
    (fun _ d' => ∃ boxes, d' = { d with boxes := boxes }) ⟨d.boxes, rfl⟩ ?_
  rintro _ e _ _ _ ⟨boxes, rfl⟩
  unfold setBox
  split
  · exact ⟨_, rfl⟩
  · exact ⟨_, rfl⟩

theorem adopt_request (d : Drawing α) (p : Proposal α) :
    (d.adopt p).sizingRequest = d.sizingRequest ∧
      (d.adopt p).metrics.containmentCorrections = d.metrics.containmentCorrections := by
  obtain ⟨boxes, hb⟩ := foldl_setBox_fields p.plan.boxes.entries d
  rw [adopt, hb]
  exact ⟨rfl, rfl⟩

theorem adopt_subject (d : Drawing α) (p : Proposal α) : SameSubject d (d.adopt p) := by
  obtain ⟨boxes, hb⟩ := foldl_setBox_fields p.plan.boxes.entries d
  rw [adopt, hb]
  exact ⟨rfl, rfl, rfl, rfl, rfl⟩

variable [Scalar α] {sizer : Sizer α} {d : Drawing α}

theorem settleBoxes_subject (d : Drawing α) (notes : List Note) :
    SameSubject d (d.settleBoxes notes).state ∧ (d.settleBoxes notes).state.scale = d.scale := by
  unfold settleBoxes
  dsimp only
  split
  · exact ⟨⟨rfl, rfl, rfl, rfl, rfl⟩, rfl⟩
  · split <;> exact ⟨⟨rfl, rfl, rfl, rfl, rfl⟩, rfl⟩

/-- **Sizing works at the scale of its plan** on the same tree, whatever the sizer. -/
theorem size_subject {step : Step (Drawing α)} (h : d.size sizer = some step) :
    SameSubject d step.state ∧ ∃ p, d.propose sizer = some p ∧ step.state.scale = p.plan.scale := by
  obtain ⟨p, hp, he⟩ := Option.bind_eq_some_iff.1 h
  cases he
  obtain ⟨hs, hscale⟩ := settleBoxes_subject (d.adopt p) (sizerNotes sizer p.failure)
  have ha := adopt_subject d p
  exact ⟨⟨hs.diagram.trans ha.diagram, hs.hierarchy.trans ha.hierarchy,
    hs.connectors.trans ha.connectors, hs.settings.trans ha.settings,
    hs.extents.trans ha.extents⟩, p, hp, hscale⟩

/-- **Sizing that succeeds** gives every container a box, and starts the ledger over with them. -/
theorem size_boxed {sized : Drawing α} {notes : List Note}
    (hs : d.size sizer = some ⟨sized, notes, none⟩) :
    (∀ {c}, d.hierarchy.containers.contains c = true → sized.boxes.contains c = true) ∧
      ∃ l : SpaceLedger α, sized.ledger = l.restart sized.boxes sized.scale := by
  obtain ⟨p, -, hstep⟩ := Option.bind_eq_some_iff.1 hs
  have hh : (d.adopt p).hierarchy = d.hierarchy := (adopt_subject d p).hierarchy
  have hstep := Option.some.inj hstep
  unfold settleBoxes at hstep
  dsimp only at hstep
  split at hstep
  · cases hstep
  · split at hstep
    · cases hstep
    · rename_i hvalidate
      cases hstep
      exact ⟨fun {c} hc => Containment.boxed_of_validate hvalidate (hh.symm ▸ hc), _, rfl⟩

/-- After sizing every container has its room. -/
theorem size_allotted {sized : Drawing α} {notes : List Note}
    (hs : d.size sizer = some ⟨sized, notes, none⟩) {c : String}
    (hc : d.hierarchy.containers.contains c = true) :
    sized.ledger.allotments.contains c = true := by
  obtain ⟨hboxed, l, hl⟩ := size_boxed hs
  rw [hl]
  exact (Table.contains_map _ _ c).trans (hboxed hc)

end

section
variable {sizer : Sizer ℝ} {d : Drawing ℝ}

/-- A sizer whose plans have proper scales leads to a proper scale, also when it fails. -/
theorem propose_scale_proper {p : Proposal ℝ} (h : d.propose sizer = some p)
    (hsizer : ∀ request plan, sizer.plan request = some (.ok plan) → plan.scale.Proper) :
    p.plan.scale.Proper := by
  unfold propose at h
  split at h
  · obtain ⟨answer, hanswer, h⟩ := Option.bind_eq_some_iff.1 h
    cases answer with
    | ok plan =>
      cases h
      exact hsizer _ _ hanswer
    | error e =>
      obtain ⟨plan, hplan, h⟩ := Option.bind_eq_some_iff.1 h
      cases h
      exact Proportional.plan_scale hplan ▸ Proportional.workingScale_proper _
  · cases h
    exact Proportional.workingScale_proper _

end

/-! ## Drawings after sizing -/

/-- The interior that the padding leaves of a box. -/
noncomputable def inner (d : Drawing ℝ) (box : Rect ℝ) : Rect ℝ :=
  box.deflate d.unitPadding.1 d.unitPadding.2

/-- A drawing in whose boxes everything has room. -/
structure Ready (d : Drawing ℝ) : Prop where
  tree : d.hierarchy.IsTree
  proper : d.scale.Proper
  scale : d.ledger.scale = d.scale
  spacing : d.ledger.spacing = d.settings.spacing
  inRange : d.settings.spacing.InRange
  hints : d.hints = .empty
  measured : ∀ {c e}, d.hierarchy.owners.get? e = some c → ∃ x, d.extents.get? e = some x
  positive : ∀ {e x}, d.extents.get? e = some x → x.Proper
  boxed : ∀ {id}, d.hierarchy.containers.contains id = true → ∃ box, d.boxes.get? id = some box
  upright : ∀ {id box}, d.boxes.get? id = some box → box.Upright
  roomy : ∀ {id box}, d.boxes.get? id = some box →
    2 * d.unitPadding.1 ≤ box.width ∧ 2 * d.unitPadding.2 ≤ box.height
  allotted : ∀ {id box}, d.boxes.get? id = some box →
    (d.ledger.allotments.get? id).map (·.available) = some (d.inner box)
  nested : ∀ {p c pbox box}, d.hierarchy.parent? c = some p → d.boxes.get? p = some pbox →
    d.boxes.get? c = some box → box.Within (d.inner pbox)
  apart : ∀ {p a b abox bbox}, d.hierarchy.parent? a = some p → d.hierarchy.parent? b = some p →
    a ≠ b → d.boxes.get? a = some abox → d.boxes.get? b = some bbox →
    abox.intersects bbox = false
  fits : ∀ {c e x box}, d.hierarchy.owners.get? e = some c → d.extents.get? e = some x →
    d.boxes.get? c = some box →
    (x.unitSize d.scale).1 ≤ (d.inner box).width ∧ (x.unitSize d.scale).2 ≤ (d.inner box).height
  band : ∀ {c b e x box bbox}, d.hierarchy.parent? b = some c →
    d.hierarchy.owners.get? e = some c → d.extents.get? e = some x →
    d.boxes.get? c = some box → d.boxes.get? b = some bbox →
    bbox.bottom + (x.unitSize d.scale).2 + d.unitGap.2 ≤ (d.inner box).bottom

/-- What a drawing is ready for depends on its ground. -/
theorem Ready.of_ground {d d' : Drawing ℝ} (hr : Ready d) (hg : SameGround d d') : Ready d' := by
  obtain ⟨-, hset, hh, hext, hbox, hsc, hhints, ⟨hspacing, hscale, havail⟩, -⟩ := hg
  have hpad : d'.unitPadding = d.unitPadding := by rw [unitPadding, unitPadding, hset, hsc]
  have hgap : d'.unitGap = d.unitGap := by rw [unitGap, unitGap, hset, hsc]
  have hinner : d'.inner = d.inner := by
    funext box
    rw [inner, inner, hpad]
  constructor <;>
    simp only [hset, hh, hext, hbox, hsc, hhints, hspacing, hscale, havail, hpad, hgap, hinner]
  exacts [hr.tree, hr.proper, hr.scale, hr.spacing, hr.inRange, hr.hints, hr.measured,
    hr.positive, hr.boxed, hr.upright, hr.roomy, hr.allotted, hr.nested, hr.apart, hr.fits,
    hr.band]

/-! ## From room to readiness -/

open Proportional

section
variable {d : Drawing ℝ} (hq : d.sizingRequest.Proper) (hs : d.scale.Proper)
  (hr : Roomy d.sizingRequest d.scale d.hierarchy.preOrder d.boxes)
include hq

theorem interior_eq_inner (box : Rect ℝ) : d.sizingRequest.interior d.scale box = d.inner box := by
  rw [inner, unitPadding, show d.settings.spacing = d.ledger.spacing from hq.spacing]
  rfl

/-- The footprint of an element is no larger than the grid of all elements of its container. -/
theorem unitSize_le {c e : String} {x : Extent ℝ} (ho : d.hierarchy.owners.get? e = some c)
    (hx : d.extents.get? e = some x) :
    x.totalWidth ≤ (d.sizingRequest.elementsSize c).1 ∧
      x.totalHeight ≤ (d.sizingRequest.elementsSize c).2 :=
  Requirement.extent_le_elementFootprint hq.required.spacing.gap (hq.required.proper hx)
    (hq.tree.mem_elements.2 ho) hx

include hr

/-- A child lies in the region that its parent keeps, and that in the padded interior. -/
theorem nested_of_roomy {p c : String} {pbox box : Rect ℝ} (hp : d.hierarchy.parent? c = some p)
    (hpb : d.boxes.get? p = some pbox) (hb : d.boxes.get? c = some box) :
    ∃ region, ChildrenRoom d.sizingRequest d.scale p pbox region ∧ box.Within region ∧
      region.Within (d.inner pbox) := by
  obtain ⟨region, hregion, hin⟩ :=
    hr.nested (hq.tree.mem_preOrder.2 (hq.tree.parentKnown hp)) hp hpb hb
  exact ⟨region, hregion, hin, interior_eq_inner hq pbox ▸ hregion.within⟩

theorem valid_of_roomy : Containment.Valid d.hierarchy d.unitPadding d.boxes where
  boxed := fun {id} hid => by
    cases hp : d.hierarchy.parent? id with
    | none => exact hq.tree.top hid hp ▸ hr.root
    | some p => exact hr.child (hq.tree.mem_preOrder.2 (hq.tree.parentKnown hp)) hp
  inside := fun {p c pbox box} hp hpb hb => by
    obtain ⟨region, -, hin, hwithin⟩ := nested_of_roomy hq hr hp hpb hb
    exact (hin.trans hwithin).contains
  apart := fun {p a b} ha hb hne =>
    Containment.partiallyOverlap_of_apart fun x y hx hy =>
      hr.apart (hq.tree.mem_preOrder.2 (hq.tree.parentKnown ha)) ha hb hne hx hy

include hs

theorem fits_of_roomy {c e : String} {x : Extent ℝ} {box : Rect ℝ}
    (ho : d.hierarchy.owners.get? e = some c) (hx : d.extents.get? e = some x)
    (hb : d.boxes.get? c = some box) : (x.unitSize d.scale).1 ≤ (d.inner box).width ∧
      (x.unitSize d.scale).2 ≤ (d.inner box).height := by
  obtain ⟨size, hc, hw, hh⟩ := interior_content hq hs (hr.room hb)
  obtain ⟨hxw, hxh⟩ := unitSize_le hq ho hx
  have hpos := (hq.required.proper hx).width.trans_le hxw
  rw [interior_eq_inner hq] at hw hh
  show x.totalWidth / d.scale.width ≤ _ ∧ x.totalHeight / d.scale.height ≤ _
  rw [div_le_iff₀ hs.width_pos, div_le_iff₀ hs.height_pos]
  exact ⟨hxw.trans (hc.elementsWidth.trans hw), hxh.trans ((hc.elementsHeight hpos).trans hh)⟩

/-- The band that the parent keeps below its children is as high as each element and a gap. -/
theorem band_of_roomy {c b e : String} {x : Extent ℝ} {box bbox : Rect ℝ}
    (hp : d.hierarchy.parent? b = some c) (ho : d.hierarchy.owners.get? e = some c)
    (hx : d.extents.get? e = some x) (hb : d.boxes.get? c = some box)
    (hbb : d.boxes.get? b = some bbox) :
    bbox.bottom + (x.unitSize d.scale).2 + d.unitGap.2 ≤ (d.inner box).bottom := by
  obtain ⟨region, hregion, hin, -⟩ := nested_of_roomy hq hr hp hb hbb
  obtain ⟨-, hxh⟩ := unitSize_le hq ho hx
  have hxu : x.totalHeight / d.scale.height ≤
      (d.sizingRequest.elementsSize c).2 / d.scale.height :=
    div_le_div_of_nonneg_right hxh hs.height_pos.le
  have hband : region.bottom + ((d.sizingRequest.elementsSize c).2 + d.ledger.spacing.gap) /
      d.scale.height ≤ _ := hregion.band (List.ne_nil_of_mem (hq.tree.mem_elements.2 ho))
  rw [interior_eq_inner hq, add_div] at hband
  show bbox.bottom + x.totalHeight / d.scale.height +
    d.settings.spacing.gap / d.scale.height ≤ _
  rw [show d.settings.spacing = d.ledger.spacing from hq.spacing]
  linarith [hin.bottom]

/-- **Roomy boxes make a drawing ready**, once the ledger starts over with them. -/
theorem ready_of_roomy (hh : d.hints = .empty) :
    Ready { d with ledger := d.ledger.restart d.boxes d.scale } := by
  have hvalid := valid_of_roomy hq hr
  have hspacing : d.ledger.spacing = d.settings.spacing := hq.spacing.symm
  refine
    { tree := hq.tree
      proper := hs
      scale := rfl
      spacing := hspacing
      inRange := hspacing ▸ hq.required.spacing
      hints := hh
      measured := fun ho => hq.required.measured (hq.tree.mem_elements.2 ho)
      positive := hq.required.proper
      boxed := hvalid.boxed
      upright := fun {id box} hb => (hr.room hb).upright hs (hq.required.one_le_min id).1
        (hq.required.one_le_min id).2
      roomy := fun {id box} hb => ?roomy
      allotted := fun {id box} hb => ?allotted
      nested := fun {p c pbox box} hp hpb hb => ?nested
      apart := fun ha hb hne hga hgb =>
        hr.apart (hq.tree.mem_preOrder.2 (hq.tree.parentKnown ha)) ha hb hne hga hgb
      fits := fits_of_roomy hq hs hr
      band := band_of_roomy hq hs hr }
  case roomy =>
    have := interior_room hq hs (hr.room hb)
    rwa [show d.sizingRequest.ledger.spacing = d.settings.spacing from hspacing] at this
  case allotted =>
    show ((Table.map _ d.boxes).get? id).map _ = some (d.inner box)
    rw [Table.get?_map, hb, ← interior_eq_inner hq]
    rfl
  case nested =>
    obtain ⟨region, -, hin, hwithin⟩ := nested_of_roomy hq hr hp hpb hb
    exact hin.trans hwithin

end

/-! ## Proportional sizing -/

/-- A plan whose boxes are roomy at the working scale, and that suggests no centers. -/
structure RoomyPlan (request : SizingRequest ℝ) (plan : SizingPlan ℝ) : Prop where
  scale : plan.scale = request.workingScale
  hints : plan.hints = .empty
  roomy : Roomy request request.workingScale request.hierarchy.preOrder plan.boxes

theorem propose_roomy {d : Drawing ℝ} (hq : d.sizingRequest.Proper) :
    ∃ plan, d.propose sizer = some ⟨plan, none⟩ ∧ RoomyPlan d.sizingRequest plan := by
  unfold propose
  split
  · obtain ⟨plan, hplan, hscale, hhints, hroomy⟩ := plan_spec hq
    refine ⟨plan, ?_, hscale, hhints, hroomy⟩
    simp only [sizer, hplan]
    rfl
  · rename_i hn
    exact ⟨_, rfl, rfl, rfl, directPlan_roomy hq (Bool.eq_false_iff.2 hn)⟩

/-- Nothing is repaired in valid boxes, and the ledger starts over with them. -/
theorem settleBoxes_of_valid {d : Drawing ℝ} (t : d.hierarchy.IsTree)
    (hv : Containment.Valid d.hierarchy d.unitPadding d.boxes) (notes : List Note) :
    d.settleBoxes notes =
      ⟨{ d with ledger := d.ledger.restart d.boxes d.scale }, notes, none⟩ := by
  have hvalidate := (Containment.validate_ok_iff t).2 hv
  unfold settleBoxes
  simp only [Containment.enforce_of_valid t hv, hvalidate, repairNotes, Nat.lt_irrefl, if_false,
    List.append_nil, Nat.add_zero]

/-- A drawing without boxes gets exactly those of the plan that it adopts. -/
theorem adopt_boxes {d : Drawing ℝ} {p : Proposal ℝ} (hb : d.boxes = .empty)
    (hkeys : ∀ {id box}, p.plan.boxes.get? id = some box →
      d.hierarchy.containers.contains id = true) (id : String) :
    (d.adopt p).boxes.get? id = p.plan.boxes.get? id := by
  show (p.plan.boxes.entries.foldl (fun d e => d.setBox e.1 e.2) d).boxes.get? id = _
  rw [foldl_setBox fun e he => hkeys (Table.mem_entries_iff.1 he), hb]
  simp [Table.get?_insertAll_entries]

/-- **Proportional sizing makes a drawing ready** without repairing anything. -/
theorem size_ready {d : Drawing ℝ} (hq : d.sizingRequest.Proper) (hb : d.boxes = .empty) :
    ∃ sized, d.size sizer = some ⟨sized, [], none⟩ ∧ Ready sized ∧
      sized.hierarchy = d.hierarchy ∧ sized.settings = d.settings ∧
      sized.scale = d.sizingRequest.workingScale ∧
      sized.metrics.containmentCorrections = d.metrics.containmentCorrections := by
  obtain ⟨plan, hplan, hscale, hhints, hroomy⟩ := propose_roomy hq
  have hsub := adopt_subject d ⟨plan, none⟩
  obtain ⟨hreq, hcorr⟩ := adopt_request d ⟨plan, none⟩
  have hsc : (d.adopt ⟨plan, none⟩).scale = d.sizingRequest.workingScale := hscale
  have hq' : (d.adopt ⟨plan, none⟩).sizingRequest.Proper := hreq ▸ hq
  have hs : (d.adopt ⟨plan, none⟩).scale.Proper := hsc ▸ workingScale_proper _
  have hr : Roomy (d.adopt ⟨plan, none⟩).sizingRequest (d.adopt ⟨plan, none⟩).scale
      (d.adopt ⟨plan, none⟩).hierarchy.preOrder (d.adopt ⟨plan, none⟩).boxes := by
    rw [hreq, hsub.hierarchy, hsc]
    exact hroomy.congr (adopt_boxes hb hroomy.known)
  refine ⟨_, ?_, ready_of_roomy hq' hs hr hhints, hsub.hierarchy, hsub.settings, hsc, hcorr⟩
  rw [size, hplan]
  exact congrArg some (settleBoxes_of_valid hq'.tree (valid_of_roomy hq' hr) _)

/-! ## Drawings without padding -/

/-- Boxes without padding: every box lies inside that of its parent and apart from those of its
siblings, and has room for each of its elements below the children. -/
structure Unpadded (d : Drawing ℝ) : Prop where
  padding : d.unitPadding = (0, 0)
  boxed : ∀ {c}, d.hierarchy.containers.contains c = true → ∃ box, d.boxes.get? c = some box
  upright : ∀ {c box}, d.boxes.get? c = some box → box.Upright
  nested : ∀ {p c pbox box}, d.hierarchy.parent? c = some p → d.boxes.get? p = some pbox →
    d.boxes.get? c = some box → box.Within pbox
  apart : ∀ {p a b abox bbox}, d.hierarchy.parent? a = some p → d.hierarchy.parent? b = some p →
    a ≠ b → d.boxes.get? a = some abox → d.boxes.get? b = some bbox → abox.intersects bbox = false
  fits : ∀ {c e x box}, d.hierarchy.owners.get? e = some c → d.extents.get? e = some x →
    d.boxes.get? c = some box →
    (x.unitSize d.scale).1 ≤ box.width ∧ (x.unitSize d.scale).2 ≤ box.height
  band : ∀ {c b e x box bbox}, d.hierarchy.parent? b = some c →
    d.hierarchy.owners.get? e = some c → d.extents.get? e = some x →
    d.boxes.get? c = some box → d.boxes.get? b = some bbox →
    bbox.bottom + (x.unitSize d.scale).2 + d.unitGap.2 ≤ box.bottom

section
variable {d : Drawing ℝ} (hu : Unpadded d)
include hu

theorem Unpadded.roomy {box : Rect ℝ} (hup : box.Upright) :
    2 * d.unitPadding.1 ≤ box.width ∧ 2 * d.unitPadding.2 ≤ box.height := by
  rw [hu.padding, mul_zero]
  exact ⟨hup.width_nonneg, hup.height_nonneg⟩

theorem Unpadded.inner_eq {box : Rect ℝ} (hup : box.Upright) : d.inner box = box := by
  obtain ⟨hw, hh⟩ := hu.roomy hup
  rw [inner, Rect.deflate_of_room hw hh, hu.padding]
  simp only [add_zero, sub_zero]

theorem Unpadded.nested_inner {p c : String} {pbox box : Rect ℝ}
    (hp : d.hierarchy.parent? c = some p) (hpb : d.boxes.get? p = some pbox)
    (hb : d.boxes.get? c = some box) : box.Within (d.inner pbox) := by
  rw [hu.inner_eq (hu.upright hpb)]
  exact hu.nested hp hpb hb

theorem Unpadded.valid : Containment.Valid d.hierarchy d.unitPadding d.boxes where
  boxed := hu.boxed
  inside := fun hp hpb hb => (hu.nested_inner hp hpb hb).contains
  apart := fun {p a b} ha hb hne => by
    obtain ⟨abox, hab⟩ := hu.boxed (Hierarchy.known_of_parent ha)
    obtain ⟨bbox, hbb⟩ := hu.boxed (Hierarchy.known_of_parent hb)
    exact (Containment.partiallyOverlap_eq_false_iff hab hbb).2
      (.inl (hu.apart ha hb hne hab hbb))

/-- **A drawing in boxes without padding is ready** when the ledger starts over with them. -/
theorem Unpadded.ready (hq : d.sizingRequest.Proper) (hscale : d.scale.Proper)
    (hhints : d.hints = .empty) : Ready { d with ledger := d.ledger.restart d.boxes d.scale } := by
  have hspacing : d.ledger.spacing = d.settings.spacing := hq.spacing.symm
  refine
    { tree := hq.tree
      proper := hscale
      scale := rfl
      spacing := hspacing
      inRange := hspacing ▸ hq.required.spacing
      hints := hhints
      measured := fun ho => hq.required.measured (hq.tree.mem_elements.2 ho)
      positive := hq.required.proper
      boxed := hu.boxed
      upright := hu.upright
      roomy := fun hb => hu.roomy (hu.upright hb)
      allotted := fun {id box} hb => ?allotted
      nested := hu.nested_inner
      apart := hu.apart
      fits := fun {c e x box} ho hx hb => ?fits
      band := fun {c b e x box bbox} hp ho hx hb hbb => ?band }
  case allotted =>
    show ((Table.map _ d.boxes).get? id).map _ = some (d.inner box)
    rw [Table.get?_map, hb, Drawing.inner, unitPadding, ← hspacing]
    rfl
  case fits =>
    show _ ≤ (d.inner box).width ∧ _ ≤ (d.inner box).height
    rw [hu.inner_eq (hu.upright hb)]
    exact hu.fits ho hx hb
  case band =>
    show _ ≤ (d.inner box).bottom
    rw [hu.inner_eq (hu.upright hb)]
    exact hu.band hp ho hx hb hbb

end

end NestedLayout.Drawing
