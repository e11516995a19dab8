import NestedLayout.Proofs.Drawing.Tight
import NestedLayout.Proofs.Exact.AxisMap
import NestedLayout.Proofs.Picture.Shown

/-!
# Tight nesting, and what a picture shows of it

A drawing and a picture both say where the containers and the elements are: `Regions`. These nest
tightly when the box of every container is drawn closely around what it holds.

* `Drawing.Tight.nestTightly`: what compaction reaches nests tightly.
* `Picture.ofDrawing_regions_iff`: in unit space a picture has the regions of its drawing exactly
  when no connector has the id of an area or an element.
* `Picture.ofDrawing_nestTightly_iff`: so this is also when the picture nests tightly.
-/

set_option autoImplicit false

namespace NestedLayout

/-- The boxes of containers and the footprints of elements, where they are known. -/
@[ext]
structure Regions where
  box? : String → Option (Rect ℝ)
  footprint? : String → Option (Rect ℝ)

namespace Regions

/-- The boxes and footprints directly inside a container. -/
def contents (r : Regions) (h : Hierarchy) (c : String) : List (Rect ℝ) :=
  (h.children c).filterMap r.box? ++ (h.elements c).filterMap r.footprint?

/-- **Everything nests tightly.** The box of a container with contents is their hull with the
padding around it, all that is in a container lies in its padded interior, and siblings are apart
or one contains the other. -/
structure NestTightly (r : Regions) (h : Hierarchy) (padding : ℝ × ℝ) : Prop where
  tight : ∀ {c}, h.children c ≠ [] ∨ h.elements c ≠ [] → ∃ hull,
    Rect.IsHull (r.contents h c) hull ∧ r.box? c = some (hull.inflate padding.1 padding.2)
  child : ∀ {c b}, b ∈ h.children c → ∃ box bbox, r.box? c = some box ∧ r.box? b = some bbox ∧
    bbox.Within (box.deflate padding.1 padding.2)
  element : ∀ {c e}, e ∈ h.elements c → ∃ box f, r.box? c = some box ∧ r.footprint? e = some f ∧
    f.Within (box.deflate padding.1 padding.2)
  siblings : ∀ {p a b}, a ∈ h.children p → b ∈ h.children p → a ≠ b → ∃ abox bbox,
    r.box? a = some abox ∧ r.box? b = some bbox ∧
      (abox.intersects bbox = false ∨ abox.contains bbox = true ∨ bbox.contains abox = true)

section
variable {r : Regions} {h : Hierarchy} {padding : ℝ × ℝ} (hn : r.NestTightly h padding)
  (t : h.IsTree) {e : String}
include hn t

/-- What nests tightly around an element shows all containers. -/
theorem NestTightly.boxed {id : String} (hid : h.containers.contains id = true)
    (howned : h.owners.contains e = true) : ∃ box, r.box? id = some box := by
  cases hp : h.parent? id with
  | some p =>
    obtain ⟨-, box, -, hbox, -⟩ := hn.child (t.mem_children.2 hp)
    exact ⟨box, hbox⟩
  | none =>
    -- at the root: it holds the element, or an area in which the element is
    obtain rfl := t.top hid hp
    obtain ⟨c, hc⟩ := Table.contains_iff.1 howned
    have hoccupied : h.children h.root ≠ [] ∨ h.elements h.root ≠ [] := by
      rcases (t.root_encloses (t.known_of_owner hc)).cases_head with rfl | ⟨b, hb, -⟩
      · exact .inr (List.ne_nil_of_mem (t.mem_elements.2 hc))
      · exact .inl (List.ne_nil_of_mem (t.mem_children.2 hb))
    obtain ⟨hull, -, hbox⟩ := hn.tight hoccupied
    exact ⟨_, hbox⟩

theorem NestTightly.footprinted (howned : h.owners.contains e = true) :
    ∃ f, r.footprint? e = some f := by
  obtain ⟨c, hc⟩ := Table.contains_iff.1 howned
  obtain ⟨-, f, -, hf, -⟩ := hn.element (t.mem_elements.2 hc)
  exact ⟨f, hf⟩

end

end Regions

/-! ## Drawings -/

/-- Where a drawing has the containers of its tree and the elements. -/
def Drawing.regions (d : Drawing ℝ) : Regions where
  box? id := if d.hierarchy.containers.contains id then d.boxes.get? id else none
  footprint? e := (d.placements.get? e).map (·.footprint)

namespace Drawing

variable {d d₀ : Drawing ℝ}

theorem regions_box?_eq_some_iff {id : String} {box : Rect ℝ} : d.regions.box? id = some box ↔
    d.hierarchy.containers.contains id = true ∧ d.boxes.get? id = some box := by
  simp [regions]

theorem regions_box?_of_known {id : String} (hid : d.hierarchy.containers.contains id = true) :
    d.regions.box? id = d.boxes.get? id := if_pos hid

theorem regions_contents (t : d.hierarchy.IsTree) (c : String) :
    d.regions.contents d.hierarchy c = d.contents c := by
  refine congrArg (· ++ _) (List.filterMap_congr fun b hb => ?_)
  exact regions_box?_of_known (Hierarchy.known_of_parent (t.mem_children.1 hb))

/-- **What compaction reaches nests tightly.** -/
theorem Tight.nestTightly (t : d₀.hierarchy.IsTree) (h : Tight d₀ d₀.hierarchy.postOrder d)
    (hvalid : Containment.Valid d₀.hierarchy d₀.unitPadding d.boxes) :
    d.regions.NestTightly d₀.hierarchy d₀.unitPadding := by
  have hbox : ∀ {id box}, d₀.hierarchy.containers.contains id = true →
      d.boxes.get? id = some box → d.regions.box? id = some box := fun hid hb =>
    regions_box?_eq_some_iff.2 ⟨h.hierarchy.symm ▸ hid, hb⟩
  have hcontents : d.regions.contents d₀.hierarchy = d.contents := by
    rw [← h.hierarchy] at t ⊢
    exact funext (regions_contents t)
  have hknown : ∀ {id}, d₀.hierarchy.children id ≠ [] ∨ d₀.hierarchy.elements id ≠ [] →
      d₀.hierarchy.containers.contains id = true := by
    rintro id (hid | hid)
    · obtain ⟨b, hb⟩ := List.exists_mem_of_ne_nil _ hid
      exact t.parentKnown (t.mem_children.1 hb)
    · obtain ⟨e, he⟩ := List.exists_mem_of_ne_nil _ hid
      exact t.known_of_owner (t.mem_elements.1 he)
  -- the box of a container with contents, and what lies in its interior
  have hinner : ∀ {id}, d₀.hierarchy.children id ≠ [] ∨ d₀.hierarchy.elements id ≠ [] →
      ∃ box, d.regions.box? id = some box ∧ ∀ r ∈ d.contents id,
        r.Within (box.deflate d₀.unitPadding.1 d₀.unitPadding.2) := fun {id} hid => by
    obtain ⟨box, hull, hb, hhull, -, hin⟩ := h.box_eq_inflate t hid
    rw [inner, h.unitPadding] at hin
    exact ⟨box, hbox (hknown hid) hb, hin ▸ hhull.holds⟩
  refine
    { tight := fun {c} hc => ?tight
      child := fun {c b} hb => ?child
      element := fun {c e} he => ?element
      siblings := fun {p a b} ha hb hne => ?siblings }
  case tight =>
    obtain ⟨box, hull, hb, hhull, rfl, -⟩ := h.box_eq_inflate t hc
    exact ⟨hull, hcontents ▸ hhull, hbox (hknown hc) hb⟩
  case child =>
    have hp := t.mem_children.1 hb
    obtain ⟨bbox, hbb, hmem⟩ := h.child_mem_contents t hp
    obtain ⟨box, hc, hin⟩ := hinner (.inl (List.ne_nil_of_mem hb))
    exact ⟨box, bbox, hc, hbox (Hierarchy.known_of_parent hp) hbb, hin _ hmem⟩
  case element =>
    obtain ⟨p, hp, hmem⟩ := h.footprint_mem_contents t (t.mem_elements.1 he)
    obtain ⟨box, hc, hin⟩ := hinner (.inr (List.ne_nil_of_mem he))
    exact ⟨box, p.footprint, hc, congrArg (·.map (·.footprint)) hp, hin _ hmem⟩
  case siblings =>
    have hpa := t.mem_children.1 ha
    have hpb := t.mem_children.1 hb
    obtain ⟨abox, hab⟩ := hvalid.boxed (Hierarchy.known_of_parent hpa)
    obtain ⟨bbox, hbb⟩ := hvalid.boxed (Hierarchy.known_of_parent hpb)
    exact ⟨abox, bbox, hbox (Hierarchy.known_of_parent hpa) hab,
      hbox (Hierarchy.known_of_parent hpb) hbb,
      (Containment.partiallyOverlap_eq_false_iff hab hbb).1 (hvalid.apart hpa hpb hne)⟩

end Drawing

/-! ## Pictures -/

/-- Where a picture shows containers and elements. -/
def Picture.regions (p : Picture ℝ) : Regions where
  box? id := (p.figures.get? id).bind fun f => if f.kind = .container then some f.bounds else none
  footprint? e := (p.figures.get? e).bind (·.footprint)

namespace Picture

theorem regions_box?_eq_some_iff {p : Picture ℝ} {id : String} {r : Rect ℝ} :
    p.regions.box? id = some r ↔
      ∃ f, (p.figures.get? id = some f ∧ f.kind = .container) ∧ f.bounds = r := by
  simp [regions, Option.bind_eq_some_iff, and_assoc]

theorem regions_footprint?_eq_some_iff {p : Picture ℝ} {e : String} {r : Rect ℝ} :
    p.regions.footprint? e = some r ↔
      ∃ f, p.figures.get? e = some f ∧ f.footprint = some r := Option.bind_eq_some_iff

section
variable {d : Drawing ℝ} {render : RenderSettings ℝ} (hspace : render.space = .unit)

include hspace in
theorem projection_unit : (projection d render).map = .identity := by
  simp only [projection, hspace]

variable (t : Hierarchy.TreeOf d.diagram d.hierarchy) (hc : d.Complete)
  (hdistinct : Connector.Distinct d.diagram d.connectors)
  (hidsApart : ∀ id, d.diagram.areas.contains id = true →
    d.diagram.elements.contains id = false)
  (hupright : ∀ {id box}, d.hierarchy.containers.contains id = true →
    d.boxes.get? id = some box → box.Upright)
  (hstand : d.Standing)
include hspace hc hdistinct

include hstand in
/-- In unit space a picture has the footprints of the elements in whose place no connector is. -/
theorem ofDrawing_footprint? {e : String} {r : Rect ℝ} :
    (ofDrawing d render).regions.footprint? e = some r ↔
      Connector.named d.connectors e = false ∧ d.regions.footprint? e = some r := by
  have hsame : ∀ {p}, d.placements.get? e = some p →
      (projection d render).map.applyRect p.footprint = p.footprint := fun hp => by
    rw [projection_unit hspace, AxisMap.applyRect_identity (hstand hp)]
  rw [regions_footprint?_eq_some_iff, Drawing.regions, Option.map_eq_some_iff]
  refine ⟨fun ⟨f, hf⟩ => ?_, fun ⟨hfree, p, hp, hr⟩ => ?_⟩
  · obtain ⟨hfree, p, hp, -, rfl⟩ := (figures_get?_footprint hc hdistinct.ids).1 hf
    exact ⟨hfree, p, hp, (hsame hp).symm⟩
  · exact ⟨_, (figures_get?_footprint hc hdistinct.ids).2
      ⟨hfree, p, hp, rfl, hr.symm.trans (hsame hp).symm⟩⟩

include t hidsApart

include hupright in
/-- In unit space a picture has the boxes of the containers in whose place no connector is. -/
theorem ofDrawing_box? {id : String} {r : Rect ℝ} :
    (ofDrawing d render).regions.box? id = some r ↔
      Connector.named d.connectors id = false ∧ d.regions.box? id = some r := by
  have hsame : ∀ {c box}, d.hierarchy.container? id = some c → d.boxes.get? id = some box →
      (containerFigure (projection d render).map c box).bounds = box := fun {_ box} hcon hb => by
    show (projection d render).map.applyRect box = box
    rw [projection_unit hspace,
      AxisMap.applyRect_identity (hupright (Table.contains_of_get? hcon) hb)]
  rw [regions_box?_eq_some_iff, Drawing.regions_box?_eq_some_iff]
  refine ⟨fun ⟨f, hf, hr⟩ => ?_, fun ⟨hfree, hid, hb⟩ => ?_⟩
  · obtain ⟨hfree, c, box, hcon, hb, rfl⟩ :=
      (figures_get?_bounds hc hdistinct.ids t hidsApart).1 hf
    exact ⟨hfree, Table.contains_of_get? hcon, hr ▸ (hsame hcon hb).symm ▸ hb⟩
  · obtain ⟨c, hcon⟩ := Table.contains_iff.1 hid
    exact ⟨_, (figures_get?_bounds hc hdistinct.ids t hidsApart).2
      ⟨hfree, c, r, hcon, hb, rfl⟩, hsame hcon hb⟩

include hupright hstand

/-- A picture in which no container and no element is missing has lost none to a connector. -/
theorem apart_of_shown
    (hboxes : ∀ {id}, d.hierarchy.containers.contains id = true →
      ∃ r, (ofDrawing d render).regions.box? id = some r)
    (hfootprints : ∀ {e}, d.hierarchy.owners.contains e = true →
      ∃ r, (ofDrawing d render).regions.footprint? e = some r) :
    Connector.Apart d.diagram d.connectors := by
  intro c hmem
  have hnamed : Connector.named d.connectors c.id = true :=
    Connector.named_iff.2 ⟨c, hmem, rfl⟩
  constructor <;> rw [Bool.eq_false_iff]
  · intro harea
    obtain ⟨r, hr⟩ := hboxes ((t.known _).trans harea)
    obtain ⟨hfree, -⟩ := (ofDrawing_box? hspace t hc hdistinct hidsApart hupright).1 hr
    cases hnamed.symm.trans hfree
  · intro helement
    obtain ⟨r, hr⟩ := hfootprints ((t.owned _).trans helement)
    obtain ⟨hfree, -⟩ := (ofDrawing_footprint? hspace hc hdistinct hstand).1 hr
    cases hnamed.symm.trans hfree

/-- **In unit space a picture has the regions of its drawing** exactly when no connector has the id
of an area or an element. -/
theorem ofDrawing_regions_iff :
    (ofDrawing d render).regions = d.regions ↔ Connector.Apart d.diagram d.connectors := by
  refine ⟨fun heq => ?_, fun hapart => ?_⟩
  · refine apart_of_shown hspace t hc hdistinct hidsApart hupright hstand (fun {id} hid => ?_)
      fun {e} he => ?_
    · obtain ⟨box, hb⟩ := Table.contains_iff.1 (hc.boxed hid)
      exact ⟨box, heq ▸ Drawing.regions_box?_eq_some_iff.2 ⟨hid, hb⟩⟩
    · obtain ⟨p, hp⟩ := Table.contains_iff.1 ((hc.placed e).trans he)
      exact ⟨p.footprint, heq ▸ congrArg (·.map (·.footprint)) hp⟩
  · have hfree : ∀ {id}, d.diagram.areas.contains id = true ∨
        d.diagram.elements.contains id = true → Connector.named d.connectors id = false := by
      intro id hid
      rw [← Bool.not_eq_true, Connector.named_iff]
      rintro ⟨c, hmem, rfl⟩
      obtain ⟨ha, he⟩ := hapart c hmem
      rw [ha, he] at hid
      exact Bool.false_ne_true (or_self_iff.1 hid)
    refine Regions.ext (funext fun id => Option.ext fun r => ?_)
      (funext fun e => Option.ext fun r => ?_)
    · rw [ofDrawing_box? hspace t hc hdistinct hidsApart hupright]
      refine and_iff_right_of_imp fun hb => hfree (.inl ?_)
      exact (t.known _).symm.trans (Drawing.regions_box?_eq_some_iff.1 hb).1
    · rw [ofDrawing_footprint? hspace hc hdistinct hstand]
      refine and_iff_right_of_imp fun hf => hfree (.inr ?_)
      obtain ⟨p, hp, -⟩ := Option.map_eq_some_iff.1 hf
      rw [← t.owned, ← hc.placed]
      exact Table.contains_of_get? hp

/-- **In unit space a picture of what nests tightly nests tightly** exactly when no connector has
the id of an area or an element. -/
theorem ofDrawing_nestTightly_iff {padding : ℝ × ℝ}
    (htight : d.regions.NestTightly d.hierarchy padding) :
    (ofDrawing d render).regions.NestTightly d.hierarchy padding ↔
      Connector.Apart d.diagram d.connectors := by
  refine ⟨fun hn => ?_, fun hapart => ?_⟩
  · intro c hmem
    -- the connector ends at an element, so the root has contents
    have hhub : d.hierarchy.owners.contains c.hub = true :=
      (t.owned _).trans ((hdistinct.joining c hmem).known _ (hdistinct.joining c hmem).hub)
    exact apart_of_shown hspace t hc hdistinct hidsApart hupright hstand
      (fun hid => hn.boxed t.toIsTree hid hhub) (fun he => hn.footprinted t.toIsTree he) c hmem
  · rwa [(ofDrawing_regions_iff hspace t hc hdistinct hidsApart hupright hstand).2 hapart]

end

end Picture

end NestedLayout
