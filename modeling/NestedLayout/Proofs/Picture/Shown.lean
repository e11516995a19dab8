import NestedLayout.Proofs.Picture.Complete

/-!
# What stands in a picture under an id

Figures of containers come first, then those of elements, then those of connectors, and a later one
takes the place of an earlier one with its id.

* `figures_get?_of_connector`: a connector is always shown.
* `figures_get?_footprint`: an element is shown unless a connector has its id.
* `figures_get?_bounds`: so is a container.
-/

set_option autoImplicit false

namespace NestedLayout

/-- Whether one of the connectors has the id. -/
def Connector.named (cs : List Connector) (id : String) : Bool := cs.any fun c => c.id == id

theorem Connector.named_iff {cs : List Connector} {id : String} :
    Connector.named cs id = true ↔ ∃ c ∈ cs, c.id = id := by
  simp [Connector.named]

namespace Picture

/-! ## Figures of the three kinds -/

section
variable {α : Type} [Scalar α] {d : Drawing α} {map : AxisMap α} {f : Figure α}

/-- The three kinds of figures. -/
theorem mem_figuresOf (h : f ∈ figuresOf d map) :
    (∃ id c box, d.hierarchy.container? id = some c ∧ d.boxes.get? id = some box ∧
        f = containerFigure map c box) ∨
      (∃ id p, d.placements.get? id = some p ∧ f = elementFigure d map id p) ∨
      ∃ c ∈ d.connectors, ∃ path, d.routes.get? c.id = some path ∧
        connectorFigure? d map c path = some f := by
  simp only [figuresOf, List.mem_append, List.mem_filterMap, List.mem_map] at h
  rcases h with (⟨id, -, h⟩ | ⟨e, he, rfl⟩) | ⟨c, hmem, h⟩
  · obtain ⟨c, hc, h⟩ := Option.bind_eq_some_iff.1 h
    obtain ⟨box, hb, h⟩ := Option.bind_eq_some_iff.1 h
    cases h
    exact .inl ⟨id, c, box, hc, hb, rfl⟩
  · exact .inr (.inl ⟨e.1, e.2, Table.mem_entries_iff.1 he, rfl⟩)
  · obtain ⟨path, hpath, h⟩ := Option.bind_eq_some_iff.1 h
    exact .inr (.inr ⟨c, hmem, path, hpath, h⟩)

theorem connectorFigure?_spec {c : Connector} {path : List (Point α)}
    (h : connectorFigure? d map c path = some f) :
    f.id = c.id ∧ f.kind = .connector ∧ f.footprint = none ∧ f.path = path.map map.apply := by
  unfold connectorFigure? at h
  split at h
  · cases h
  · rename_i start rest hpath
    obtain ⟨bounds, -, rfl⟩ := Option.map_eq_some_iff.1 h
    exact ⟨rfl, rfl, rfl, hpath.symm⟩

end

/-! ## Figures that are shown -/

section
variable {α : Type} [Scalar α] {d : Drawing α} {render : RenderSettings α}

theorem figures_eq : (ofDrawing d render).figures =
    ((figuresOf d (projection d render).map).map fun f => (f.id, f)).foldl
      (fun t e => t.insert e.1 e.2) .empty := rfl

/-- **A connector is always shown**, in the place of whatever else has its id. -/
theorem figures_get?_of_connector (hc : d.Complete) (hids : (d.connectors.map (·.id)).Nodup)
    {c : Connector} (hmem : c ∈ d.connectors) :
    ∃ f, (ofDrawing d render).figures.get? c.id = some f ∧ f.kind = .connector ∧
      f.footprint = none := by
  obtain ⟨f, hf, hid, hkind⟩ := routeFigure?_of_mem (m := (projection d render).map) hc hmem
  obtain ⟨path, -, hroute⟩ := Option.bind_eq_some_iff.1 hf
  have hkeys : ((d.connectors.filterMap (routeFigure? d (projection d render).map)).map
      (·.id)) = d.connectors.map (·.id) :=
    map_filterMap_of_some fun c hc' => by
      obtain ⟨f, hf, hid, -⟩ := routeFigure?_of_mem (m := (projection d render).map) hc hc'
      exact ⟨f, hf, hid⟩
  refine ⟨f, ?_, hkind, (connectorFigure?_spec hroute).2.2.1⟩
  rw [figures_eq, figuresOf_eq, List.map_append, List.foldl_append]
  refine Table.get?_insertAll_of_mem ?_ ?_ _
  · rw [List.map_map]
    exact hkeys ▸ hids
  · exact hid ▸ List.mem_map_of_mem (List.mem_filterMap.2 ⟨c, hmem, hf⟩)

/-- What is not a connector stands under an id that no connector has. -/
theorem named_eq_false (hc : d.Complete) (hids : (d.connectors.map (·.id)).Nodup) {id : String}
    {f : Figure α} (hf : (ofDrawing d render).figures.get? id = some f)
    (hkind : f.kind ≠ .connector) : Connector.named d.connectors id = false := by
  rw [← Bool.not_eq_true, Connector.named_iff]
  rintro ⟨c, hmem, rfl⟩
  obtain ⟨g, hg, hk, -⟩ : ∃ g, (ofDrawing d render).figures.get? c.id = some g ∧
      g.kind = .connector ∧ g.footprint = none := figures_get?_of_connector hc hids hmem
  cases hf.symm.trans hg
  exact hkind hk

/-- An element with a place and an id of its own is shown. -/
theorem figures_get?_of_element {e : String} {p : Placement α}
    (hp : d.placements.get? e = some p) (hfree : Connector.named d.connectors e = false) :
    (ofDrawing d render).figures.get? e =
      some (elementFigure d (projection d render).map e p) := by
  have hnot : e ∉ ((d.connectors.filterMap (routeFigure? d (projection d render).map)).map
      fun f => (f.id, f)).map (·.1) := by
    intro he
    rw [List.map_map] at he
    obtain ⟨f, hf, rfl⟩ := List.mem_map.1 he
    obtain ⟨c, hmem, hroute⟩ := List.mem_filterMap.1 hf
    obtain ⟨path, -, hroute⟩ := Option.bind_eq_some_iff.1 hroute
    rw [← Bool.not_eq_true] at hfree
    exact hfree (Connector.named_iff.2 ⟨c, hmem, (connectorFigure?_spec hroute).1.symm⟩)
  rw [figures_eq, figuresOf_eq, List.map_append, List.foldl_append,
    Table.get?_insertAll_of_not_mem hnot, List.map_append, List.foldl_append]
  refine Table.get?_insertAll_of_mem ?_ ?_ _
  · rw [List.map_map, List.map_map]
    exact Table.nodup_keys d.placements
  · exact List.mem_map_of_mem (f := fun f : Figure α => (f.id, f))
      (List.mem_map.2 ⟨(e, p), Table.mem_entries_iff.2 hp, rfl⟩)

/-- A container with a box and an id of its own is shown. -/
theorem figures_get?_of_container (t : Hierarchy.TreeOf d.diagram d.hierarchy) (hc : d.Complete)
    {id : String} {c : Container} {box : Rect α} (hcon : d.hierarchy.container? id = some c)
    (hbox : d.boxes.get? id = some box) (helement : d.placements.contains id = false)
    (hfree : Connector.named d.connectors id = false) :
    (ofDrawing d render).figures.get? id =
      some (containerFigure (projection d render).map c box) := by
  obtain ⟨shown, hmem, hid, -⟩ := exists_containerFigure (m := (projection d render).map) t hc
    (Table.contains_of_get? hcon)
  have hshown : (ofDrawing d render).figures.contains id = true := by
    refine Table.contains_ofList_iff.2 ?_
    rw [List.map_map]
    exact List.mem_map.2 ⟨shown, hmem, hid⟩
  obtain ⟨f, hf⟩ := Table.contains_iff.1 hshown
  obtain ⟨rfl, hg⟩ := mem_figuresOf_of_get? hf
  rw [hf]
  rcases mem_figuresOf hg with ⟨id, c', box', hcon', hb, rfl⟩ | ⟨e, p, hp, rfl⟩ |
    ⟨c, hmem, path, -, hfig⟩
  · obtain rfl : c'.id = id := t.named hcon'
    cases hcon'.symm.trans hcon
    cases hb.symm.trans hbox
    rfl
  · rw [show (elementFigure d (projection d render).map e p).id = e from rfl,
      Table.contains_of_get? hp] at helement
    cases helement
  · rw [Connector.named_iff.2 ⟨c, hmem, (connectorFigure?_spec hfig).1.symm⟩] at hfree
    cases hfree

section
variable (hc : d.Complete) (hids : (d.connectors.map (·.id)).Nodup)
include hc hids

/-- **A footprint in the picture** is that of an element with an id of its own. -/
theorem figures_get?_footprint {e : String} {f : Figure α} {r : Rect α} :
    (ofDrawing d render).figures.get? e = some f ∧ f.footprint = some r ↔
      Connector.named d.connectors e = false ∧ ∃ p, d.placements.get? e = some p ∧
        f = elementFigure d (projection d render).map e p ∧
        r = (projection d render).map.applyRect p.footprint := by
  refine ⟨fun ⟨hf, hr⟩ => ?_, ?_⟩
  · obtain ⟨rfl, hg⟩ := mem_figuresOf_of_get? hf
    rcases mem_figuresOf hg with ⟨id, c, box, -, -, rfl⟩ | ⟨id, p, hp, rfl⟩ |
      ⟨c, -, path, -, hcon⟩
    · cases hr
    · cases hr
      exact ⟨named_eq_false hc hids hf (kind_ofElement_ne _).2, p, hp, rfl, rfl⟩
    · rw [(connectorFigure?_spec hcon).2.2.1] at hr
      cases hr
  · rintro ⟨hfree, p, hp, rfl, rfl⟩
    exact ⟨figures_get?_of_element hp hfree, rfl⟩

/-- **A container in the picture** is one of the tree with a box and an id of its own. -/
theorem figures_get?_bounds (t : Hierarchy.TreeOf d.diagram d.hierarchy)
    (hidsApart : ∀ id, d.diagram.areas.contains id = true →
      d.diagram.elements.contains id = false) {id : String} {f : Figure α} :
    (ofDrawing d render).figures.get? id = some f ∧ f.kind = .container ↔
      Connector.named d.connectors id = false ∧ ∃ c box,
        d.hierarchy.container? id = some c ∧ d.boxes.get? id = some box ∧
        f = containerFigure (projection d render).map c box := by
  refine ⟨fun ⟨hf, hkind⟩ => ?_, ?_⟩
  · obtain ⟨rfl, hg⟩ := mem_figuresOf_of_get? hf
    have hfree := named_eq_false hc hids hf (hkind ▸ by decide)
    rcases mem_figuresOf hg with ⟨id, c, box, hcon, hb, rfl⟩ | ⟨id, p, hp, rfl⟩ |
      ⟨c, -, path, -, hcon⟩
    · rw [show (containerFigure (projection d render).map c box).id = id from t.named hcon]
        at hfree ⊢
      exact ⟨hfree, c, box, hcon, hb, rfl⟩
    · exact absurd hkind (kind_ofElement_ne _).1
    · rw [(connectorFigure?_spec hcon).2.1] at hkind
      cases hkind
  · rintro ⟨hfree, c, box, hcon, hb, rfl⟩
    refine ⟨figures_get?_of_container t hc hcon hb ?_ hfree, rfl⟩
    rw [hc.placed, t.owned]
    exact hidsApart _ ((t.known _).symm.trans (Table.contains_of_get? hcon))

end

end

end Picture

end NestedLayout
