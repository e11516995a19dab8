import NestedLayout.Picture.Basic
import NestedLayout.Proofs.Drawing.Cast

/-!
# Pictures that show everything

`Picture.ShowsAll` says that nothing of a diagram is lost in a picture. Containers, elements and
connectors go into one table of figures, and a connector takes the place of a figure with its id:
connectors keep apart from each other, but nothing keeps them apart from areas and elements.

* `figuresOf_ids`: the ids of the figures of a complete drawing, kind by kind.
* `figuresOf_cases`: every figure shows something of the diagram.
* `ofDrawing_showsAll_iff`: the picture of a complete drawing shows everything exactly when no
  connector has the id of an area or an element.
-/

set_option autoImplicit false

namespace NestedLayout

variable {α : Type}

/-- Every container, element and connector has a figure of its kind under its id, there are no other
figures, the containers are all in order, and the hooks are those of the connectors. -/
structure Picture.ShowsAll (p : Picture α) (d : Diagram) (h : Hierarchy) (cs : List Connector) :
    Prop where
  named : ∀ {id f}, p.figures.get? id = some f → f.id = id
  container : ∀ {id}, h.containers.contains id = true →
    ∃ f, p.figures.get? id = some f ∧ f.kind = .container
  element : ∀ {id e}, d.elements.get? id = some e →
    ∃ f, p.figures.get? id = some f ∧ f.kind = .ofElement e.kind
  connector : ∀ c ∈ cs, ∃ f, p.figures.get? c.id = some f ∧ f.kind = .connector
  only : ∀ {id f}, p.figures.get? id = some f →
    f.kind = .container ∧ h.containers.contains id = true ∨
      (∃ e, d.elements.get? id = some e ∧ f.kind = .ofElement e.kind) ∨
      f.kind = .connector ∧ ∃ c ∈ cs, c.id = id
  size : p.figures.size = h.size + d.elements.size + cs.length
  order : p.containerOrder.Perm h.containers.keys
  hooks : ∀ k, p.hooks.contains k = true ↔ ∃ c ∈ cs, k.OfConnector c

/-- No connector has the id of an area or an element. -/
def Connector.Apart (d : Diagram) (cs : List Connector) : Prop :=
  ∀ c ∈ cs, d.areas.contains c.id = false ∧ d.elements.contains c.id = false

/-- A list whose members all have images keeps its keys. -/
theorem map_filterMap_of_some {β γ κ : Type} {f : β → Option γ} {key : γ → κ} {g : β → κ}
    {l : List β} (h : ∀ x ∈ l, ∃ y, f x = some y ∧ key y = g x) :
    (l.filterMap f).map key = l.map g := by
  induction l with
  | nil => rfl
  | cons x l ih =>
    obtain ⟨⟨y, hy, hk⟩, hl⟩ := List.forall_mem_cons.1 h
    rw [List.filterMap_cons_some hy, List.map_cons, List.map_cons, hk, ih hl]

namespace Picture

variable [Scalar α] {d : Drawing α} {m : AxisMap α}

/-! ## Figures of the three kinds -/

/-- The figure of a container, if it has a box. -/
def containerFigure? (d : Drawing α) (m : AxisMap α) (id : String) : Option (Figure α) := do
  let c ← d.hierarchy.container? id
  let box ← d.boxes.get? id
  return containerFigure m c box

/-- The figure of a connector, if it has a route. -/
def routeFigure? (d : Drawing α) (m : AxisMap α) (c : Connector) : Option (Figure α) :=
  (d.routes.get? c.id).bind (connectorFigure? d m c)

theorem figuresOf_eq : figuresOf d m =
    (shownContainers d).filterMap (containerFigure? d m) ++
      d.placements.entries.map (fun e => elementFigure d m e.1 e.2) ++
      d.connectors.filterMap (routeFigure? d m) := rfl

theorem containerFigure?_of_known (t : d.hierarchy.IsTree) (hc : d.Complete) {id : String}
    (hid : d.hierarchy.containers.contains id = true) :
    ∃ f, containerFigure? d m id = some f ∧ f.id = id ∧ f.kind = .container := by
  obtain ⟨c, hcon⟩ := Table.contains_iff.1 hid
  have hcon : d.hierarchy.container? id = some c := hcon
  obtain ⟨box, hbox⟩ := Table.contains_iff.1 (hc.boxed hid)
  refine ⟨containerFigure m c box, ?_, t.named hcon, rfl⟩
  rw [containerFigure?, hcon, hbox]
  rfl

theorem routeFigure?_of_mem (hc : d.Complete) {c : Connector} (hmem : c ∈ d.connectors) :
    ∃ f, routeFigure? d m c = some f ∧ f.id = c.id ∧ f.kind = .connector := by
  obtain ⟨path, hpath, hne⟩ := hc.routed c hmem
  obtain ⟨p, rest, rfl⟩ := List.exists_cons_of_ne_nil hne
  rw [routeFigure?, hpath]
  exact ⟨_, rfl, rfl, rfl⟩

omit [Scalar α] in
/-- Elements, containers and connectors have figures of different kinds. -/
theorem kind_ofElement_ne (k : ElementKind) :
    FigureKind.ofElement k ≠ .container ∧ FigureKind.ofElement k ≠ .connector := by
  cases k <;> simp [FigureKind.ofElement]

theorem elementFigure_kind {id : String} {e : Diagram.Element} (p : Placement α)
    (he : d.diagram.elements.get? id = some e) :
    (elementFigure d m id p).kind = .ofElement e.kind := by
  show FigureKind.ofElement (d.kindOf id) = _
  rw [Drawing.kindOf, he]

/-! ## Ids of figures -/

omit [Scalar α] in
/-- The shown containers are those of the tree. -/
theorem shownContainers_perm (t : d.hierarchy.IsTree) (hc : d.Complete) :
    (shownContainers d).Perm d.hierarchy.containers.keys := by
  have hrank : (d.hierarchy.processingRank).Perm d.hierarchy.preOrder := List.mergeSort_perm _ _
  refine (List.perm_ext_iff_of_nodup ?_ (Table.nodup_keys _)).2 fun id => ?_
  · exact (hrank.nodup_iff.2 t.nodup_preOrder).filter _
  · rw [shownContainers, List.mem_filter, hrank.mem_iff, t.mem_preOrder, Table.mem_keys_iff]
    exact and_iff_left_of_imp hc.boxed

omit [Scalar α] in
theorem mem_shownContainers (t : d.hierarchy.IsTree) (hc : d.Complete) {id : String} :
    id ∈ shownContainers d ↔ d.hierarchy.containers.contains id = true := by
  rw [(shownContainers_perm t hc).mem_iff, Table.mem_keys_iff]

/-- **The ids of the figures** are those of the containers, of the elements and of the
connectors. -/
theorem figuresOf_ids (t : d.hierarchy.IsTree) (hc : d.Complete) :
    (figuresOf d m).map (·.id) =
      shownContainers d ++ d.placements.keys ++ d.connectors.map (·.id) := by
  rw [figuresOf_eq, List.map_append, List.map_append, map_filterMap_of_some (g := id),
    map_filterMap_of_some (g := (·.id)), List.map_id, List.map_map]
  · rfl
  · intro c hmem
    obtain ⟨f, hf, hid, -⟩ := routeFigure?_of_mem (m := m) hc hmem
    exact ⟨f, hf, hid⟩
  · intro id hid
    obtain ⟨f, hf, hid, -⟩ := containerFigure?_of_known (m := m) t hc
      ((mem_shownContainers t hc).1 hid)
    exact ⟨f, hf, hid⟩

/-- The figures in a picture are those of its drawing, each under its id. -/
theorem mem_figuresOf_of_get? {render : RenderSettings α} {id : String} {f : Figure α}
    (h : (ofDrawing d render).figures.get? id = some f) :
    f.id = id ∧ f ∈ figuresOf d (projection d render).map := by
  obtain ⟨g, hg, he⟩ := List.mem_map.1 (Table.mem_of_get?_ofList h)
  cases he
  exact ⟨rfl, hg⟩

/-- Figures with different ids all stand in the picture. -/
theorem figures_get?_of_mem {render : RenderSettings α} {f : Figure α}
    (hids : ((figuresOf d (projection d render).map).map (·.id)).Nodup)
    (hf : f ∈ figuresOf d (projection d render).map) :
    (ofDrawing d render).figures.get? f.id = some f :=
  Table.get?_ofList_of_mem (by rwa [List.map_map]) (List.mem_map_of_mem hf)

section
variable {render : RenderSettings α} (t : Hierarchy.TreeOf d.diagram d.hierarchy)
  (hc : d.Complete)
include t hc

omit [Scalar α] in
/-- The elements with places are those of the diagram. -/
theorem placements_perm : d.placements.keys.Perm d.diagram.elements.keys := by
  refine (List.perm_ext_iff_of_nodup (Table.nodup_keys _) (Table.nodup_keys _)).2 fun e => ?_
  rw [Table.mem_keys_iff, Table.mem_keys_iff, hc.placed, t.owned]

theorem exists_containerFigure {id : String}
    (hid : d.hierarchy.containers.contains id = true) :
    ∃ f ∈ figuresOf d m, f.id = id ∧ f.kind = .container := by
  obtain ⟨f, hf, he, hk⟩ := containerFigure?_of_known (m := m) t.toIsTree hc hid
  refine ⟨f, ?_, he, hk⟩
  rw [figuresOf_eq, List.append_assoc]
  exact List.mem_append_left _ (List.mem_filterMap.2
    ⟨id, (mem_shownContainers t.toIsTree hc).2 hid, hf⟩)

theorem exists_elementFigure {id : String} {e : Diagram.Element}
    (he : d.diagram.elements.get? id = some e) :
    ∃ f ∈ figuresOf d m, f.id = id ∧ f.kind = .ofElement e.kind := by
  obtain ⟨p, hp⟩ : ∃ p, d.placements.get? id = some p := by
    rw [← Table.contains_iff, hc.placed, t.owned]
    exact Table.contains_of_get? he
  refine ⟨elementFigure d m id p, ?_, rfl, elementFigure_kind p he⟩
  rw [figuresOf_eq]
  exact List.mem_append_left _ (List.mem_append_right _ (List.mem_map.2
    ⟨(id, p), Table.mem_entries_iff.2 hp, rfl⟩))

omit t in
theorem exists_connectorFigure {c : Connector} (hmem : c ∈ d.connectors) :
    ∃ f ∈ figuresOf d m, f.id = c.id ∧ f.kind = .connector := by
  obtain ⟨f, hf, he, hk⟩ := routeFigure?_of_mem (m := m) hc hmem
  refine ⟨f, ?_, he, hk⟩
  rw [figuresOf_eq]
  exact List.mem_append_right _ (List.mem_filterMap.2 ⟨c, hmem, hf⟩)

/-- Every figure shows a container, an element or a connector. -/
theorem figuresOf_cases {f : Figure α} (hf : f ∈ figuresOf d m) :
    f.kind = .container ∧ d.hierarchy.containers.contains f.id = true ∨
      (∃ e, d.diagram.elements.get? f.id = some e ∧ f.kind = .ofElement e.kind) ∨
      f.kind = .connector ∧ ∃ c ∈ d.connectors, c.id = f.id := by
  rw [figuresOf_eq, List.mem_append, List.mem_append] at hf
  rcases hf with (hf | hf) | hf
  · obtain ⟨id, hid, hf⟩ := List.mem_filterMap.1 hf
    have hknown := (mem_shownContainers t.toIsTree hc).1 hid
    obtain ⟨f', hf', rfl, hk⟩ := containerFigure?_of_known (m := m) t.toIsTree hc hknown
    cases hf.symm.trans hf'
    exact .inl ⟨hk, hknown⟩
  · obtain ⟨⟨id, p⟩, hp, rfl⟩ := List.mem_map.1 hf
    have helement := (hc.placed id).symm.trans
      (Table.contains_of_get? (Table.mem_entries_iff.1 hp))
    rw [t.owned] at helement
    obtain ⟨e, he⟩ := Table.contains_iff.1 helement
    exact .inr (.inl ⟨e, he, elementFigure_kind p he⟩)
  · obtain ⟨c, hmem, hf⟩ := List.mem_filterMap.1 hf
    obtain ⟨f', hf', hid, hk⟩ := routeFigure?_of_mem (m := m) hc hmem
    cases hf.symm.trans hf'
    exact .inr (.inr ⟨hk, c, hmem, hid.symm⟩)

variable (hdistinct : Connector.Distinct d.diagram d.connectors)
  (hidsApart : ∀ id, d.diagram.areas.contains id = true →
    d.diagram.elements.contains id = false)
include hdistinct hidsApart

theorem nodup_figuresOf_ids (hapart : Connector.Apart d.diagram d.connectors) :
    ((figuresOf d m).map (·.id)).Nodup := by
  have hareas : ∀ {id}, id ∈ shownContainers d → d.diagram.areas.contains id = true := fun h =>
    (t.known _).symm.trans ((mem_shownContainers t.toIsTree hc).1 h)
  have helements : ∀ {id}, id ∈ d.placements.keys → d.diagram.elements.contains id = true :=
    fun h => Table.mem_keys_iff.1 ((placements_perm t hc).mem_iff.1 h)
  rw [figuresOf_ids t.toIsTree hc]
  refine List.nodup_append.2 ⟨List.nodup_append.2
    ⟨(shownContainers_perm t.toIsTree hc).nodup_iff.2 (Table.nodup_keys _), Table.nodup_keys _, ?_⟩,
    hdistinct.ids, ?_⟩
  · rintro id hid e he rfl
    have := hidsApart id (hareas hid)
    rw [helements he] at this
    cases this
  · rintro id hid e he rfl
    obtain ⟨c, hmem, rfl⟩ := List.mem_map.1 he
    obtain ⟨ha, hel⟩ := hapart c hmem
    rcases List.mem_append.1 hid with hid | hid
    · rw [hareas hid] at ha
      cases ha
    · rw [helements hid] at hel
      cases hel

/-- **Nothing is lost** when no connector has the id of an area or an element. -/
theorem ofDrawing_showsAll (hapart : Connector.Apart d.diagram d.connectors) :
    (ofDrawing d render).ShowsAll d.diagram d.hierarchy d.connectors := by
  have hids := nodup_figuresOf_ids (m := (projection d render).map) t hc hdistinct
    hidsApart hapart
  refine
    { named := fun hf => (mem_figuresOf_of_get? hf).1
      container := fun {id} hid => ?container
      element := fun {id e} he => ?element
      connector := fun c hmem => ?connector
      only := fun {id f} hf => ?only
      size := ?size
      order := shownContainers_perm t.toIsTree hc
      hooks := fun k => ?hooks }
  case container =>
    obtain ⟨f, hf, rfl, hk⟩ := exists_containerFigure (m := (projection d render).map) t hc hid
    exact ⟨f, figures_get?_of_mem hids hf, hk⟩
  case element =>
    obtain ⟨f, hf, rfl, hk⟩ := exists_elementFigure (m := (projection d render).map) t hc he
    exact ⟨f, figures_get?_of_mem hids hf, hk⟩
  case connector =>
    obtain ⟨f, hf, hid, hk⟩ :=
      exists_connectorFigure (m := (projection d render).map) hc hmem
    exact ⟨f, hid ▸ figures_get?_of_mem hids hf, hk⟩
  case only =>
    obtain ⟨rfl, hg⟩ := mem_figuresOf_of_get? hf
    exact figuresOf_cases t hc hg
  case size =>
    show (Table.ofList ((figuresOf d _).map fun f => (f.id, f))).size = _
    rw [Table.size_ofList (by rwa [List.map_map]), List.length_map,
      ← List.length_map (f := (·.id)), figuresOf_ids t.toIsTree hc]
    simp only [List.length_append, List.length_map, (placements_perm t hc).length_eq,
      (shownContainers_perm t.toIsTree hc).length_eq, Table.length_keys]
    rfl
  case hooks =>
    have hkeys : (ofDrawing d render).hooks.contains k = d.hooks.contains k :=
      Table.contains_map _ _ k
    rw [hkeys]
    exact hc.hooked k

omit [Scalar α] t hc hdistinct hidsApart in
/-- In a picture that shows everything a figure has one kind only. -/
theorem ShowsAll.apart {p : Picture α} {diagram : Diagram} {h : Hierarchy} {cs : List Connector}
    (hp : p.ShowsAll diagram h cs) (t : Hierarchy.TreeOf diagram h) :
    Connector.Apart diagram cs := by
  intro c hmem
  obtain ⟨f, hf, hk⟩ := hp.connector c hmem
  refine ⟨?_, ?_⟩
  · rw [Bool.eq_false_iff]
    intro harea
    obtain ⟨g, hg, hk'⟩ := hp.container ((t.known _).trans harea)
    cases hf.symm.trans hg
    cases hk.symm.trans hk'
  · rw [Bool.eq_false_iff]
    intro helement
    obtain ⟨e, he⟩ := Table.contains_iff.1 helement
    obtain ⟨g, hg, hk'⟩ := hp.element he
    cases hf.symm.trans hg
    exact (kind_ofElement_ne e.kind).2 (hk'.symm.trans hk)

/-- **A complete drawing is shown completely** exactly when no connector has the id of an area or
an element. -/
theorem ofDrawing_showsAll_iff :
    (ofDrawing d render).ShowsAll d.diagram d.hierarchy d.connectors ↔
      Connector.Apart d.diagram d.connectors :=
  ⟨fun h => h.apart t, ofDrawing_showsAll t hc hdistinct hidsApart⟩

end

end Picture

end NestedLayout
