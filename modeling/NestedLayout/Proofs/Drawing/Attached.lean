import NestedLayout.Proofs.Drawing.Failures
import NestedLayout.Proofs.Drawing.Furnished
import NestedLayout.Proofs.Picture.Shown
import NestedLayout.Proofs.Routing.Ends

/-!
# Drawings whose routes are attached

A route is drawn from hook to hook. It stays attached as long as its hooks stay where they are:
after routing, and after a compaction that gets through its containers, since that draws all routes
anew. A compaction that gives up has moved hooks and not the routes.

* `route_attached`, `furnished_attached`: routes that have just been drawn.
* `compact_attached`: compaction keeps routes attached, unless it moved siblings and gave up on
  them.
* `Picture.ofDrawing_attached`: the picture of a drawing shows its routes and hooks alike.
-/

set_option autoImplicit false

namespace NestedLayout

variable {α : Type} [Scalar α]

namespace Drawing

variable {d : Drawing α}

/-- Every route is attached to the hooks of its connector. -/
def Attached (d : Drawing α) : Prop :=
  ∀ c ∈ d.connectors, ∀ path, d.routes.get? c.id = some path →
    Route.Attached c d.hooks d.placements path

/-! ## Routes that have just been drawn -/

/-- **Routing attaches the routes** when every endpoint has a hook. -/
theorem route_attached (hd : Connector.Distinct d.route.diagram d.route.connectors)
    (hh : AllHooked d.route) : d.route.Attached := by
  intro c hc path hpath
  have hids : (d.connectors.map (·.id)).Nodup := hd.ids
  cases (route_get? hids hc).symm.trans hpath
  exact Route.path_attached _ _ (hd.joining c hc) fun k hk => (hh k).2 ⟨c, hc, hk⟩

/-- Sizing draws no routes. -/
theorem size_routes {sizer : Sizer α} {step : Step (Drawing α)} (h : d.size sizer = some step) :
    step.state.routes = d.routes := by
  obtain ⟨p, -, hstep⟩ := Option.bind_eq_some_iff.1 h
  cases hstep
  have hadopt : (d.adopt p).routes = d.routes := by
    obtain ⟨boxes, hb⟩ := foldl_setBox_fields p.plan.boxes.entries d
    rw [adopt, hb]
  rw [← hadopt]
  unfold settleBoxes
  dsimp only
  split
  · rfl
  · split <;> rfl

/-! ## Compaction -/

/-- Nothing has changed that routes hang on. -/
structure Unmoved (d d' : Drawing α) : Prop where
  settings : d'.settings = d.settings
  connectors : d'.connectors = d.connectors
  placements : d'.placements = d.placements
  hooks : d'.hooks = d.hooks
  routes : d'.routes = d.routes

omit [Scalar α] in
theorem Unmoved.refl (d : Drawing α) : Unmoved d d := ⟨rfl, rfl, rfl, rfl, rfl⟩

theorem Attached.of_unmoved {d' : Drawing α} (h : d.Attached) (hs : Unmoved d d') :
    d'.Attached := by
  intro c hc path hpath
  rw [hs.connectors] at hc
  rw [hs.routes] at hpath
  rw [hs.hooks, hs.placements]
  exact h c hc path hpath

omit [Scalar α] in
theorem Unmoved.trans {d₁ d₂ d₃ : Drawing α} (h : Unmoved d₁ d₂) (h' : Unmoved d₂ d₃) :
    Unmoved d₁ d₃ :=
  ⟨h'.settings.trans h.settings, h'.connectors.trans h.connectors,
    h'.placements.trans h.placements, h'.hooks.trans h.hooks, h'.routes.trans h.routes⟩

omit [Scalar α] in
theorem setBox_unmoved (d : Drawing α) (id : String) (box : Rect α) :
    Unmoved d (d.setBox id box) := by
  unfold setBox
  split <;> exact ⟨rfl, rfl, rfl, rfl, rfl⟩

/-! Without any rounds compaction moves nothing. -/

section
variable {s s' : Shifting α} {id : String}
  (hnone : s.drawing.settings.sizing.containmentRetries = 0)
include hnone

theorem compactOne_unmoved (hok : compactOne s id = .ok s') : Unmoved s.drawing s'.drawing := by
  rcases compactOne_ok hok with ⟨-, rfl⟩ | ⟨c, apart, -, hsep, rfl⟩
  · exact .refl _
  · rw [hnone] at hsep
    unfold separateChildren at hsep
    dsimp only at hsep
    split at hsep
    · cases hsep
    · cases hsep
      exact setBox_unmoved _ _ _

theorem compactOne_error_unmoved {f : FailedShifting α} (he : compactOne s id = .error f) :
    f.drawing = s.drawing := by
  obtain ⟨c, -, hsep⟩ := compactOne_error he
  rw [hnone] at hsep
  unfold separateChildren at hsep
  dsimp only at hsep
  split at hsep
  · cases hsep
    rfl
  · cases hsep

end

/-- Without any rounds compaction gives up with everything in its place. -/
theorem foldlM_compactOne_unmoved (hnone : d.settings.sizing.containmentRetries = 0)
    {f : FailedShifting α} (hfold : d.hierarchy.postOrder.foldlM compactOne ⟨d, 0⟩ = .error f) :
    Unmoved d f.drawing := by
  obtain ⟨done, id, rest, s, -, hs, hone⟩ :=
    Fold.failsM (fun _ (s : Shifting α) => Unmoved d s.drawing) (.refl d)
      (fun _ _ _ _ _ _ hs hok => hs.trans (compactOne_unmoved (hs.settings ▸ hnone) hok)) hfold
  rw [compactOne_error_unmoved (hs.settings ▸ hnone) hone]
  exact hs

section
variable (hd : Connector.Distinct d.diagram d.connectors) (hh : AllHooked d)
include hd hh

/-- A compaction that gets through its containers ends with all routes drawn anew. -/
theorem compact_eq_route_of_ok {s : Shifting α}
    (hfold : d.hierarchy.postOrder.foldlM compactOne ⟨d, 0⟩ = .ok s) :
    ∃ hooked : Drawing α, d.compact.state = hooked.route ∧ SameCast d hooked.route := by
  have hs := foldlM_compactOne_ok hfold
  have hhub : ∀ c ∈ s.drawing.connectors, c.hub ∈ c.endpoints := fun c hc =>
    (hd.joining c (hs.connectors ▸ hc)).hub
  obtain ⟨hooked, hcast, hstate⟩ := compact_eq_route hhub (hh.congr hs) hfold
  exact ⟨hooked, hstate, (hs.trans hcast).trans (route_cast hooked)⟩

variable (t : d.hierarchy.IsTree)
include t

/-- Compaction keeps the cast, whatever it comes to. -/
theorem compact_cast : SameCast d d.compact.state := by
  cases hfold : d.hierarchy.postOrder.foldlM compactOne ⟨d, 0⟩ with
  | ok s =>
    obtain ⟨hooked, hstate, hcast⟩ := compact_eq_route_of_ok hd hh hfold
    rw [hstate]
    exact hcast
  | error f =>
    rw [compact_eq_failed hfold]
    exact (foldlM_compactOne_error t hfold).1

/-- **Compaction keeps routes attached**, unless it moved siblings and gave up on them. -/
theorem compact_attached (ha : d.Attached) :
    d.compact.state.Attached ∨ d.settings.sizing.containmentRetries ≠ 0 ∧
      ∃ a b, d.compact.failure = some (.containment (.unseparated a b)) := by
  cases hfold : d.hierarchy.postOrder.foldlM compactOne ⟨d, 0⟩ with
  | ok s =>
    obtain ⟨hooked, hstate, hcast⟩ := compact_eq_route_of_ok hd hh hfold
    rw [hstate]
    refine .inl (route_attached ?_ (hh.congr hcast))
    rw [hcast.diagram, hcast.connectors]
    exact hd
  | error f =>
    rw [compact_eq_failed hfold]
    by_cases hnone : d.settings.sizing.containmentRetries = 0
    · exact .inl (ha.of_unmoved (foldlM_compactOne_unmoved hnone hfold))
    · obtain ⟨-, -, a, b, hv⟩ := foldlM_compactOne_error t hfold
      exact .inr ⟨hnone, a, b, by rw [hv]⟩

end

/-- **A sized drawing ends with its routes attached** after all that is left to do, unless
compaction moved siblings and gave up on them. -/
theorem furnished_compact_attached (t : d.hierarchy.IsTree)
    (hm : ∀ {c e}, d.hierarchy.owners.get? e = some c → ∃ x, d.extents.get? e = some x)
    (hd : Connector.Distinct d.diagram d.connectors) :
    d.furnished.compact.state.connectors = d.connectors ∧
      (d.furnished.compact.state.Attached ∨ d.settings.sizing.containmentRetries ≠ 0 ∧
        ∃ a b, d.furnished.compact.failure = some (.containment (.unseparated a b))) := by
  have hground := furnished_ground d
  obtain ⟨hdiagram, hconnectors, -, hhooked⟩ :=
    furnished_cast t hm fun c hc => (hd.joining c hc).hub
  have hdistinct : Connector.Distinct d.furnished.diagram d.furnished.connectors := by
    rw [hdiagram, hconnectors]
    exact hd
  have hattached : d.furnished.Attached := by
    rw [furnished] at hdistinct hhooked ⊢
    exact route_attached hdistinct hhooked
  have htree : d.furnished.hierarchy.IsTree := hground.hierarchy.symm ▸ t
  have hcast := compact_cast hdistinct hhooked htree
  rw [← hground.settings]
  exact ⟨hcast.connectors.trans hconnectors, compact_attached hdistinct hhooked htree hattached⟩

end Drawing

/-! ## Pictures -/

/-- The hook of a connector in a mapped table is the mapped hook. -/
theorem HookTable.hook?_map (m : AxisMap α) (hooks : HookTable α) (c : Connector) (id : String) :
    HookTable.hook? (hooks.map fun _ hook => { hook with point := m.apply hook.point }) c id =
      (HookTable.hook? hooks c id).map fun hook => { hook with point := m.apply hook.point } :=
  Table.get?_map ..

/-- A map under which near points stay near keeps a path attached. -/
theorem Route.Attached.map {m : AxisMap α}
    (hm : ∀ p q : Point α, p.near q = true → (m.apply p).near (m.apply q) = true)
    {c : Connector} {hooks : HookTable α} {placements : Placements α} {path : List (Point α)}
    (h : Attached c hooks placements path) :
    Attached c (hooks.map fun _ hook => { hook with point := m.apply hook.point }) placements
      (path.map m.apply) := by
  have hmeets : ∀ {p q : Point α}, p.Meets q → (m.apply p).Meets (m.apply q) := by
    rintro p q (rfl | hnear)
    · exact .refl _
    · exact .inr (hm p q hnear)
  obtain ⟨⟨hub, p, hhub, hp, hstart⟩, id, hook, q, hid, hhook, hq, hend⟩ := h
  refine ⟨⟨{ hub with point := m.apply hub.point }, m.apply p, ?_, ?_, hmeets hstart⟩,
    id, { hook with point := m.apply hook.point }, m.apply q, hid, ?_, ?_, hmeets hend⟩
  · rw [HookTable.hook?_map, hhub, Option.map_some]
  · rw [List.head?_map, hp, Option.map_some]
  · rw [HookTable.hook?_map, hhook, Option.map_some]
  · rw [List.getLast?_map, hq, Option.map_some]

namespace Picture

/-- The figures of connectors are attached to the hooks of the picture. -/
def Attached (p : Picture α) (cs : List Connector) (placements : Placements α) : Prop :=
  ∀ id f, p.figures.get? id = some f → f.kind = .connector →
    ∃ c ∈ cs, c.id = id ∧ Route.Attached c p.hooks placements f.path

/-- A figure of a connector is that of a route. -/
theorem exists_route_of_connector {d : Drawing α} {m : AxisMap α} {f : Figure α}
    (hf : f ∈ figuresOf d m) (hk : f.kind = .connector) :
    ∃ c ∈ d.connectors, c.id = f.id ∧ ∃ path, d.routes.get? c.id = some path ∧
      f.path = path.map m.apply := by
  rcases mem_figuresOf hf with ⟨id, c, box, -, -, rfl⟩ | ⟨id, p, -, rfl⟩ |
    ⟨c, hc, path, hpath, hcon⟩
  · cases hk
  · exact absurd hk (kind_ofElement_ne _).2
  · obtain ⟨hid, -, -, hmap⟩ := connectorFigure?_spec hcon
    exact ⟨c, hc, hid.symm, path, hpath, hmap⟩

/-- **The picture of a drawing with attached routes is attached** when its map keeps near points
near. -/
theorem ofDrawing_attached {d : Drawing α} {render : RenderSettings α} (ha : d.Attached)
    (hm : ∀ p q : Point α, p.near q = true →
      ((projection d render).map.apply p).near ((projection d render).map.apply q) = true) :
    (ofDrawing d render).Attached d.connectors d.placements := by
  intro id f hf hk
  obtain ⟨g, hg, he⟩ := List.mem_map.1 (Table.mem_of_get?_ofList hf)
  cases he
  obtain ⟨c, hc, hid, path, hpath, hmap⟩ := exists_route_of_connector hg hk
  refine ⟨c, hc, hid, ?_⟩
  rw [hmap]
  exact (ha c hc path hpath).map hm

/-- The figure of the last connector hides all others with its id. -/
theorem figures_get?_last {d : Drawing α} {render : RenderSettings α} {c : Connector}
    (hc : d.connectors.getLast? = some c) {f : Figure α}
    (hf : routeFigure? d (projection d render).map c = some f) (hid : f.id = c.id) :
    (ofDrawing d render).figures.get? c.id = some f := by
  obtain ⟨before, hcs⟩ := List.getLast?_eq_some_iff.1 hc
  show (Table.ofList ((figuresOf d (projection d render).map).map fun f => (f.id, f))).get? c.id = _
  rw [figuresOf_eq, hcs, List.filterMap_append, List.filterMap_cons_some hf, List.filterMap_nil,
    ← List.append_assoc, List.map_append, List.map_singleton, Table.ofList, List.foldl_append, hid]
  exact Table.get?_insert_self ..

end Picture

end NestedLayout
