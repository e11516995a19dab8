import NestedLayout.Proofs.Drawing.Furnished
import NestedLayout.Proofs.Drawing.Moves
import NestedLayout.Proofs.Routing.Route

/-!
# Who is in a drawing

Which containers have boxes, which elements have places and which endpoints have hooks does not
depend on any coordinate. `SameCast` says that two drawings agree on it.

* `place_placed`: placing gives every element a place, and nothing else.
* `separate_cast`, `compactOne_cast`: the phases after it add nobody and lose nobody.
* `furnished_cast`: so before compaction all elements have places and all endpoints hooks.
* `compact_complete`: a compaction that succeeds leaves a `Complete` drawing: every container has a
  box, every element a place, every endpoint a hook and every connector a path.
-/

set_option autoImplicit false

namespace NestedLayout.Drawing

variable {α : Type}

/-- Two drawings of one diagram in which the same elements have places and the same endpoints have
hooks; the second one has at least the boxes of the first. -/
structure SameCast (d d' : Drawing α) : Prop where
  diagram : d'.diagram = d.diagram
  hierarchy : d'.hierarchy = d.hierarchy
  connectors : d'.connectors = d.connectors
  placed : ∀ e, d'.placements.contains e = d.placements.contains e
  hooked : ∀ k, d'.hooks.contains k = d.hooks.contains k
  boxed : ∀ {id}, d.boxes.contains id = true → d'.boxes.contains id = true

theorem SameCast.refl (d : Drawing α) : SameCast d d :=
  ⟨rfl, rfl, rfl, fun _ => rfl, fun _ => rfl, id⟩

theorem SameCast.trans {d₁ d₂ d₃ : Drawing α} (h : SameCast d₁ d₂) (h' : SameCast d₂ d₃) :
    SameCast d₁ d₃ :=
  ⟨h'.diagram.trans h.diagram, h'.hierarchy.trans h.hierarchy, h'.connectors.trans h.connectors,
    fun e => (h'.placed e).trans (h.placed e), fun k => (h'.hooked k).trans (h.hooked k),
    fun hb => h'.boxed (h.boxed hb)⟩

/-- Every endpoint of every connector has a hook, and nothing else has one. -/
def AllHooked (d : Drawing α) : Prop :=
  ∀ k : HookKey, d.hooks.contains k = true ↔ ∃ c ∈ d.connectors, k.OfConnector c

theorem AllHooked.congr {d d' : Drawing α} (h : AllHooked d) (hs : SameCast d d') :
    AllHooked d' := by
  intro k
  rw [hs.hooked, hs.connectors]
  exact h k

variable [Scalar α]

/-! ## Placing -/

theorem placeOne_connectors (d : Drawing α) (container element : String) (extent : Extent α) :
    (d.placeOne container element extent).1.connectors = d.connectors := by
  have hflag : (d.flagForResize container extent).connectors = d.connectors := by
    unfold flagForResize
    split <;> rfl
  unfold placeOne
  dsimp only
  split
  · exact hflag
  · rfl

theorem place_connectors (d : Drawing α) : d.place.state.connectors = d.connectors :=
  place_keeps (I := fun _ d' => d'.connectors = d.connectors) rfl (fun _ _ h => h)
    fun {_ _ _ d' _} _ _ _ h => (placeOne_connectors d' _ _ _).trans h

/-- **Placing gives a place to the elements of the tree** and to nothing else. -/
theorem place_placed {d : Drawing α} (t : d.hierarchy.IsTree)
    (hm : ∀ {c e}, d.hierarchy.owners.get? e = some c → ∃ x, d.extents.get? e = some x)
    (e : String) : d.place.state.placements.contains e = d.hierarchy.owners.contains e := by
  have hall : ∀ e, d.place.state.placements.contains e = true ↔
      e ∈ (members d.hierarchy).map (·.2) := by
    refine place_keeps
      (I := fun done (d' : Drawing α) => ∀ e, d'.placements.contains e = true ↔ e ∈ done.map (·.2))
      (by simp [Table.contains]) (fun {done m rest d'} hs hx _ => ?_)
      fun {done m rest d' x} _ _ _ hd e => ?_
    · obtain ⟨x, hx'⟩ := hm ((mem_members t).1 (hs ▸ List.mem_append_right _ (.head _)))
      rw [hx] at hx'
      cases hx'
    · obtain ⟨p, hp, -⟩ := placeOne_placements d' m.1 m.2 x
      rw [hp, Table.contains_insert_iff, hd]
      simp [or_comm]
  rw [Bool.eq_iff_iff, hall, Table.contains_iff, List.mem_map]
  refine ⟨?_, ?_⟩
  · rintro ⟨m, hmem, rfl⟩
    exact ⟨m.1, (mem_members t).1 hmem⟩
  · rintro ⟨c, ho⟩
    exact ⟨(c, e), (mem_members t).2 ho, rfl⟩

/-! ## Separating -/

theorem followPush_cast (container : String) (room : Rect α) (zones : List (Rect α))
    (d : Drawing α) (item : Separation.Item α) :
    SameCast d (followPush container room zones d item) := by
  unfold followPush
  split
  · exact .refl d
  · rename_i p hp
    split
    · exact .refl d
    · dsimp only
      split
      · exact .refl d
      · exact ⟨rfl, rfl, rfl, Table.contains_insert_of_contains _ (Table.contains_of_get? hp),
          fun _ => rfl, id⟩

theorem separateIn_cast (u : Untangling α) (container : String) :
    SameCast u.drawing (separateIn u container).drawing := by
  unfold separateIn
  dsimp only
  split
  · exact .refl _
  · split
    · exact .refl _
    · rename_i a _
      have hfold := Fold.keeps (f := followPush container a.available
          (SpaceLedger.childZones u.drawing.hierarchy u.drawing.boxes container))
        (l := (Separation.pass (u.drawing.separationItems container)).1) (b := u.drawing)
        (fun _ d => SameCast u.drawing d) (.refl _)
        fun _ item _ d _ hd => hd.trans (followPush_cast _ _ _ d item)
      exact hfold.trans ⟨rfl, rfl, rfl, fun _ => rfl, fun _ => rfl, id⟩

theorem separate_cast (d : Drawing α) : SameCast d d.separate.state := by
  have hfold := Fold.keeps (f := separateIn) (l := d.hierarchy.preOrder) (b := ⟨d, []⟩)
    (fun _ u => SameCast d u.drawing) (.refl _)
    fun _ container _ u _ hu => hu.trans (separateIn_cast u container)
  exact hfold.trans ⟨rfl, rfl, rfl, fun _ => rfl, fun _ => rfl, id⟩

/-! ## Routing -/

theorem attachHooks_allHooked {d : Drawing α} (hhub : ∀ c ∈ d.connectors, c.hub ∈ c.endpoints) :
    AllHooked d.attachHooks := fun _ => HookTable.contains_assign_iff hhub

theorem attachHooks_cast {d : Drawing α} (hhub : ∀ c ∈ d.connectors, c.hub ∈ c.endpoints)
    (hh : AllHooked d) : SameCast d d.attachHooks := by
  refine ⟨rfl, rfl, rfl, fun _ => rfl, fun k => ?_, id⟩
  rw [Bool.eq_iff_iff, attachHooks_allHooked hhub k, hh k]
  rfl

theorem route_cast (d : Drawing α) : SameCast d d.route :=
  ⟨rfl, rfl, rfl, fun _ => rfl, fun _ => rfl, id⟩

/-- The route of a connector is found under its id. -/
theorem route_get? {d : Drawing α} (hn : (d.connectors.map (·.id)).Nodup) {c : Connector}
    (hc : c ∈ d.connectors) : d.route.routes.get? c.id = some (d.routeOne c).path := by
  refine Table.get?_ofList_of_mem ?_ ?_
  · simpa [Function.comp_def, routeOne] using hn
  · exact List.mem_map.2 ⟨d.routeOne c, List.mem_map_of_mem hc, rfl⟩

/-- **Every connector has a path** when every endpoint has a hook. -/
theorem route_routed {d : Drawing α} (hd : Connector.Distinct d.diagram d.connectors)
    (hh : AllHooked d) {c : Connector} (hc : c ∈ d.connectors) :
    ∃ path, d.route.routes.get? c.id = some path ∧ path ≠ [] :=
  ⟨_, route_get? hd.ids hc,
    Route.path_ne_nil _ _ (hd.joining c hc) fun k hk => (hh k).2 ⟨c, hc, hk⟩⟩

theorem furnished_connectors (d : Drawing α) : d.furnished.connectors = d.connectors := by
  have hrouted : ∀ s : Drawing α, s.attachHooks.route.connectors = s.connectors := fun _ => rfl
  rw [furnished, hrouted, (separate_cast d.place.state).connectors, place_connectors]

/-- **A furnished drawing** has places for the elements of its tree and hooks for its connectors. -/
theorem furnished_cast {d : Drawing α} (t : d.hierarchy.IsTree)
    (hm : ∀ {c e}, d.hierarchy.owners.get? e = some c → ∃ x, d.extents.get? e = some x)
    (hhub : ∀ c ∈ d.connectors, c.hub ∈ c.endpoints) :
    d.furnished.diagram = d.diagram ∧ d.furnished.connectors = d.connectors ∧
      (∀ e, d.furnished.placements.contains e = d.hierarchy.owners.contains e) ∧
      AllHooked d.furnished := by
  have hs := separate_cast d.place.state
  have hcs : d.place.state.separate.state.connectors = d.connectors :=
    hs.connectors.trans (place_connectors d)
  have hrouted : ∀ s : Drawing α, s.attachHooks.route.placements = s.placements := fun _ => rfl
  refine ⟨(furnished_ground d).diagram, furnished_connectors d, fun e => ?_, ?_⟩
  · rw [furnished, hrouted, hs.placed, place_placed t hm]
  · have hhooked : AllHooked d.place.state.separate.state.attachHooks :=
      attachHooks_allHooked (by rw [hcs]; exact hhub)
    exact hhooked.congr (route_cast _)

/-! ## Compacting -/

theorem translateSubtree_cast (d : Drawing α) (root : String) (dx dy : α) :
    SameCast d (d.translateSubtree root dx dy) := by
  refine ⟨rfl, rfl, rfl, fun e => Table.contains_map _ _ _, fun k => ?_, fun {id} hb => ?_⟩
  · exact Fold.keeps (fun _ (hooks : HookTable α) => hooks.contains k = d.hooks.contains k) rfl
      fun _ _ _ _ _ hd => (Table.contains_map _ _ _).trans hd
  · exact (Table.contains_map _ _ _).trans hb

omit [Scalar α] in
theorem setBox_cast (d : Drawing α) (id : String) (box : Rect α) :
    SameCast d (d.setBox id box) := by
  unfold setBox
  split
  · exact ⟨rfl, rfl, rfl, fun _ => rfl, fun _ => rfl,
      fun hb => Table.contains_insert_iff.2 (.inr hb)⟩
  · exact .refl d

theorem compactOne_cast {s s' : Shifting α} {id : String} (hok : compactOne s id = .ok s') :
    SameCast s.drawing s'.drawing :=
  compactOne_keeps (I := SameCast s.drawing)
    (fun _ dx dy h => h.trans (translateSubtree_cast _ _ dx dy))
    (fun _ _ h => h.trans (setBox_cast _ _ _)) hok (.refl _)

/-- The container at hand gets a box. -/
theorem compactOne_boxed {s s' : Shifting α} {id : String}
    (hid : s.drawing.hierarchy.containers.contains id = true) (hok : compactOne s id = .ok s') :
    s'.drawing.boxes.contains id = true := by
  have hknown := (compactOne_cast hok).hierarchy ▸ hid
  rcases compactOne_ok hok with ⟨hnone, -⟩ | ⟨c, apart, -, -, rfl⟩
  · rw [Hierarchy.container?, Table.get?_eq_none_iff, hid] at hnone
    cases hnone
  · have hknown' : apart.drawing.hierarchy.containers.contains id = true := by
      rwa [← (setBox_cast apart.drawing id (apart.drawing.tightBox c)).hierarchy]
    show (apart.drawing.setBox id _).boxes.contains id = true
    rw [setBox, if_pos hknown']
    exact Table.contains_insert_iff.2 (.inl rfl)

/-- A compaction that gets through its containers draws the routes anew, from hooks for the same
endpoints. -/
theorem compact_eq_route {d : Drawing α} {s : Shifting α}
    (hhub : ∀ c ∈ s.drawing.connectors, c.hub ∈ c.endpoints) (hh : AllHooked s.drawing)
    (hfold : d.hierarchy.postOrder.foldlM compactOne ⟨d, 0⟩ = .ok s) :
    ∃ hooked, SameCast s.drawing hooked ∧ d.compact.state = hooked.route := by
  have hsettled : SameCast s.drawing
      { s.drawing.restartLedger with metrics.compactionShifts := s.shifts } :=
    ⟨rfl, rfl, rfl, fun _ => rfl, fun _ => rfl, id⟩
  simp only [compact, hfold]
  refine ⟨_, ?_, rfl⟩
  split
  · exact hsettled.trans (attachHooks_cast hhub (hh.congr hsettled))
  · exact hsettled

/-- Everything of its diagram is in the drawing. -/
structure Complete (d : Drawing α) : Prop where
  boxed : ∀ {id}, d.hierarchy.containers.contains id = true → d.boxes.contains id = true
  placed : ∀ e, d.placements.contains e = d.hierarchy.owners.contains e
  hooked : AllHooked d
  routed : ∀ c ∈ d.connectors, ∃ path, d.routes.get? c.id = some path ∧ path ≠ []

/-- **A compaction that succeeds leaves a complete drawing** of the same diagram. -/
theorem compact_complete {d : Drawing α} (t : d.hierarchy.IsTree)
    (hd : Connector.Distinct d.diagram d.connectors)
    (hplaced : ∀ e, d.placements.contains e = d.hierarchy.owners.contains e) (hh : AllHooked d)
    (hf : d.compact.failure = none) :
    d.compact.state.diagram = d.diagram ∧ d.compact.state.hierarchy = d.hierarchy ∧
      d.compact.state.connectors = d.connectors ∧ Complete d.compact.state := by
  cases hfold : d.hierarchy.postOrder.foldlM compactOne ⟨d, 0⟩ with
  | error e => simp [compact, hfold] at hf
  | ok s =>
    obtain ⟨hs, hboxed⟩ := Fold.keepsM
      (fun done (s : Shifting α) => SameCast d s.drawing ∧
        ∀ id ∈ done, s.drawing.boxes.contains id = true)
      ⟨.refl d, by simp⟩ (fun done id rest s s' hsplit hd hok => by
        obtain ⟨hs, hb⟩ := hd
        have hid : s.drawing.hierarchy.containers.contains id = true := by
          rw [hs.hierarchy]
          exact t.mem_postOrder.1 (hsplit ▸ List.mem_append_right _ (.head _))
        have hs' := compactOne_cast hok
        have hnew := compactOne_boxed hid hok
        refine ⟨hs.trans hs', fun x hx => ?_⟩
        rcases List.mem_append.1 hx with hx | hx
        · exact hs'.boxed (hb x hx)
        · exact List.mem_singleton.1 hx ▸ hnew) hfold
    have hjoining : ∀ c ∈ s.drawing.connectors, c.hub ∈ c.endpoints := fun c hc =>
      (hd.joining c (hs.connectors ▸ hc)).hub
    obtain ⟨hooked, hc, he⟩ := compact_eq_route hjoining (hh.congr hs) hfold
    have hall := hs.trans hc
    have hfinal := hall.trans (route_cast hooked)
    rw [he]
    refine ⟨hfinal.diagram, hfinal.hierarchy, hfinal.connectors, fun {id} hid => ?_, fun e => ?_,
      hh.congr hfinal, fun c hc => ?_⟩
    · rw [hfinal.hierarchy] at hid
      exact (hc.trans (route_cast hooked)).boxed (hboxed id (t.mem_postOrder.2 hid))
    · rw [hfinal.placed, hfinal.hierarchy, hplaced]
    · have hd' : Connector.Distinct hooked.diagram hooked.connectors := by
        rw [hall.diagram, hall.connectors]
        exact hd
      exact route_routed hd' (hh.congr hall) hc

end NestedLayout.Drawing
