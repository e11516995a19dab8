import NestedLayout.Proofs.Drawing.Cast
import NestedLayout.Proofs.Drawing.Failures
import NestedLayout.Proofs.Space.Records

/-!
# Ledgers that mirror their drawings

Where an element stands is written twice: in the placements, and as an occupied region of its
container in the ledger. A drawing is `Mirrored` when both say the same.

* `Mirrored.put`: an element that gets a new placement and is registered with its footprint keeps a
  drawing mirrored. Placing (`place_mirrored`) and separating (`separate_mirrored`) only do that.
* `restartLedger_mirrored`: compaction writes the ledger anew from the placements.
* `Reckoned`: after compaction the ledger also has the final boxes and the corridors of the final
  routes (`compact_reckoned`).
-/

set_option autoImplicit false

namespace NestedLayout.Drawing

variable {α : Type}

/-- What stands in a container: its elements that have a place, with their footprints. -/
def Holds (d : Drawing α) (c e : String) (r : Rect α) : Prop :=
  d.hierarchy.owners.get? e = some c ∧ ∃ p, d.placements.get? e = some p ∧ p.footprint = r

/-- Every container has an allotment, and the regions that are occupied there are the footprints of
what stands in it, each once. -/
structure Mirrored (d : Drawing α) : Prop where
  allotted : ∀ {c}, d.hierarchy.containers.contains c = true →
    d.ledger.allotments.contains c = true
  records : d.ledger.Records d.Holds

section
variable {d d' : Drawing α}

theorem Mirrored.congr (h : d.Mirrored) (hh : d'.hierarchy = d.hierarchy)
    (hp : d'.placements = d.placements)
    (hl : ∀ c, (d'.ledger.allotments.get? c).map (·.occupied) =
      (d.ledger.allotments.get? c).map (·.occupied)) : d'.Mirrored where
  allotted {c} hc := by
    have hsome := congrArg Option.isSome (hl c)
    rw [Option.isSome_map, Option.isSome_map] at hsome
    exact hsome.trans (h.allotted (hh ▸ hc))
  records := (h.records.congr_regions hl).congr fun c e r => by rw [Holds, Holds, hh, hp]

/-- **An element that is put somewhere and registered there** keeps the drawing mirrored. -/
theorem Mirrored.put (h : d.Mirrored) {c e : String} {p : Placement α}
    (ho : d.hierarchy.owners.get? e = some c) (hh : d'.hierarchy = d.hierarchy)
    (hp : d'.placements = d.placements.insert e p)
    (hl : d'.ledger.allotments = (d.ledger.registerElement c e p.footprint).allotments) :
    d'.Mirrored where
  allotted {x} hx := by
    rw [hl, Table.contains, SpaceLedger.registerElement, SpaceLedger.modify_get?, Option.isSome_map]
    exact h.allotted (hh ▸ hx)
  records := by
    have hregister := h.records.register (c := c) (b := p.footprint)
      fun c' r hr => Option.some.inj (hr.1.symm.trans ho)
    refine (hregister.congr_regions fun x => by rw [hl]).congr fun x y r => ?_
    rw [Holds, Holds, hh, hp, Table.get?_insert_eq]
    by_cases hy : y = e
    · subst hy
      simp [ho, eq_comm]
    · simp [hy]

end

variable [Scalar α]

/-! ## Placing and separating -/

theorem flagForResize_allotments (d : Drawing α) (c : String) (x : Extent α) :
    (d.flagForResize c x).ledger.allotments = d.ledger.allotments := by
  unfold flagForResize
  split
  · rfl
  · exact SpaceLedger.propagate_allotments _ _ _ _ _

theorem Mirrored.putAt {d : Drawing α} (h : d.Mirrored) {c e : String}
    (ho : d.hierarchy.owners.get? e = some c) (x : Extent α) (spot : Spot α) :
    (d.putAt c e x spot).Mirrored := h.put ho rfl rfl rfl

theorem Mirrored.placeOne {d : Drawing α} (h : d.Mirrored) {c e : String}
    (ho : d.hierarchy.owners.get? e = some c) (x : Extent α) : (d.placeOne c e x).1.Mirrored := by
  unfold Drawing.placeOne
  dsimp only
  split
  · have hg := flagForResize_ground d c x
    refine Mirrored.putAt (h.congr hg.hierarchy (flagForResize_placements d c x) fun _ => ?_)
      (hg.hierarchy ▸ ho) x _
    rw [flagForResize_allotments]
  · exact h.putAt ho x _

/-- **Placing mirrors what it places**, in a ledger that was started over. -/
theorem place_mirrored {d : Drawing α} (t : d.hierarchy.IsTree)
    (hallotted : ∀ {c}, d.hierarchy.containers.contains c = true →
      d.ledger.allotments.contains c = true)
    (hempty : ∀ {c a}, d.ledger.allotments.get? c = some a → a.occupied = []) :
    d.place.state.Mirrored := by
  refine place_keeps (I := fun _ d' => d'.Mirrored) ⟨hallotted, ?_⟩ (fun _ _ h => h)
    fun {done m rest d' x} hs hg _ h => h.placeOne ?_ x
  · refine (SpaceLedger.Records.of_empty hempty).congr fun c e r => ?_
    exact iff_of_false id fun ⟨_, p, hp, _⟩ => nomatch (Table.get?_empty e).symm.trans hp
  · rw [hg.hierarchy]
    exact (mem_members t).1 (hs ▸ List.mem_append_right _ (.head _))

/-- **Separating mirrors every move.** -/
theorem separate_mirrored {d : Drawing α} (t : d.hierarchy.IsTree) (h : d.Mirrored) :
    d.separate.state.Mirrored := by
  refine separate_follows t (fun h => h.congr rfl rfl fun _ => rfl)
    (fun {d' c room zones item} hg ho h => ?_) h
  rcases followPush_eq_or_shift c room zones d' item with he | ⟨p, dx, dy, -, he⟩
  · rwa [he]
  · rw [he]
    exact h.put (hg.hierarchy ▸ ho) rfl rfl rfl

/-! ## Routing -/

/-- The allotments after routing: the corridors of the connectors of each container are reserved. -/
theorem route_allotments (d : Drawing α) (c : String) : d.route.ledger.allotments.get? c =
    (d.ledger.allotments.get? c).map fun a =>
      { a with
        reserved := SpaceLedger.corridorsFor c
          (d.connectors.map fun k => (k.area, (d.routeOne k).corridors)) } := by
  rw [← SpaceLedger.reservations_get?, List.foldl_map]
  show (((d.connectors.map d.routeOne).foldl reserveCorridors _).allotments).get? c = _
  rw [List.foldl_map]
  rfl

theorem Mirrored.route {d : Drawing α} (h : d.Mirrored) : d.route.Mirrored :=
  h.congr rfl rfl fun c => by
    rw [route_allotments, Option.map_map]
    rfl

/-! ## Compacting -/

/-- The corridors of the route of a connector, as wide as the settings say. -/
def corridorsOf (d : Drawing α) (k : Connector) : List (Rect α) :=
  let half := d.settings.routing.corridorWidth / 2.0
  Polyline.corridors ((d.routes.get? k.id).getD []) (d.scale.toUnit (half, half))

/-- The ledger has the boxes of the drawing, and the corridors of the routes of connectors are
reserved in their areas. -/
structure Reckoned (d : Drawing α) : Prop where
  total : ∀ {c a}, d.ledger.allotments.get? c = some a → d.boxes.get? c = some a.total
  routed : ∀ k ∈ d.connectors, d.routes.contains k.id = true
  reserved : ∀ {c a}, d.ledger.allotments.get? c = some a →
    a.reserved = (d.connectors.filter fun k => k.area = c).flatMap d.corridorsOf

theorem restartLedger_allotments (d : Drawing α) (c : String) :
    (d.restartLedger.ledger.allotments.get? c).map (·.total) = d.boxes.get? c := by
  unfold restartLedger
  refine Fold.keeps (fun _ (l : SpaceLedger α) =>
    (l.allotments.get? c).map (·.total) = d.boxes.get? c) ?_ fun _ e _ l _ hl => ?_
  · simp [SpaceLedger.restart, Table.get?_map, Function.comp_def]
  · split
    · rw [SpaceLedger.registerElement, SpaceLedger.modify_get?, Option.map_map, ← hl]
      congr 1
      funext a
      show (if c = e.2 then _ else a).total = a.total
      split <;> rfl
    · exact hl

/-- Writing the ledger anew registers each element in its container. -/
theorem restartLedger_records (d : Drawing α) : d.restartLedger.ledger.Records fun c e r =>
    (e, c) ∈ d.hierarchy.owners.entries ∧ ∃ p, d.placements.get? e = some p ∧ p.footprint = r := by
  -- after each step the ledger records the elements that have been taken
  unfold restartLedger
  refine Fold.keeps (fun done (l : SpaceLedger α) => l.Records fun c e r => (e, c) ∈ done ∧
    ∃ p, d.placements.get? e = some p ∧ p.footprint = r) ?_ ?_
  · refine (SpaceLedger.Records.of_empty fun {c a} ha => ?_).congr fun c e r => by simp
    rw [SpaceLedger.restart, Table.get?_map] at ha
    obtain ⟨box, -, rfl⟩ := Option.map_eq_some_iff.1 ha
    rfl
  · intro done e rest l hs hl
    have hentries : ∀ x ∈ done ++ [e], d.hierarchy.owners.get? x.1 = some x.2 := fun x hx =>
      Table.mem_entries_iff.1 (by rw [hs, List.append_cons]; exact List.mem_append_left _ hx)
    have hown : d.hierarchy.owners.get? e.1 = some e.2 := hentries e (by simp)
    have hone : ∀ {c x}, (x, c) ∈ done ++ [e] → x = e.1 → c = e.2 := fun hm hx =>
      Option.some.inj ((hentries _ hm).symm.trans (hx ▸ hown))
    cases hp : d.placements.get? e.1 with
    | none =>
      refine hl.congr fun c x r => ?_
      rw [List.mem_append, List.mem_singleton]
      constructor
      · exact fun h => ⟨.inl h.1, h.2⟩
      · rintro ⟨hm, p, hpx, hr⟩
        refine ⟨hm.resolve_right ?_, p, hpx, hr⟩
        rintro rfl
        cases hp.symm.trans hpx
    | some p =>
      refine (hl.register (c := e.2) (b := p.footprint) fun c' r hr =>
        hone (List.mem_append_left _ hr.1) rfl).congr fun c x r => ?_
      split
      · rename_i hx
        subst hx
        constructor
        · rintro ⟨hc, hr⟩
          exact ⟨by simp [hc], p, hp, hr.symm⟩
        · rintro ⟨hm, q, hq, hr⟩
          cases hp.symm.trans hq
          exact ⟨hone hm rfl, hr.symm⟩
      · rename_i hx
        rw [List.mem_append, List.mem_singleton]
        refine ⟨fun h => ⟨.inl h.1, h.2⟩, fun h => ⟨h.1.resolve_right ?_, h.2⟩⟩
        rintro rfl
        exact hx rfl

/-- **The ledger that is written anew** from the placements mirrors them. -/
theorem restartLedger_mirrored {d : Drawing α}
    (hboxed : ∀ {c}, d.hierarchy.containers.contains c = true → d.boxes.contains c = true) :
    d.restartLedger.Mirrored where
  allotted {c} hc := by
    have hsome := congrArg Option.isSome (restartLedger_allotments d c)
    rw [Option.isSome_map] at hsome
    exact hsome.trans (hboxed hc)
  records := (restartLedger_records d).congr fun c e r => by
    rw [Table.mem_entries_iff]
    rfl

/-- Routing reserves the corridors of the routes that it draws. -/
theorem route_reserved {d : Drawing α} (hn : (d.connectors.map (·.id)).Nodup) {c : String}
    {a : Allotment α} (ha : d.route.ledger.allotments.get? c = some a) :
    a.reserved = (d.connectors.filter fun k => k.area = c).flatMap d.route.corridorsOf := by
  rw [route_allotments] at ha
  obtain ⟨old, -, rfl⟩ := Option.map_eq_some_iff.1 ha
  show SpaceLedger.corridorsFor c _ = _
  rw [SpaceLedger.corridorsFor, List.filter_map, List.flatMap_map]
  refine List.flatMap_congr fun k hk => ?_
  have hroute := route_get? hn (List.mem_filter.1 hk).1
  rw [corridorsOf, hroute]
  rfl

/-- What compaction ends with is routed, from a drawing with the ledger written anew. -/
theorem finished_eq_route (s : Shifting α) : ∃ hooked : Drawing α, s.finished = hooked.route ∧
    hooked.ledger = s.drawing.restartLedger.ledger ∧ hooked.boxes = s.drawing.boxes ∧
    hooked.hierarchy = s.drawing.hierarchy ∧ hooked.placements = s.drawing.placements ∧
    hooked.connectors = s.drawing.connectors := by
  unfold Shifting.finished
  dsimp only
  split
  · exact ⟨_, rfl, rfl, rfl, rfl, rfl, rfl⟩
  · exact ⟨_, rfl, rfl, rfl, rfl, rfl, rfl⟩

/-- A compaction that succeeds works on one tree with its connectors. -/
theorem compact_subject {d : Drawing α} (hf : d.compact.failure = none) :
    d.compact.state.hierarchy = d.hierarchy ∧ d.compact.state.connectors = d.connectors := by
  cases hfold : d.hierarchy.postOrder.foldlM compactOne ⟨d, 0⟩ with
  | error f => rw [compact_eq_failed hfold] at hf; cases hf
  | ok s =>
    obtain ⟨hooked, hroute, -, -, hh, -, hc⟩ := finished_eq_route s
    have hs := foldlM_compactOne_ok hfold
    rw [compact_eq_finished hfold, hroute]
    exact ⟨hh.trans hs.hierarchy, hc.trans hs.connectors⟩

/-- **A compaction that succeeds** leaves a ledger that mirrors the drawing, with its boxes and the
corridors of its routes. -/
theorem compact_reckoned {d : Drawing α} (hn : (d.connectors.map (·.id)).Nodup)
    (hf : d.compact.failure = none) : d.compact.state.Mirrored ∧ d.compact.state.Reckoned := by
  cases hfold : d.hierarchy.postOrder.foldlM compactOne ⟨d, 0⟩ with
  | error f => rw [compact_eq_failed hfold] at hf; cases hf
  | ok s =>
    obtain ⟨hooked, hroute, hl, hb, hh, hp, hc⟩ := finished_eq_route s
    rw [compact_eq_finished hfold, hroute] at hf ⊢
    have hn : (hooked.connectors.map (·.id)).Nodup := by
      rw [hc, (foldlM_compactOne_ok hfold).connectors]
      exact hn
    have hboxed : ∀ {c}, hooked.hierarchy.containers.contains c = true →
        hooked.boxes.contains c = true := fun {c} hc => by
      split at hf
      · cases hf
      · rename_i hvalidate
        exact Containment.boxed_of_validate hvalidate hc
    have hmirrored : hooked.Mirrored := (restartLedger_mirrored fun {c} hc =>
      hb ▸ hboxed (hh ▸ hc)).congr hh hp fun c => by rw [hl]
    refine ⟨hmirrored.route, ⟨fun {c a} ha => ?_, fun k hk => ?_, route_reserved hn⟩⟩
    · have htotal := restartLedger_allotments s.drawing c
      rw [route_allotments, hl] at ha
      obtain ⟨old, hold, rfl⟩ := Option.map_eq_some_iff.1 ha
      rw [hold] at htotal
      exact (congrArg (Table.get? · c) hb).trans htotal.symm
    · exact Table.contains_of_get? (route_get? hn hk)

end NestedLayout.Drawing
