import NestedLayout.Drawing.Placed
import NestedLayout.Drawing.Routed
import NestedLayout.Drawing.Separated
import NestedLayout.Proofs.Fold
import NestedLayout.Proofs.Table

/-!
# What the phases leave alone

After the containers have got their boxes, the phases up to the last one work on a fixed ground: the
tree, the boxes, the settings, the scale, and the room of every container. `SameGround` says that
two drawings have this ground in common.

* `place_ground`, `separate_ground`, `attachHooks_ground`, `route_ground`: the phases keep it.
-/

set_option autoImplicit false

namespace NestedLayout

variable {α : Type} [Scalar α]

/-! ## Rooms -/

/-- Two ledgers with the same scale and spacing that leave every container the same room. -/
structure SpaceLedger.SameRooms (l l' : SpaceLedger α) : Prop where
  spacing : l'.spacing = l.spacing
  scale : l'.scale = l.scale
  available : ∀ id, (l'.allotments.get? id).map (·.available) =
    (l.allotments.get? id).map (·.available)

namespace SpaceLedger

omit [Scalar α]

theorem SameRooms.refl (l : SpaceLedger α) : SameRooms l l := ⟨rfl, rfl, fun _ => rfl⟩

theorem SameRooms.trans {l₁ l₂ l₃ : SpaceLedger α} (h : SameRooms l₁ l₂) (h' : SameRooms l₂ l₃) :
    SameRooms l₁ l₃ :=
  ⟨h'.spacing.trans h.spacing, h'.scale.trans h.scale,
    fun id => (h'.available id).trans (h.available id)⟩

theorem SameRooms.contains {l l' : SpaceLedger α} (h : SameRooms l l') (id : String) :
    l'.allotments.contains id = l.allotments.contains id := by
  have hsome := congrArg Option.isSome (h.available id)
  rwa [Option.isSome_map, Option.isSome_map] at hsome

theorem require_sameRooms (l : SpaceLedger α) (id : String) (r : Requirement α) :
    SameRooms l (l.require id r) := ⟨rfl, rfl, fun _ => rfl⟩

/-- A change to one allotment that leaves its room as it is. -/
theorem modify_sameRooms (l : SpaceLedger α) (container : String)
    {f : Allotment α → Allotment α} (hf : ∀ a, (f a).available = a.available) :
    SameRooms l { l with allotments := l.allotments.modify container f } := by
  refine ⟨rfl, rfl, fun id => ?_⟩
  rw [Table.get?_modify]
  split
  · rw [Option.map_map, show (·.available) ∘ f = (·.available) from funext hf]
  · rfl

theorem registerElement_sameRooms (l : SpaceLedger α) (container element : String)
    (bounds : Rect α) : SameRooms l (l.registerElement container element bounds) :=
  modify_sameRooms l container fun _ => rfl

theorem reserveRegion_sameRooms (l : SpaceLedger α) (container : String) (bounds : Rect α) :
    SameRooms l (l.reserveRegion container bounds) :=
  modify_sameRooms l container fun _ => rfl

theorem clearReserved_sameRooms (l : SpaceLedger α) : SameRooms l l.clearReserved := by
  refine ⟨rfl, rfl, fun id => ?_⟩
  rw [clearReserved, Table.get?_map, Option.map_map]
  rfl

end SpaceLedger

namespace SpaceLedger

theorem climb_sameRooms (h : Hierarchy) (extents : IdTable (Extent α)) (n : Nat)
    (l : SpaceLedger α) (id : Option String) : SameRooms l (climb h extents n l id).1 := by
  induction n generalizing l id with
  | zero => exact .refl l
  | succ n ih =>
    cases id with
    | none => exact .refl l
    | some id =>
      unfold climb
      dsimp only
      split
      · exact (require_sameRooms l id _).trans (ih _ _)
      · exact .refl l

theorem propagate_sameRooms (l : SpaceLedger α) (h : Hierarchy) (extents : IdTable (Extent α))
    (id : String) (r : Requirement α) : SameRooms l (l.propagate h extents id r).1 :=
  (require_sameRooms l id r).trans (climb_sameRooms h extents _ _ _)

end SpaceLedger

/-! ## Drawings on the same ground -/

namespace Drawing

/-- Two drawings of one tree in the same boxes. -/
structure SameGround (d d' : Drawing α) : Prop where
  diagram : d'.diagram = d.diagram
  settings : d'.settings = d.settings
  hierarchy : d'.hierarchy = d.hierarchy
  extents : d'.extents = d.extents
  boxes : d'.boxes = d.boxes
  scale : d'.scale = d.scale
  hints : d'.hints = d.hints
  rooms : d.ledger.SameRooms d'.ledger
  corrections : d'.metrics.containmentCorrections = d.metrics.containmentCorrections

omit [Scalar α] in
theorem SameGround.refl (d : Drawing α) : SameGround d d :=
  ⟨rfl, rfl, rfl, rfl, rfl, rfl, rfl, .refl _, rfl⟩

omit [Scalar α] in
theorem SameGround.trans {d₁ d₂ d₃ : Drawing α} (h : SameGround d₁ d₂) (h' : SameGround d₂ d₃) :
    SameGround d₁ d₃ :=
  ⟨h'.diagram.trans h.diagram, h'.settings.trans h.settings, h'.hierarchy.trans h.hierarchy,
    h'.extents.trans h.extents, h'.boxes.trans h.boxes, h'.scale.trans h.scale,
    h'.hints.trans h.hints, h.rooms.trans h'.rooms, h'.corrections.trans h.corrections⟩

theorem flagForResize_ground (d : Drawing α) (container : String) (extent : Extent α) :
    SameGround d (d.flagForResize container extent) := by
  unfold flagForResize
  split
  · exact .refl d
  · exact ⟨rfl, rfl, rfl, rfl, rfl, rfl, rfl,
      SpaceLedger.propagate_sameRooms _ _ _ _ _, rfl⟩

theorem putAt_ground (d : Drawing α) (container element : String) (extent : Extent α)
    (spot : Spot α) : SameGround d (d.putAt container element extent spot) := by
  refine ⟨rfl, rfl, rfl, rfl, rfl, rfl, rfl,
    SpaceLedger.registerElement_sameRooms _ _ _ _, ?_⟩
  show (countPlacement d.metrics spot.origin).containmentCorrections = _
  cases spot.origin <;> rfl

theorem placeOne_ground (d : Drawing α) (container element : String) (extent : Extent α) :
    SameGround d (d.placeOne container element extent).1 := by
  unfold placeOne
  dsimp only
  split
  · exact (flagForResize_ground d container extent).trans (putAt_ground _ _ _ _ _)
  · exact putAt_ground _ _ _ _ _

theorem place_ground (d : Drawing α) : SameGround d d.place.state := by
  refine Fold.keeps (fun _ (step : Step (Drawing α)) => SameGround d step.state)
    ⟨rfl, rfl, rfl, rfl, rfl, rfl, rfl, .refl _, rfl⟩ fun _ m _ step _ hs => ?_
  split
  · exact hs
  · exact hs.trans (placeOne_ground _ _ _ _)

theorem followPush_ground (container : String) (room : Rect α) (zones : List (Rect α))
    (d : Drawing α) (item : Separation.Item α) :
    SameGround d (followPush container room zones d item) := by
  unfold followPush
  split
  · exact .refl d
  · split
    · exact .refl d
    · dsimp only
      split
      · exact .refl d
      · exact ⟨rfl, rfl, rfl, rfl, rfl, rfl, rfl,
          SpaceLedger.registerElement_sameRooms _ _ _ _, rfl⟩

theorem separateIn_ground (u : Untangling α) (container : String) :
    SameGround u.drawing (separateIn u container).drawing := by
  unfold separateIn
  dsimp only
  split
  · exact .refl _
  · split
    · exact .refl _
    · rename_i a _
      have hfold := Fold.keeps (f := followPush container a.available
          (SpaceLedger.childZones u.drawing.hierarchy u.drawing.boxes container))
        (l := (Separation.pass (u.drawing.separationItems container)).1) (b := u.drawing)
        (fun _ d => SameGround u.drawing d) (.refl _)
        fun _ item _ d _ hd => hd.trans (followPush_ground _ _ _ d item)
      exact hfold.trans ⟨rfl, rfl, rfl, rfl, rfl, rfl, rfl, .refl _, rfl⟩

theorem separate_ground (d : Drawing α) : SameGround d d.separate.state := by
  have hfold := Fold.keeps (f := separateIn) (l := d.hierarchy.preOrder) (b := ⟨d, []⟩)
    (fun _ u => SameGround d u.drawing) (.refl _)
    fun _ container _ u _ hu => hu.trans (separateIn_ground u container)
  exact hfold.trans ⟨rfl, rfl, rfl, rfl, rfl, rfl, rfl, .refl _, rfl⟩

theorem attachHooks_ground (d : Drawing α) : SameGround d d.attachHooks :=
  ⟨rfl, rfl, rfl, rfl, rfl, rfl, rfl, .refl _, rfl⟩

omit [Scalar α] in
theorem reserveCorridors_sameRooms (l : SpaceLedger α) (r : RoutedConnector α) :
    l.SameRooms (reserveCorridors l r) :=
  Fold.keeps (fun _ l' => l.SameRooms l') (.refl _)
    fun _ corridor _ l' _ hl => hl.trans (SpaceLedger.reserveRegion_sameRooms l' _ corridor)

theorem route_ground (d : Drawing α) : SameGround d d.route := by
  refine ⟨rfl, rfl, rfl, rfl, rfl, rfl, rfl, ?_, rfl⟩
  exact Fold.keeps (fun _ l => d.ledger.SameRooms l) (SpaceLedger.clearReserved_sameRooms _)
    fun _ r _ l _ hl => hl.trans (reserveCorridors_sameRooms l r)

end Drawing

end NestedLayout
