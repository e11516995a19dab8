import NestedLayout.Proofs.Drawing.Attached
import NestedLayout.Proofs.Drawing.Furnished
import NestedLayout.Proofs.Drawing.Tight
import NestedLayout.Proofs.Routing.Between

/-!
# Drawings inside their roots

When compaction succeeds, everything in the drawing lies in the box of the root: boxes and
footprints because boxes are tight, bodies because they lie in their footprints, hooks because they
lie on bodies, and paths because they stay between hooks.

* `Embodied`, `furnished_embodied`, `compact_embodied`: bodies are placed in their footprints at
  their size, and both move together ever after.
* `Hooked`, `furnished_hooked`: hooks are on the bodies that they were assigned to. Compaction moves
  some of them about, but when it did it assigns them anew (`compact_hooked`).
* `Tight.enclosed`: so what a compaction that succeeds leaves is `Enclosed` in the box of its root.
-/

set_option autoImplicit false

namespace NestedLayout

/-! ## Bodies in footprints -/

namespace Extent

/-- An element of this extent, placed at a scale: its footprint has room for it, and the body is the
one for the footprint. -/
structure Embodied (x : Extent ℝ) (scale : WorldScale ℝ) (p : Placement ℝ) : Prop where
  upright : p.footprint.Upright
  width : (x.unitSize scale).1 ≤ p.footprint.width
  height : (x.unitSize scale).2 ≤ p.footprint.height
  body : ∃ kind, p.body = x.bodyWithin kind p.footprint scale

section
variable {x : Extent ℝ} {scale : WorldScale ℝ} {p : Placement ℝ}

theorem bodyWithin_translate (x : Extent ℝ) (kind : ElementKind) (footprint : Rect ℝ)
    (scale : WorldScale ℝ) (dx dy : ℝ) :
    x.bodyWithin kind (footprint.translate dx dy) scale =
      (x.bodyWithin kind footprint scale).translate dx dy := by
  cases kind with
  | predicate =>
    simp only [bodyWithin, Rect.fromCenter_eq, Rect.center_x, Rect.center_y, Rect.translate_eq,
      Rect.mk.injEq]
    refine ⟨?_, ?_, ?_, ?_⟩ <;> ring
  | vertex =>
    simp only [bodyWithin, Scalar.two_real, Rect.center_x, Rect.translate_eq, Rect.mk.injEq]
    refine ⟨by ring, trivial, by ring, by ring⟩

/-- A body and its footprint move together. -/
theorem Embodied.translate (h : x.Embodied scale p) (dx dy : ℝ) :
    x.Embodied scale (p.translate dx dy) := by
  have hsize := Rect.translate_sameSize p.footprint dx dy
  obtain ⟨kind, hbody⟩ := h.body
  refine ⟨Rect.translate_upright h.upright, h.width.trans_eq hsize.width.symm,
    h.height.trans_eq hsize.height.symm, kind, ?_⟩
  show p.body.translate dx dy = _
  rw [hbody]
  exact (bodyWithin_translate x kind p.footprint scale dx dy).symm

/-- The body has the size of the extent at the scale. -/
theorem Embodied.body_size (h : x.Embodied scale p) (hw : 0 ≤ x.width / scale.width)
    (hh : 0 ≤ x.height / scale.height) :
    p.body.width = x.width / scale.width ∧ p.body.height = x.height / scale.height := by
  obtain ⟨kind, hbody⟩ := h.body
  rw [hbody]
  cases kind with
  | predicate => exact ⟨Rect.width_fromCenter _ _ hw, Rect.height_fromCenter _ _ hh⟩
  | vertex =>
    simp only [bodyWithin, WorldScale.toUnitX, WorldScale.toUnitY, Scalar.two_real, Rect.width_eq,
      Rect.height_eq]
    exact ⟨by ring, by ring⟩

/-- A body with an extent lies in its footprint when the clearance around it is not negative. -/
theorem Embodied.within (h : x.Embodied scale p) (hs : scale.Proper) (hcw : 0 ≤ x.clearanceWidth)
    (hch : 0 ≤ x.clearanceHeight) (hw : 0 < p.body.width) (hh : 0 < p.body.height) :
    p.body.Within p.footprint := by
  obtain ⟨kind, hbody⟩ := h.body
  have hwidth : x.width / scale.width ≤ p.footprint.width :=
    (div_le_div_of_nonneg_right (le_add_of_nonneg_right hcw) hs.width_pos.le).trans h.width
  have hheight : x.height / scale.height ≤ p.footprint.height :=
    (div_le_div_of_nonneg_right (le_add_of_nonneg_right hch) hs.height_pos.le).trans h.height
  rw [hbody] at hw hh ⊢
  cases kind with
  | predicate => exact Rect.fromCenter_within h.upright hwidth hheight
  | vertex =>
    rw [Rect.width_eq] at hwidth
    rw [Rect.height_eq] at hheight
    simp only [bodyWithin, WorldScale.toUnitX, WorldScale.toUnitY, Scalar.two_real]
    constructor <;> simp only [Rect.center_x] <;> linarith

end

end Extent

namespace Drawing

/-! ## Bodies -/

/-- Every placed element has the extent that it has in the first drawing, at the scale there. -/
def Embodied (sized d : Drawing ℝ) : Prop :=
  ∀ {e p}, d.placements.get? e = some p →
    ∃ x, sized.extents.get? e = some x ∧ x.Embodied sized.scale p

/-- The clearances of all elements are not negative. -/
def Spacious (d : Drawing ℝ) : Prop :=
  ∀ {e x}, d.extents.get? e = some x → 0 ≤ x.clearanceWidth ∧ 0 ≤ x.clearanceHeight

/-- All bodies are solid: they have hooks on their sides and not on a ring around them. -/
def Solid (d : Drawing ℝ) : Prop :=
  ∀ {e p}, d.placements.get? e = some p →
    Scalar.epsilon < p.body.width ∧ Scalar.epsilon < p.body.height

/-- The body of an element that is placed is the one for its footprint. -/
theorem placeOne_body (d : Drawing ℝ) (c e : String) (x : Extent ℝ) :
    ∃ p kind center, (d.placeOne c e x).1.placements = d.placements.insert e p ∧
      p.footprint = Rect.fromCenter center (x.unitSize d.scale).1 (x.unitSize d.scale).2 ∧
      p.body = x.bodyWithin kind p.footprint d.scale := by
  unfold placeOne
  dsimp only
  split
  · have hscale := (flagForResize_ground d c x).scale
    refine ⟨_, (d.flagForResize c x).kindOf e, (d.spotFor c e (x.unitSize d.scale)).center,
      congrArg (Table.insert · e _) (flagForResize_placements d c x), ?_, ?_⟩
    · rw [hscale]
    · rw [hscale]
  · exact ⟨_, d.kindOf e, (d.spotFor c e (x.unitSize d.scale)).center, rfl, rfl, rfl⟩

section
variable {sized d : Drawing ℝ}

theorem Embodied.congr {d' : Drawing ℝ} (h : Embodied sized d)
    (hp : d'.placements = d.placements) : Embodied sized d' := by
  intro e p
  rw [hp]
  exact h

/-- **Bodies are solid** when the extents are, at the scale. -/
theorem Embodied.solid (h : Embodied sized d)
    (hx : ∀ {e x}, sized.extents.get? e = some x →
      Scalar.epsilon < x.width / sized.scale.width ∧
        Scalar.epsilon < x.height / sized.scale.height) : d.Solid := by
  intro e p hp
  obtain ⟨x, hx', hbody⟩ := h hp
  obtain ⟨hw, hh⟩ := hx hx'
  obtain ⟨hwidth, hheight⟩ := hbody.body_size (Scalar.epsilon_pos.trans hw).le
    (Scalar.epsilon_pos.trans hh).le
  exact ⟨hw.trans_eq hwidth.symm, hh.trans_eq hheight.symm⟩

/-- **Bodies are placed in their footprints.** -/
theorem place_embodied (d : Drawing ℝ) : Embodied d d.place.state := by
  refine place_keeps (I := fun _ d' => Embodied d d') (fun {e p} hp => ?_) (fun _ _ h => h)
    fun {done m rest d' x} _ hg hx hd {e p} hp => ?_
  · cases (Table.get?_empty e).symm.trans hp
  · obtain ⟨q, kind, center, hq, hfoot, hbody⟩ := placeOne_body d' m.1 m.2 x
    rw [hq, Table.get?_insert_eq] at hp
    split at hp
    · rename_i he
      cases hp
      subst he
      rw [hg.scale] at hfoot hbody
      refine ⟨x, hx, ?_, ?_, ?_, kind, hbody⟩
      · rw [hfoot]
        exact Rect.fromCenter_upright _ _ _
      · rw [hfoot, Rect.fromCenter_eq, Rect.width_eq]
        linarith [le_max_left (x.unitSize d.scale).1 0]
      · rw [hfoot, Rect.fromCenter_eq, Rect.height_eq]
        linarith [le_max_left (x.unitSize d.scale).2 0]
    · exact hd hp

theorem separate_embodied (t : d.hierarchy.IsTree) (h : Embodied sized d) :
    Embodied sized d.separate.state := by
  refine separate_follows (I := Embodied sized) t (fun hd => hd.congr rfl)
    (fun {d' c room zones item} _ _ hd => ?_) h
  rcases followPush_eq_or_shift c room zones d' item with he | ⟨p, dx, dy, hp, he⟩
  · rwa [he]
  · intro e q hq
    rw [he] at hq
    rw [Table.get?_insert_eq] at hq
    split at hq
    · rename_i he
      cases hq
      subst he
      obtain ⟨x, hx, hbody⟩ := hd hp
      exact ⟨x, hx, hbody.translate dx dy⟩
    · exact hd hq

theorem furnished_embodied (t : d.hierarchy.IsTree) : Embodied d d.furnished :=
  Embodied.congr (separate_embodied ((place_ground d).hierarchy ▸ t) (place_embodied d))
    (furnished_view d).placements

theorem translateSubtree_embodied (h : Embodied sized d) (root : String) (dx dy : ℝ) :
    Embodied sized (d.translateSubtree root dx dy) := by
  intro e p hp
  rw [translateSubtree_placement] at hp
  obtain ⟨q, hq, rfl⟩ := Option.map_eq_some_iff.1 hp
  obtain ⟨x, hx, hbody⟩ := h hq
  split
  · exact ⟨x, hx, hbody.translate dx dy⟩
  · exact ⟨x, hx, hbody⟩

/-- **Compaction leaves bodies in their footprints.** -/
theorem compact_embodied (hf : d.compact.failure = none) (h : Embodied sized d) :
    Embodied sized d.compact.state := by
  cases hfold : d.hierarchy.postOrder.foldlM compactOne ⟨d, 0⟩ with
  | error f => rw [compact_eq_failed hfold] at hf; cases hf
  | ok s =>
    obtain ⟨hview, -⟩ := compact_of_ok hfold
    refine Embodied.congr (foldlM_compactOne_keeps (I := Embodied sized)
      (fun root dx dy hd => translateSubtree_embodied hd root dx dy)
      (fun _ _ hd => hd.congr (setBox_unmoved _ _ _).placements) hfold h) hview.placements

end

/-! ## Hooks -/

section
variable {α : Type} [Scalar α] {d : Drawing α}

/-- All hooks are on the bodies of their endpoints. -/
def Hooked (d : Drawing α) : Prop := ∃ ring, HookTable.OnBodies d.placements ring d.hooks

theorem Hooked.congr {d' : Drawing α} (h : Hooked d) (hp : d'.placements = d.placements)
    (hh : d'.hooks = d.hooks) : Hooked d' := by
  obtain ⟨ring, hring⟩ := h
  exact ⟨ring, by rw [hp, hh]; exact hring⟩

theorem attachHooks_hooked (d : Drawing α) : Hooked d.attachHooks :=
  ⟨_, HookTable.assign_onBodies _ _ _⟩

theorem Hooked.route (h : Hooked d) : Hooked d.route := h.congr rfl rfl

theorem furnished_hooked (d : Drawing α) : Hooked d.furnished := (attachHooks_hooked _).route

/-- Elements and hooks are where they were unless something was shifted. -/
def Still (d : Drawing α) (s : Shifting α) : Prop :=
  s.shifts = 0 → s.drawing.placements = d.placements ∧ s.drawing.hooks = d.hooks

theorem foldlM_compactOne_still {s : Shifting α}
    (hfold : d.hierarchy.postOrder.foldlM compactOne ⟨d, 0⟩ = .ok s) : Still d s := by
  refine Fold.keepsM (fun _ s => Still d s) (fun _ => ⟨rfl, rfl⟩)
    (fun _ id _ _ _ _ hs hok => ?_) hfold
  rcases compactOne_ok hok with ⟨-, rfl⟩ | ⟨c, apart, -, hsep, rfl⟩
  · exact hs
  · rcases (separateChildren_apart hsep).1 with rfl | hlt
    · intro hnone
      obtain ⟨hp, hh⟩ := hs hnone
      have hbox := setBox_unmoved apart.drawing id (apart.drawing.tightBox c)
      exact ⟨hbox.placements.trans hp, hbox.hooks.trans hh⟩
    · exact fun hnone => absurd hnone (Nat.ne_of_gt (Nat.zero_lt_of_lt hlt))

theorem finished_hooked {s : Shifting α}
    (hfold : d.hierarchy.postOrder.foldlM compactOne ⟨d, 0⟩ = .ok s) (h : Hooked d) :
    Hooked s.finished := by
  have hstill := foldlM_compactOne_still hfold
  unfold Shifting.finished
  dsimp only
  split
  · exact (attachHooks_hooked _).route
  · rename_i hnone
    obtain ⟨hp, hh⟩ := hstill (Nat.eq_zero_of_not_pos hnone)
    exact Hooked.route (h.congr hp hh)

/-- **Compaction leaves hooks on bodies**, and routes all connectors between them. -/
theorem compact_hooked (hf : d.compact.failure = none) (h : Hooked d) :
    Hooked d.compact.state ∧ ∃ hooked : Drawing α, d.compact.state = hooked.route := by
  cases hfold : d.hierarchy.postOrder.foldlM compactOne ⟨d, 0⟩ with
  | error f => rw [compact_eq_failed hfold] at hf; cases hf
  | ok s =>
    rw [compact_eq_finished hfold]
    exact ⟨finished_hooked hfold h, _, rfl⟩

end

/-! ## The whole drawing -/

/-- Everything in a drawing lies in a rectangle. -/
structure Enclosed (d : Drawing ℝ) (r : Rect ℝ) : Prop where
  boxes : ∀ {id box}, d.hierarchy.containers.contains id = true → d.boxes.get? id = some box →
    box.Upright ∧ box.Within r
  footprints : ∀ {e p}, d.placements.get? e = some p → p.footprint.Upright ∧ p.footprint.Within r
  bodies : ∀ {e p}, d.placements.get? e = some p → p.body.Upright ∧ p.body.Within r
  hooks : ∀ {k hook}, d.hooks.get? k = some hook → r.Holds hook.point
  paths : ∀ {id path}, d.routes.get? id = some path → ∀ p ∈ path, r.Holds p

section
variable {d₀ d : Drawing ℝ} (t : d₀.hierarchy.IsTree) (h : Tight d₀ d₀.hierarchy.postOrder d)
  (hpad : 0 ≤ d₀.unitPadding.1 ∧ 0 ≤ d₀.unitPadding.2)
include t h hpad

/-- What is directly in a container lies in its box. -/
theorem Tight.contents_within {id : String} {box r : Rect ℝ} (hb : d.boxes.get? id = some box)
    (hr : r ∈ d.contents id)
    (hid : d₀.hierarchy.children id ≠ [] ∨ d₀.hierarchy.elements id ≠ []) : r.Within box := by
  obtain ⟨box', hull, hb', hhull, rfl, -⟩ := h.box_eq_inflate t hid
  cases hb.symm.trans hb'
  exact (hhull.holds r hr).trans (Rect.within_inflate hpad.1 hpad.2 hull)

/-- **Boxes lie in the box of the root.** -/
theorem Tight.boxes_within {root : Rect ℝ} (hroot : d.boxes.get? d₀.hierarchy.root = some root)
    {id : String} {box : Rect ℝ} (hid : d₀.hierarchy.containers.contains id = true)
    (hb : d.boxes.get? id = some box) : box.Within root := by
  have hencloses := t.root_encloses hid
  induction hencloses generalizing box with
  | refl =>
    cases hroot.symm.trans hb
    exact .refl _
  | @tail p c _ hp ih =>
    obtain ⟨pbox, hpb, -⟩ := h.boxed_of_known t (t.parentKnown hp)
    obtain ⟨cbox, hcb, hmem⟩ := h.child_mem_contents t hp
    cases hb.symm.trans hcb
    have hne : d₀.hierarchy.children p ≠ [] := List.ne_nil_of_mem (t.mem_children.2 hp)
    exact (h.contents_within t hpad hpb hmem (.inl hne)).trans (ih (t.parentKnown hp) hpb)

/-- **Footprints lie in the box of the root.** -/
theorem Tight.footprint_within {root : Rect ℝ} (hroot : d.boxes.get? d₀.hierarchy.root = some root)
    {e c : String} {p : Placement ℝ} (ho : d₀.hierarchy.owners.get? e = some c)
    (hp : d.placements.get? e = some p) : p.footprint.Within root := by
  have hc := t.known_of_owner ho
  obtain ⟨box, hb, -⟩ := h.boxed_of_known t hc
  obtain ⟨q, hq, hmem⟩ := h.footprint_mem_contents t ho
  cases hp.symm.trans hq
  have hne : d₀.hierarchy.elements c ≠ [] := List.ne_nil_of_mem (t.mem_elements.2 ho)
  exact (h.contents_within t hpad hb hmem (.inr hne)).trans (h.boxes_within t hpad hroot hc hb)

end

/-- The routes of a drawing are the paths of its connectors. -/
theorem route_paths {α : Type} [Scalar α] (d : Drawing α) {id : String} {path : List (Point α)}
    (h : d.route.routes.get? id = some path) :
    ∃ c ∈ d.connectors, path = Route.path c d.hooks d.placements d.settings.routing.style := by
  obtain ⟨r, hr, he⟩ := List.mem_map.1 (Table.mem_of_get?_ofList h)
  obtain ⟨c, hc, rfl⟩ := List.mem_map.1 hr
  cases he
  exact ⟨c, hc, rfl⟩

/-- **A tight drawing lies in the box of its root** when bodies are solid, in their footprints, with
the hooks on them, and connectors are routed between the hooks. -/
theorem Tight.enclosed {sized d₀ d : Drawing ℝ} (t : d₀.hierarchy.IsTree)
    (h : Tight d₀ d₀.hierarchy.postOrder d)
    (hpad : 0 ≤ d₀.unitPadding.1 ∧ 0 ≤ d₀.unitPadding.2) (hs : sized.scale.Proper)
    (hx : Spacious sized) (hbodies : Embodied sized d) (hhooked : Hooked d)
    (hrouted : ∃ hooked : Drawing ℝ, d = hooked.route)
    (howned : ∀ {e p}, d.placements.get? e = some p → ∃ c, d₀.hierarchy.owners.get? e = some c)
    (hends : ∀ {k hook}, d.hooks.get? k = some hook →
      ∃ p, d.placements.get? k.endpoint = some p)
    {root : Rect ℝ} (hroot : d.boxes.get? d₀.hierarchy.root = some root) (hsolid : d.Solid) :
    Enclosed d root := by
  -- boxes hold footprints, footprints bodies, bodies hooks, and hooks paths
  have hfootprints : ∀ {e p}, d.placements.get? e = some p →
      p.footprint.Upright ∧ p.footprint.Within root := fun hp => by
    obtain ⟨c, ho⟩ := howned hp
    exact ⟨h.standing hp, h.footprint_within t hpad hroot ho hp⟩
  have hbody : ∀ {e p}, d.placements.get? e = some p →
      p.body.Upright ∧ p.body.Within root := fun hp => by
    obtain ⟨hw, hh⟩ := hsolid hp
    have hw := Scalar.epsilon_pos.trans hw
    have hh := Scalar.epsilon_pos.trans hh
    obtain ⟨x, hx', hbody⟩ := hbodies hp
    obtain ⟨hcw, hch⟩ := hx hx'
    exact ⟨⟨(sub_pos.1 hw).le, (sub_pos.1 hh).le⟩,
      (hbody.within hs hcw hch hw hh).trans (hfootprints hp).2⟩
  have hhooks : ∀ {k hook}, d.hooks.get? k = some hook → root.Holds hook.point :=
    fun {k hook} hk => by
      obtain ⟨p, hp⟩ := hends hk
      obtain ⟨ring, hring⟩ := hhooked
      obtain ⟨side, rfl⟩ := hring hk
      obtain ⟨hw, hh⟩ := hsolid hp
      rw [Placement.bodyOf, hp]
      exact (Hook.on_holds hw hh side ring).mono (hbody hp).2
  refine ⟨fun {id box} hid hb => ?_, hfootprints, hbody, hhooks, fun {id path} hpath => ?_⟩
  · rw [h.hierarchy] at hid
    obtain ⟨box', hb', hup⟩ := h.boxed_of_known t hid
    cases hb.symm.trans hb'
    exact ⟨hup, h.boxes_within t hpad hroot hid hb⟩
  · obtain ⟨hooked, rfl⟩ := hrouted
    obtain ⟨c, -, rfl⟩ := route_paths hooked hpath
    exact Route.path_holds (fun hk => hhooks hk) _ _

end Drawing

end NestedLayout
