import NestedLayout.Proofs.Drawing.Sized
import NestedLayout.Proofs.Space.Search

/-!
# Elements in their places

What the placement phase makes of a drawing that is ready.

* `AllPlaced`, `Standing`: every element has a place, and the footprints are upright; the phase
  reaches both from any boxes (`place_allPlaced`, `place_standing`).
* `ToScale`: they have their sizes at the scale of the drawing (`place_toScale`).
* `Inside`, `Clear`: the elements lie in the padded interior of their container and keep clear of
  its child containers.
* `spotFor_spec`: whichever way a spot was found, a footprint there lies inside, and it is clear
  when half the gap exceeds the tolerance. `place_inside` and `place_clear` follow.
-/

set_option autoImplicit false

namespace NestedLayout.Drawing

open Scalar (epsilon)

/-- Every element has a place. -/
def AllPlaced (d : Drawing ℝ) : Prop :=
  ∀ {c e}, d.hierarchy.owners.get? e = some c → ∃ p, d.placements.get? e = some p

/-- All footprints are upright. -/
def Standing (d : Drawing ℝ) : Prop :=
  ∀ {e p}, d.placements.get? e = some p → p.footprint.Upright

/-- Every placed element lies in the padded interior of its container. -/
def Inside (d : Drawing ℝ) : Prop :=
  ∀ {c e p box}, d.hierarchy.owners.get? e = some c → d.placements.get? e = some p →
    d.boxes.get? c = some box → p.footprint.Within (d.inner box)

/-- No placed element meets a child container of its container. -/
def Clear (d : Drawing ℝ) : Prop :=
  ∀ {c b e p bbox}, d.hierarchy.owners.get? e = some c → d.hierarchy.parent? b = some c →
    d.placements.get? e = some p → d.boxes.get? b = some bbox →
    bbox.intersects p.footprint = false

/-- Every placed element has the size that it has in the first drawing at the scale there. -/
def ToScale (d d' : Drawing ℝ) : Prop :=
  ∀ {e p x}, d'.placements.get? e = some p → d.extents.get? e = some x → x.Proper →
    p.footprint.width = (x.unitSize d.scale).1 ∧ p.footprint.height = (x.unitSize d.scale).2

theorem SameGround.unitGap {d d' : Drawing ℝ} (hg : SameGround d d') :
    d'.unitGap = d.unitGap := by
  rw [Drawing.unitGap, Drawing.unitGap, hg.settings, hg.scale]

/-- Two drawings that show the same containers and elements in the same places. -/
structure SameView (d d' : Drawing ℝ) : Prop where
  hierarchy : d'.hierarchy = d.hierarchy
  settings : d'.settings = d.settings
  scale : d'.scale = d.scale
  boxes : d'.boxes = d.boxes
  placements : d'.placements = d.placements

theorem SameView.trans {d₁ d₂ d₃ : Drawing ℝ} (h : SameView d₁ d₂) (h' : SameView d₂ d₃) :
    SameView d₁ d₃ :=
  ⟨h'.hierarchy.trans h.hierarchy, h'.settings.trans h.settings, h'.scale.trans h.scale,
    h'.boxes.trans h.boxes, h'.placements.trans h.placements⟩

theorem inner_congr {d d' : Drawing ℝ} (hset : d'.settings = d.settings)
    (hscale : d'.scale = d.scale) : d'.inner = d.inner := by
  funext box
  rw [inner, inner, unitPadding, unitPadding, hset, hscale]

section
variable {d d' : Drawing ℝ} (hp : SameView d d')
include hp

theorem AllPlaced.congr (h : AllPlaced d) : AllPlaced d' := by
  intro c e
  simp only [hp.hierarchy, hp.placements]
  exact h

theorem Standing.congr (h : Standing d) : Standing d' := by
  intro e p
  simp only [hp.placements]
  exact h

theorem Inside.congr (h : Inside d) : Inside d' := by
  intro c e p box
  simp only [hp.hierarchy, hp.placements, hp.boxes, inner_congr hp.settings hp.scale]
  exact h

theorem Clear.congr (h : Clear d) : Clear d' := by
  intro c b e p bbox
  simp only [hp.hierarchy, hp.placements, hp.boxes]
  exact h

theorem ToScale.congr {sized : Drawing ℝ} (h : ToScale sized d) : ToScale sized d' := by
  intro e p x
  simp only [hp.placements]
  exact h

end

/-! ## Members -/

section
variable {h : Hierarchy} (t : h.IsTree)
include t

theorem mem_childZones {boxes : Boxes ℝ} {c : String} {z : Rect ℝ} :
    z ∈ SpaceLedger.childZones h boxes c ↔ ∃ b, h.parent? b = some c ∧ boxes.get? b = some z := by
  simp only [SpaceLedger.childZones, List.mem_filterMap, t.mem_children]

/-- The members of a tree are its elements with their containers. -/
theorem mem_members {m : String × String} :
    m ∈ members h ↔ h.owners.get? m.2 = some m.1 := by
  simp only [members, List.mem_flatMap, List.mem_map, t.mem_elements, t.mem_preOrder]
  refine ⟨?_, ?_⟩
  · rintro ⟨c, -, e, ho, rfl⟩
    exact ho
  · exact fun ho => ⟨m.1, t.known_of_owner ho, m.2, ho, rfl⟩

/-- Each element is a member once. -/
theorem nodup_members : ((members h).map (·.2)).Nodup := by
  rw [members, List.map_flatMap]
  simp only [List.map_map, Function.comp_def, List.map_id']
  exact t.nodup_subtreeElements h.root

/-- The members of a tree have all elements, each once. -/
theorem members_perm : ((members h).map (·.2)).Perm h.owners.keys := by
  refine (List.perm_ext_iff_of_nodup (nodup_members t) (Table.nodup_keys _)).2 fun e => ?_
  rw [Table.mem_keys_iff, Table.contains_iff, List.mem_map]
  constructor
  · rintro ⟨m, hm, rfl⟩
    exact ⟨m.1, (mem_members t).1 hm⟩
  · rintro ⟨c, hc⟩
    exact ⟨(c, e), (mem_members t).2 hc, rfl⟩

end

/-! ## The spot of one element -/

section
variable {d : Drawing ℝ} (hr : Ready d)

include hr

theorem allotment_of_box {c : String} {box : Rect ℝ} (hb : d.boxes.get? c = some box) :
    ∃ a, d.ledger.allotments.get? c = some a ∧ a.available = d.inner box :=
  Option.map_eq_some_iff.1 (hr.allotted hb)

theorem halfGap_eq : d.ledger.halfGap = (d.unitGap.1 / 2, d.unitGap.2 / 2) := by
  rw [SpaceLedger.halfGap, unitGap, hr.scale, hr.spacing, Scalar.two_real]
  rfl

theorem unitGap_nonneg : 0 ≤ d.unitGap.1 ∧ 0 ≤ d.unitGap.2 :=
  ⟨div_nonneg hr.inRange.gap hr.proper.width_pos.le,
    div_nonneg hr.inRange.gap hr.proper.height_pos.le⟩

theorem halfGap_nonneg : 0 ≤ d.ledger.halfGap.1 ∧ 0 ≤ d.ledger.halfGap.2 := by
  obtain ⟨h₁, h₂⟩ := unitGap_nonneg hr
  rw [halfGap_eq hr]
  exact ⟨div_nonneg h₁ zero_le_two, div_nonneg h₂ zero_le_two⟩

theorem fitsInto {c e : String} {x : Extent ℝ} {box : Rect ℝ}
    (ho : d.hierarchy.owners.get? e = some c) (hx : d.extents.get? e = some x)
    (hb : d.boxes.get? c = some box) : FitsInto (x.unitSize d.scale) (d.inner box) := by
  obtain ⟨hw, hh⟩ := hr.fits ho hx hb
  exact ⟨⟨div_nonneg (hr.positive hx).width.le hr.proper.width_pos.le, hw⟩,
    ⟨div_nonneg (hr.positive hx).height hr.proper.height_pos.le, hh⟩⟩

/-- **Every spot is inside**, also that of last resort; and it is clear of the child containers when
half the gap exceeds the tolerance, since there is a band below them. -/
theorem spotFor_spec {c e : String} {x : Extent ℝ} {box : Rect ℝ}
    (ho : d.hierarchy.owners.get? e = some c) (hx : d.extents.get? e = some x)
    (hb : d.boxes.get? c = some box) {center : Point ℝ}
    (hs : (d.spotFor c e (x.unitSize d.scale)).center = center) :
    (Rect.fromCenter center (x.unitSize d.scale).1 (x.unitSize d.scale).2).Within (d.inner box) ∧
      (epsilon ≤ d.unitGap.2 / 2 → Settles (d.inner box) (x.unitSize d.scale)
        (SpaceLedger.childZones d.hierarchy d.boxes c) center) := by
  obtain ⟨a, ha, havail⟩ := allotment_of_box hr hb
  have hfit : FitsInto (x.unitSize d.scale) a.available := havail ▸ fitsInto hr ho hx hb
  have hg := halfGap_nonneg hr
  have hgood : Settles a.available (x.unitSize d.scale)
      (SpaceLedger.childZones d.hierarchy d.boxes c) center →
      (Rect.fromCenter center (x.unitSize d.scale).1 (x.unitSize d.scale).2).Within (d.inner box) ∧
        (epsilon ≤ d.unitGap.2 / 2 → Settles (d.inner box) (x.unitSize d.scale)
          (SpaceLedger.childZones d.hierarchy d.boxes c) center) := by
    rw [havail]
    exact fun h => ⟨h.within, fun _ => h⟩
  have hhint : d.hintedCenter? c e (x.unitSize d.scale) = none := by
    simp [hintedCenter?, hr.hints]
  unfold spotFor at hs
  rw [hhint] at hs
  dsimp only at hs
  split at hs
  · rename_i found hfound
    obtain rfl : found = center := hs
    exact hgood (SpaceLedger.firstPosition?_spec ha hfit hg hfound)
  · simp only [fallbackCenter, ha] at hs
    cases hn : d.ledger.nearestClear? d.hierarchy d.boxes c (x.unitSize d.scale) with
    | some found =>
      rw [hn] at hs
      obtain rfl : found = center := hs
      exact hgood (SpaceLedger.nearestClear?_spec ha hfit hg hn)
    | none =>
      rw [hn] at hs
      obtain rfl : a.available.center = center := hs
      refine ⟨?_, fun hgap => ?_⟩
      · rw [havail] at hfit ⊢
        exact Rect.fromCenter_within (Rect.deflate_upright _ _ _) hfit.width.2 hfit.height.2
      · -- with such a gap the band below the children has a place
        have hgap' : epsilon ≤ d.ledger.halfGap.2 := by rwa [halfGap_eq hr]
        obtain ⟨found, hfound⟩ := SpaceLedger.exists_nearestClear? d.hierarchy d.boxes ha
          hfit hgap' fun z hz => by
            obtain ⟨b, hpb, hbb⟩ := (mem_childZones hr.tree).1 hz
            have := hr.band hpb ho hx hb hbb
            rw [halfGap_eq hr, havail]
            linarith
        rw [hn] at hfound
        cases hfound

end

/-! ## The phase -/

section
variable {α : Type} [Scalar α]

theorem place_failure (d : Drawing α) : d.place.failure = none := by
  refine Fold.keeps (fun _ (step : Step (Drawing α)) => step.failure = none) rfl
    fun _ m _ step _ hs => ?_
  split
  · exact hs
  · exact hs

theorem flagForResize_placements (d : Drawing α) (c : String) (x : Extent α) :
    (d.flagForResize c x).placements = d.placements := by
  unfold flagForResize
  split <;> rfl

/-- One placement is added, with its footprint at the spot that was found. -/
theorem placeOne_placements (d : Drawing α) (c e : String) (x : Extent α) :
    ∃ p : Placement α, (d.placeOne c e x).1.placements = d.placements.insert e p ∧
      p.footprint = Rect.fromCenter (d.spotFor c e (x.unitSize d.scale)).center
        (x.unitSize d.scale).1 (x.unitSize d.scale).2 := by
  unfold placeOne
  dsimp only
  split
  · have hscale := (flagForResize_ground d c x).scale
    refine ⟨_, congrArg (Table.insert · e _) (flagForResize_placements d c x), ?_⟩
    rw [hscale]
  · exact ⟨_, rfl, rfl⟩

/-- **What placing one element keeps** holds after the phase, with what the phase has to say. -/
theorem place_keepsStep {d : Drawing α} {I : List (String × String) → Step (Drawing α) → Prop}
    (start : I [] (.quiet { d with placements := .empty }))
    (skip : ∀ {done m rest s}, members d.hierarchy = done ++ m :: rest →
      d.extents.get? m.2 = none → I done s → I (done ++ [m]) s)
    (step : ∀ {done m rest s x}, members d.hierarchy = done ++ m :: rest →
      SameGround d s.state → d.extents.get? m.2 = some x → I done s →
      I (done ++ [m]) { s with
        state := (s.state.placeOne m.1 m.2 x).1
        notes := s.notes ++ (s.state.placeOne m.1 m.2 x).2 }) :
    I (members d.hierarchy) d.place := by
  refine (Fold.keeps (fun done (s : Step (Drawing α)) => SameGround d s.state ∧ I done s)
    ⟨⟨rfl, rfl, rfl, rfl, rfl, rfl, rfl, .refl _, rfl⟩, start⟩
    fun done m rest s hs ⟨hg, hi⟩ => ?_).2
  split
  · rename_i hx
    exact ⟨hg, skip hs hx hi⟩
  · rename_i x hx
    exact ⟨hg.trans (placeOne_ground _ _ _ _), step hs hg hx hi⟩

/-- What placing one element keeps of the drawing alone. -/
theorem place_keeps {d : Drawing α} {I : List (String × String) → Drawing α → Prop}
    (start : I [] { d with placements := .empty })
    (skip : ∀ {done m rest d'}, members d.hierarchy = done ++ m :: rest →
      d.extents.get? m.2 = none → I done d' → I (done ++ [m]) d')
    (step : ∀ {done m rest d' x}, members d.hierarchy = done ++ m :: rest → SameGround d d' →
      d.extents.get? m.2 = some x → I done d' → I (done ++ [m]) (d'.placeOne m.1 m.2 x).1) :
    I (members d.hierarchy) d.place.state :=
  place_keepsStep (I := fun done s => I done s.state) start skip step

end

section
variable {d : Drawing ℝ}

theorem place_allPlaced (t : d.hierarchy.IsTree)
    (hm : ∀ {c e}, d.hierarchy.owners.get? e = some c → ∃ x, d.extents.get? e = some x) :
    AllPlaced d.place.state := by
  have hall : ∀ m ∈ members d.hierarchy, ∃ p, d.place.state.placements.get? m.2 = some p := by
    refine place_keeps (I := fun done d' => ∀ m ∈ done, ∃ p, d'.placements.get? m.2 = some p)
      (by simp) (fun {done m rest d'} hs hx hd => ?_) (fun {done m rest d' x} _ _ _ hd m' hm' => ?_)
    · obtain ⟨x, hx'⟩ := hm ((mem_members t).1 (hs ▸ List.mem_append_right _ (.head _)))
      rw [hx] at hx'
      cases hx'
    · obtain ⟨p, hp, -⟩ := placeOne_placements d' m.1 m.2 x
      rw [hp, Table.get?_insert_eq]
      split
      · exact ⟨p, rfl⟩
      · rename_i hne
        refine hd m' ((List.mem_append.1 hm').resolve_right fun h => hne ?_)
        rw [List.mem_singleton.1 h]
  intro c e ho
  rw [(place_ground d).hierarchy] at ho
  exact hall (c, e) ((mem_members t).2 ho)

theorem place_standing (d : Drawing ℝ) : Standing d.place.state := by
  refine place_keeps (I := fun _ d' => Standing d') (fun {e p} hp => ?_) (fun _ _ h => h)
    fun {done m rest d' x} _ _ _ hd {e p} hp => ?_
  · cases (Table.get?_empty e).symm.trans hp
  · obtain ⟨q, hq, hfoot⟩ := placeOne_placements d' m.1 m.2 x
    rw [hq, Table.get?_insert_eq] at hp
    split at hp
    · cases hp
      rw [hfoot]
      exact Rect.fromCenter_upright _ _ _
    · exact hd hp

/-- **Every element is placed to scale.** -/
theorem place_toScale (hs : d.scale.Proper) : ToScale d d.place.state := by
  refine place_keeps (I := fun _ d' => ToScale d d') (fun {e p x} hp => ?_) (fun _ _ h => h)
    fun {done m rest d' x'} _ hg hx' hd {e p x} hp hx hproper => ?_
  · cases (Table.get?_empty e).symm.trans hp
  · obtain ⟨q, hq, hfoot⟩ := placeOne_placements d' m.1 m.2 x'
    rw [hq, Table.get?_insert_eq] at hp
    split at hp
    · rename_i he
      cases hp
      subst he
      cases hx.symm.trans hx'
      rw [hfoot, hg.scale]
      exact ⟨Rect.width_fromCenter _ _ (div_nonneg hproper.width.le hs.width_pos.le),
        Rect.height_fromCenter _ _ (div_nonneg hproper.height hs.height_pos.le)⟩
    · exact hd hp hx hproper

variable (hr : Ready d)
include hr

/-- **Every element is placed inside its container.** -/
theorem place_inside : Inside d.place.state := by
  refine place_keeps (I := fun _ d' => Inside d') (fun {c e p box} _ hp => ?_) (fun _ _ h => h)
    fun {done m rest d' x} hs hg hx hd {c e p box} ho hp hb => ?_
  · cases (Table.get?_empty e).symm.trans hp
  · have hg' := placeOne_ground d' m.1 m.2 x
    rw [hg'.hierarchy] at ho
    rw [hg'.boxes] at hb
    rw [inner_congr hg'.settings hg'.scale]
    obtain ⟨q, hq, hfoot⟩ := placeOne_placements d' m.1 m.2 x
    rw [hq, Table.get?_insert_eq] at hp
    split at hp
    · rename_i he
      cases hp
      subst he
      have hm := (mem_members hr.tree).1 (hs ▸ List.mem_append_right _ (.head _))
      rw [hg.hierarchy, hm] at ho
      cases ho
      rw [hfoot]
      exact (spotFor_spec (hr.of_ground hg) (hg.hierarchy ▸ hm) (hg.extents ▸ hx) hb rfl).1
    · exact hd ho hp hb

/-- **Every element is placed clear of the child containers** when half the gap exceeds the
tolerance. -/
theorem place_clear (hgap : epsilon ≤ d.unitGap.2 / 2) : Clear d.place.state := by
  refine place_keeps (I := fun _ d' => Clear d') (fun {c b e p bbox} _ _ hp => ?_) (fun _ _ h => h)
    fun {done m rest d' x} hs hg hx hd {c b e p bbox} ho hpar hp hbb => ?_
  · cases (Table.get?_empty e).symm.trans hp
  · have hg' := placeOne_ground d' m.1 m.2 x
    rw [hg'.hierarchy] at ho hpar
    rw [hg'.boxes] at hbb
    obtain ⟨q, hq, hfoot⟩ := placeOne_placements d' m.1 m.2 x
    rw [hq, Table.get?_insert_eq] at hp
    split at hp
    · rename_i he
      cases hp
      subst he
      have hm := (mem_members hr.tree).1 (hs ▸ List.mem_append_right _ (.head _))
      have hm' : d'.hierarchy.owners.get? m.2 = some m.1 := hg.hierarchy ▸ hm
      cases hm'.symm.trans ho
      have hr' := hr.of_ground hg
      obtain ⟨box, hb⟩ := hr'.boxed (hr'.tree.known_of_owner hm')
      have hsettles := (spotFor_spec hr' hm' (hg.extents ▸ hx) hb rfl).2 (hg.unitGap ▸ hgap)
      rw [hfoot]
      exact hsettles.clear _ ((mem_childZones hr'.tree).2 ⟨b, hpar, hbb⟩)
    · exact hd ho hpar hp hbb

end

end NestedLayout.Drawing
