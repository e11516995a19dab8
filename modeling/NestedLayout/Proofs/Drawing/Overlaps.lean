import NestedLayout.Proofs.Drawing.Failures
import NestedLayout.Proofs.Drawing.Furnished
import NestedLayout.Proofs.Drawing.Tight
import NestedLayout.Proofs.Pairs

/-!
# Overlaps that remain

Separation notes the overlaps in a container when it is done with it, before it turns to the next
one. These are the overlaps in the end: the elements of a container only move with it from there on,
all in the same way.

* `separate_notes`: separation notes the overlaps of the drawing that it leaves.
* `compact_overlaps`: compaction leaves them as they are.
-/

set_option autoImplicit false

namespace NestedLayout

/-- None of the notes is about a collision. -/
def Note.NoCollision (notes : List Note) : Prop := ∀ n ∈ notes, n.topic ≠ .collision

theorem Note.NoCollision.nil : NoCollision [] := fun _ hn => absurd hn List.not_mem_nil

theorem Note.NoCollision.append {l l' : List Note} (h : NoCollision l) (h' : NoCollision l') :
    NoCollision (l ++ l') := fun n hn => (List.mem_append.1 hn).elim (h n) (h' n)

namespace Drawing

variable {α : Type} [Scalar α]

/-- The elements of a list that have places, with their footprints. -/
def footprintsOf (d : Drawing α) (ids : List String) : List (String × Rect α) :=
  ids.filterMap fun id => (d.placements.get? id).map fun p => (id, p.footprint)

/-- The pairs of elements of one container that overlap, container by container. -/
def overlaps (d : Drawing α) : List (String × String) :=
  d.hierarchy.preOrder.flatMap fun c => d.overlappingPairs (d.hierarchy.elements c)

theorem overlappingPairs_eq (d : Drawing α) (ids : List String) :
    d.overlappingPairs ids = relatedPairs Rect.intersects (d.footprintsOf ids) := rfl

omit [Scalar α] in
theorem footprintsOf_congr {d d' : Drawing α} {ids : List String}
    (h : ∀ e ∈ ids, (d'.placements.get? e).map (·.footprint) =
      (d.placements.get? e).map (·.footprint)) : d'.footprintsOf ids = d.footprintsOf ids := by
  refine List.filterMap_congr fun e he => ?_
  have hpair : ∀ d : Drawing α, ((d.placements.get? e).map fun p => (e, p.footprint)) =
      ((d.placements.get? e).map (·.footprint)).map fun r => (e, r) := fun d => by
    rw [Option.map_map]
    rfl
  rw [hpair, hpair, h e he]

theorem SameView.overlappingPairs {d d' : Drawing ℝ} (h : SameView d d') (ids : List String) :
    d'.overlappingPairs ids = d.overlappingPairs ids := by
  rw [overlappingPairs_eq, overlappingPairs_eq, footprintsOf, footprintsOf, h.placements]

theorem SameView.overlaps {d d' : Drawing ℝ} (h : SameView d d') : d'.overlaps = d.overlaps := by
  rw [Drawing.overlaps, Drawing.overlaps, h.hierarchy]
  exact List.flatMap_congr fun c _ => h.overlappingPairs _

omit [Scalar α] in
theorem mem_footprintsOf {d : Drawing α} {ids : List String} {e : String} {r : Rect α} :
    (e, r) ∈ d.footprintsOf ids ↔
      e ∈ ids ∧ ∃ p, d.placements.get? e = some p ∧ p.footprint = r := by
  simp only [footprintsOf, List.mem_filterMap, Option.map_eq_some_iff, Prod.mk.injEq]
  refine ⟨?_, ?_⟩
  · rintro ⟨id, hid, p, hp, rfl, rfl⟩
    exact ⟨hid, p, hp, rfl⟩
  · rintro ⟨he, p, hp, rfl⟩
    exact ⟨e, he, p, hp, rfl, rfl⟩

omit [Scalar α] in
theorem nodup_footprintsOf {d : Drawing α} {ids : List String} (h : ids.Nodup) :
    ((d.footprintsOf ids).map (·.1)).Nodup := by
  rw [footprintsOf, List.map_filterMap]
  refine h.filterMap fun x y e hx hy => ?_
  simp only [Option.map_map, Option.mem_def, Option.map_eq_some_iff] at hx hy
  obtain ⟨p, -, rfl⟩ := hx
  obtain ⟨q, -, rfl⟩ := hy
  rfl

/-- Fewer than two elements do not overlap. -/
theorem overlappingPairs_of_few {d : Drawing α} {ids : List String} (h : ids.length < 2) :
    d.overlappingPairs ids = [] := by
  have hfew : (d.footprintsOf ids).length < 2 := (List.length_filterMap_le _ _).trans_lt h
  rw [overlappingPairs_eq]
  match d.footprintsOf ids, hfew with
  | [], _ => rfl
  | [_], _ => rfl

section
variable {d : Drawing ℝ} (t : d.hierarchy.IsTree) {a b : String}
include t

theorem mem_overlappingPairs {c : String} :
    s(a, b) ∈ unordered (d.overlappingPairs (d.hierarchy.elements c)) ↔
      a ≠ b ∧ ∃ p q, d.hierarchy.owners.get? a = some c ∧ d.hierarchy.owners.get? b = some c ∧
        d.placements.get? a = some p ∧ d.placements.get? b = some q ∧
        p.footprint.intersects q.footprint = true := by
  rw [overlappingPairs_eq, mem_unordered_relatedPairs (nodup_footprintsOf (t.nodupElements c))
    Rect.intersects_comm]
  refine and_congr_right fun _ => ⟨?_, ?_⟩
  · rintro ⟨x, y, hx, hy, hxy⟩
    obtain ⟨ha, p, hp, rfl⟩ := mem_footprintsOf.1 hx
    obtain ⟨hb, q, hq, rfl⟩ := mem_footprintsOf.1 hy
    exact ⟨p, q, t.mem_elements.1 ha, t.mem_elements.1 hb, hp, hq, hxy⟩
  · rintro ⟨p, q, ha, hb, hp, hq, hxy⟩
    exact ⟨_, _, mem_footprintsOf.2 ⟨t.mem_elements.2 ha, p, hp, rfl⟩,
      mem_footprintsOf.2 ⟨t.mem_elements.2 hb, q, hq, rfl⟩, hxy⟩

/-- **What overlaps in a drawing** are different elements of one container whose footprints meet. -/
theorem mem_overlaps : s(a, b) ∈ unordered d.overlaps ↔
    a ≠ b ∧ ∃ c p q, d.hierarchy.owners.get? a = some c ∧ d.hierarchy.owners.get? b = some c ∧
      d.placements.get? a = some p ∧ d.placements.get? b = some q ∧
      p.footprint.intersects q.footprint = true := by
  rw [unordered, overlaps, List.map_flatMap, List.mem_flatMap]
  refine ⟨?_, ?_⟩
  · rintro ⟨c, -, h⟩
    obtain ⟨hne, p, q, h⟩ := (mem_overlappingPairs t).1 h
    exact ⟨hne, c, p, q, h⟩
  · rintro ⟨hne, c, p, q, h⟩
    exact ⟨c, t.mem_preOrder.2 (t.known_of_owner h.1), (mem_overlappingPairs t).2 ⟨hne, p, q, h⟩⟩

/-- No two elements overlap twice: an element is in one container only. -/
theorem nodup_overlaps : (unordered d.overlaps).Nodup := by
  rw [unordered, overlaps, List.map_flatMap, List.nodup_flatMap]
  refine ⟨fun c _ => nodup_unordered_relatedPairs (nodup_footprintsOf (t.nodupElements c)), ?_⟩
  refine t.nodup_preOrder.imp fun {c c'} hne z hz hz' => hne ?_
  induction z using Sym2.ind with
  | h a b =>
    obtain ⟨-, -, -, ha, -⟩ := (mem_overlappingPairs t).1 hz
    obtain ⟨-, -, -, ha', -⟩ := (mem_overlappingPairs t).1 hz'
    exact Option.some.inj (ha.symm.trans ha')

end

/-! ## Separation -/

theorem followPush_get?_of_ne {container : String} {room : Rect α} {zones : List (Rect α)}
    {d : Drawing α} {item : Separation.Item α} {e : String} (he : e ≠ item.id) :
    (followPush container room zones d item).placements.get? e = d.placements.get? e := by
  unfold followPush
  split
  · rfl
  · split
    · rfl
    · dsimp only
      split
      · rfl
      · exact Table.get?_insert_ne _ _ he

section
variable {d : Drawing ℝ} {c : String}

/-- When all elements are placed, all of them take part. -/
theorem separationItems_ids (t : d.hierarchy.IsTree) (h : AllPlaced d) (c : String) :
    (d.separationItems c).map (·.id) = d.hierarchy.elements c := by
  rw [separationItems, List.map_filterMap]
  refine (List.filterMap_congr fun e he => ?_).trans List.filterMap_some
  obtain ⟨p, hp⟩ := h (t.mem_elements.1 he)
  rw [hp]
  rfl

/-- Separating the elements of a container leaves all others where they are. -/
theorem separateIn_get?_of_not_mem {u : Untangling ℝ} {e : String}
    (he : e ∉ u.drawing.hierarchy.elements c) :
    (separateIn u c).drawing.placements.get? e = u.drawing.placements.get? e := by
  have hitems : ∀ item ∈ (Separation.pass (u.drawing.separationItems c)).1,
      item.id ∈ u.drawing.hierarchy.elements c :=
    Separation.pass_keeps (fun _ _ _ h => h) fun item hi => by
      obtain ⟨e', p, he', -, rfl⟩ := mem_separationItems.1 hi
      exact he'
  unfold separateIn
  dsimp only
  split
  · rfl
  · split
    · rfl
    · refine Fold.keeps (fun _ (d' : Drawing ℝ) =>
        d'.placements.get? e = u.drawing.placements.get? e) rfl fun done item rest d' hs hd => ?_
      have hmem := hitems item (hs ▸ List.mem_append_right done (.head rest))
      exact (followPush_get?_of_ne fun (h : e = item.id) => he (h.symm ▸ hmem)).trans hd

/-- Separation notes what still overlaps in a container. -/
theorem separateIn_notes {u : Untangling ℝ} (t : u.drawing.hierarchy.IsTree)
    (hplaced : AllPlaced u.drawing) (hroom : u.drawing.ledger.allotments.contains c = true) :
    (separateIn u c).notes = u.notes ++ ((separateIn u c).drawing.overlappingPairs
      (u.drawing.hierarchy.elements c)).map overlapNote := by
  have hids := separationItems_ids t hplaced c
  obtain ⟨a, ha⟩ := Table.contains_iff.1 hroom
  unfold separateIn
  dsimp only
  split
  · rename_i hfew
    rw [← List.length_map (f := (·.id)), hids] at hfew
    rw [overlappingPairs_of_few hfew, List.map_nil, List.append_nil]
  · rw [ha, hids]

/-- **Separation notes the overlaps that it leaves**, when every container has its room. -/
theorem separate_notes (t : d.hierarchy.IsTree) (hplaced : AllPlaced d)
    (hroom : ∀ c, d.hierarchy.containers.contains c = true →
      d.ledger.allotments.contains c = true) :
    d.separate.notes = d.separate.state.overlaps.map overlapNote := by
  have hfold := Fold.keeps (f := separateIn) (l := d.hierarchy.preOrder) (b := ⟨d, []⟩)
    (fun done u => SameGround d u.drawing ∧ AllPlaced u.drawing ∧ u.notes =
      (done.flatMap fun c => u.drawing.overlappingPairs (d.hierarchy.elements c)).map overlapNote)
    ⟨.refl _, hplaced, rfl⟩ fun done c rest u hs ⟨hg, hu, hnotes⟩ => by
      have tu : u.drawing.hierarchy.IsTree := hg.hierarchy ▸ t
      have hin := t.preOrder_split hs
      have hroom' := (hg.rooms.contains c).trans (hroom c hin.known)
      -- the elements of the containers that are done are not those of this one
      have hdone : ∀ c' ∈ done, (separateIn u c).drawing.overlappingPairs
          (d.hierarchy.elements c') = u.drawing.overlappingPairs (d.hierarchy.elements c') := by
        intro c' hc'
        rw [overlappingPairs_eq, overlappingPairs_eq, footprintsOf_congr fun e he => ?_]
        rw [separateIn_get?_of_not_mem fun he' => hin.notDone ?_]
        rw [hg.hierarchy] at he'
        cases (t.mem_elements.1 he).symm.trans (t.mem_elements.1 he')
        exact hc'
      refine ⟨hg.trans (separateIn_ground u c), separateIn_keeps t AllPlaced.congr
        (fun _ hp h => hp.allPlaced h) hg hu c, ?_⟩
      rw [separateIn_notes tu hu hroom', hnotes, List.flatMap_append, List.flatMap_singleton,
        List.map_append, hg.hierarchy]
      exact congrArg (· ++ _) (congrArg _ (List.flatMap_congr fun c' hc' => (hdone c' hc').symm))
  obtain ⟨hg, -, hnotes⟩ := hfold
  rw [overlaps, (separate_ground d).hierarchy]
  exact hnotes

/-! ## Compaction -/

/-- **Moving a subtree keeps the overlaps in a container**: its elements all move alike. -/
theorem translateSubtree_overlappingPairs (t : d.hierarchy.IsTree) (j c : String) (dx dy : ℝ) :
    (d.translateSubtree j dx dy).overlappingPairs (d.hierarchy.elements c) =
      d.overlappingPairs (d.hierarchy.elements c) := by
  rw [overlappingPairs_eq, overlappingPairs_eq]
  by_cases hjc : d.hierarchy.Encloses j c
  · have hmoved : (d.translateSubtree j dx dy).footprintsOf (d.hierarchy.elements c) =
        (d.footprintsOf (d.hierarchy.elements c)).map fun e => (e.1, e.2.translate dx dy) := by
      rw [footprintsOf, footprintsOf, List.map_filterMap]
      refine List.filterMap_congr fun e he => ?_
      have hmem : e ∈ d.hierarchy.subtreeElements j :=
        t.mem_subtreeElements.2 ⟨c, t.mem_elements.1 he, hjc⟩
      rw [translateSubtree_placement]
      simp only [List.contains_iff_mem, hmem, if_true, Option.map_map]
      rfl
    rw [hmoved, relatedPairs_map _ fun r => Rect.translate r dx dy]
    simp only [Rect.intersects_translate]
  · rw [footprintsOf_congr fun e he =>
      translateSubtree_footprint_outside t (t.mem_elements.1 he) hjc]

theorem setBox_overlappingPairs (d : Drawing ℝ) (id : String) (box : Rect ℝ) (ids : List String) :
    (d.setBox id box).overlappingPairs ids = d.overlappingPairs ids := by
  unfold setBox
  split <;> rfl

/-- **A compaction that succeeds leaves the overlaps as they are**, and the number of them that
separation has counted. -/
theorem compact_overlaps (t : d.hierarchy.IsTree) (hf : d.compact.failure = none) :
    d.compact.state.overlaps = d.overlaps ∧
      d.compact.state.metrics.remainingOverlaps = d.metrics.remainingOverlaps := by
  cases hfold : d.hierarchy.postOrder.foldlM compactOne ⟨d, 0⟩ with
  | error f => simp [compact, hfold] at hf
  | ok s =>
    have hkept : s.drawing.hierarchy = d.hierarchy ∧
        ∀ c, s.drawing.overlappingPairs (d.hierarchy.elements c) =
          d.overlappingPairs (d.hierarchy.elements c) := by
      refine foldlM_compactOne_keeps (I := fun d' => d'.hierarchy = d.hierarchy ∧
        ∀ c, d'.overlappingPairs (d.hierarchy.elements c) =
          d.overlappingPairs (d.hierarchy.elements c))
        (fun {d'} root dx dy hd => ⟨hd.1, fun c => ?_⟩)
        (fun {d'} id box hd => ⟨?_, fun c => ?_⟩) hfold ⟨rfl, fun _ => rfl⟩
      · rw [← hd.2 c, ← hd.1]
        exact translateSubtree_overlappingPairs (hd.1 ▸ t) root c dx dy
      · rw [← hd.1]
        unfold setBox
        split <;> rfl
      · rw [setBox_overlappingPairs, hd.2 c]
    obtain ⟨hview, -⟩ := compact_of_ok hfold
    have hmetrics := foldlM_compactOne_metrics hfold
    refine ⟨?_, ?_⟩
    · rw [hview.overlaps, overlaps, overlaps, hkept.1]
      exact List.flatMap_congr fun c _ => hkept.2 c
    · rw [compact_eq_finished hfold]
      unfold Shifting.finished
      dsimp only
      split
      · show s.drawing.metrics.remainingOverlaps = _
        rw [hmetrics]
      · show s.drawing.metrics.remainingOverlaps = _
        rw [hmetrics]

/-- Compaction leaves footprints upright and works at one scale. -/
theorem compact_standing (hf : d.compact.failure = none) (hstand : d.Standing) :
    d.compact.state.Standing ∧ d.compact.state.scale = d.scale := by
  cases hfold : d.hierarchy.postOrder.foldlM compactOne ⟨d, 0⟩ with
  | error f => simp [compact, hfold] at hf
  | ok s =>
    have hbox : ∀ {d' : Drawing ℝ} id box, d'.Standing ∧ d'.scale = d.scale →
        (d'.setBox id box).Standing ∧ (d'.setBox id box).scale = d.scale := by
      intro d' id box h
      unfold setBox
      split <;> exact h
    have hkept : s.drawing.Standing ∧ s.drawing.scale = d.scale :=
      foldlM_compactOne_keeps (I := fun d' => d'.Standing ∧ d'.scale = d.scale)
        (fun root dx dy h => ⟨translateSubtree_standing h.1 root dx dy, h.2⟩) hbox hfold
        ⟨hstand, rfl⟩
    obtain ⟨hview, -⟩ := compact_of_ok hfold
    exact ⟨Standing.congr hview hkept.1, hview.scale.trans hkept.2⟩

/-! ## Furnished drawings -/

/-- A furnished drawing has the overlaps that separation has noted and counted. -/
theorem furnished_overlaps (t : d.hierarchy.IsTree)
    (hm : ∀ {c e}, d.hierarchy.owners.get? e = some c → ∃ x, d.extents.get? e = some x)
    (hroom : ∀ c, d.hierarchy.containers.contains c = true →
      d.ledger.allotments.contains c = true) :
    d.place.state.separate.notes = d.furnished.overlaps.map overlapNote ∧
      d.furnished.metrics.remainingOverlaps = d.furnished.overlaps.length := by
  have hg := place_ground d
  have hnotes := separate_notes (d := d.place.state) (hg.hierarchy ▸ t) (place_allPlaced t hm)
    fun c hc => (hg.rooms.contains c).trans (hroom c (hg.hierarchy ▸ hc))
  have hcount : d.furnished.metrics.remainingOverlaps = d.place.state.separate.notes.length := rfl
  rw [(furnished_view d).overlaps, hcount, hnotes, List.length_map]
  exact ⟨rfl, rfl⟩

end

/-! ## Other notes -/

theorem size_noCollision {sizer : Sizer α} {d : Drawing α} {step : Step (Drawing α)}
    (hs : d.size sizer = some step) : Note.NoCollision step.notes := by
  obtain ⟨p, -, hstep⟩ := Option.bind_eq_some_iff.1 hs
  cases hstep
  have hsizer : Note.NoCollision (sizerNotes sizer p.failure) := fun n hn => by
    obtain ⟨e, -, rfl⟩ := List.mem_map.1 hn
    exact Topic.noConfusion
  have hrepair : ∀ corrections, Note.NoCollision (repairNotes corrections) := by
    intro corrections n hn
    unfold repairNotes at hn
    split at hn
    · rw [List.mem_singleton.1 hn]
      exact Topic.noConfusion
    · cases hn
  unfold settleBoxes
  dsimp only
  split
  · exact hsizer
  · split
    · exact hsizer.append (hrepair _)
    · exact hsizer.append (hrepair _)

theorem place_noCollision (d : Drawing α) : Note.NoCollision d.place.notes := by
  refine Fold.keeps (fun _ (step : Step (Drawing α)) => Note.NoCollision step.notes) .nil
    fun _ m _ step _ hs => ?_
  split
  · exact hs
  · refine hs.append fun n hn => ?_
    unfold placeOne at hn
    dsimp only at hn
    split at hn
    · rw [List.mem_singleton.1 hn]
      exact Topic.noConfusion
    · cases hn

theorem compact_noCollision (d : Drawing α) : Note.NoCollision d.compact.notes := by
  unfold compact
  split
  · exact .nil
  · intro n hn
    simp only [shiftNotes] at hn
    split at hn
    · rw [List.mem_singleton.1 hn]
      exact Topic.noConfusion
    · cases hn

end Drawing

end NestedLayout
