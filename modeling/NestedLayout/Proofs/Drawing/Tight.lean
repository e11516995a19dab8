import NestedLayout.Proofs.Drawing.Moves
import NestedLayout.Proofs.Drawing.Separated

/-!
# Tight boxes

Compaction gives the containers their tight boxes from the inside out, and on the way it moves
whole subtrees. `Tight` is what it has reached when the given containers are done: each of them has
an upright box, and that box is the hull of its contents with the padding around it.

* `Tight.translateSubtree`: moving a child of the container at hand breaks no box that is done: a
  done container moves with all its contents or not at all.
* `Tight.setBox`: the container at hand joins those that are done.
* `compact_tight`: when compaction succeeds, all boxes are tight and valid.

Nothing is asked of the boxes before compaction.
-/

set_option autoImplicit false

namespace NestedLayout.Drawing

/-! ## Contents -/

/-- The boxes and footprints directly inside a container. -/
def contents (d : Drawing ℝ) (id : String) : List (Rect ℝ) :=
  (d.hierarchy.children id).filterMap d.boxes.get? ++
    (d.hierarchy.elements id).filterMap fun e => (d.placements.get? e).map (·.footprint)

theorem mem_contents {d : Drawing ℝ} (t : d.hierarchy.IsTree) {id : String} {r : Rect ℝ} :
    r ∈ d.contents id ↔
      (∃ b, d.hierarchy.parent? b = some id ∧ d.boxes.get? b = some r) ∨
        ∃ e p, d.hierarchy.owners.get? e = some id ∧ d.placements.get? e = some p ∧
          p.footprint = r := by
  simp only [contents, List.mem_append, List.mem_filterMap, t.mem_children, t.mem_elements,
    Option.map_eq_some_iff, exists_and_left]

theorem SameView.contents {d d' : Drawing ℝ} (h : SameView d d') : d'.contents = d.contents := by
  funext id
  rw [Drawing.contents, Drawing.contents, h.hierarchy, h.boxes, h.placements]

theorem SameView.unitPadding {d d' : Drawing ℝ} (h : SameView d d') :
    d'.unitPadding = d.unitPadding := by
  rw [Drawing.unitPadding, Drawing.unitPadding, h.settings, h.scale]

theorem tightBox_of_hull {d : Drawing ℝ} {id : String} {c : Container} {hull : Rect ℝ}
    (hc : d.hierarchy.container? id = some c) (h : Rect.unionAll? (d.contents id) = some hull) :
    d.tightBox c = hull.inflate d.unitPadding.1 d.unitPadding.2 := by
  rw [contents, Hierarchy.container?_children hc, Hierarchy.container?_elements hc] at h
  simp only [tightBox, h]

theorem tightBox_of_empty {d : Drawing ℝ} {id : String} {c : Container}
    (hc : d.hierarchy.container? id = some c) (h : Rect.unionAll? (d.contents id) = none) :
    d.tightBox c = d.emptyBox c.id := by
  rw [contents, Hierarchy.container?_children hc, Hierarchy.container?_elements hc] at h
  simp only [tightBox, h]

theorem emptyBox_upright (d : Drawing ℝ) (id : String) : (d.emptyBox id).Upright := by
  unfold emptyBox
  dsimp only
  split <;> exact Rect.fromCenter_upright _ _ _

theorem setBox_known {d : Drawing ℝ} {id : String} (hid : d.hierarchy.containers.contains id = true)
    (box : Rect ℝ) : d.setBox id box = { d with boxes := d.boxes.insert id box } := if_pos hid

/-- A new box for a container shows only in the contents of its parent. -/
theorem setBox_contents {d : Drawing ℝ} (t : d.hierarchy.IsTree) {id x : String}
    (hid : d.hierarchy.containers.contains id = true) (hx : d.hierarchy.parent? id ≠ some x)
    (box : Rect ℝ) : (d.setBox id box).contents x = d.contents x := by
  rw [setBox_known hid]
  refine congrArg (· ++ _) (List.filterMap_congr fun b hb => ?_)
  refine Table.get?_insert_ne _ _ fun he => hx ?_
  rw [← he]
  exact t.mem_children.1 hb

/-! ## Moving a subtree -/

section
variable {d : Drawing ℝ} {j x e c : String} {dx dy : ℝ}

theorem translateSubtree_placement (d : Drawing ℝ) (j e : String) (dx dy : ℝ) :
    (d.translateSubtree j dx dy).placements.get? e = (d.placements.get? e).map fun p =>
      if (d.hierarchy.subtreeElements j).contains e then p.translate dx dy else p :=
  Table.get?_map _ _ _

theorem translateSubtree_standing (h : d.Standing) (j : String) (dx dy : ℝ) :
    (d.translateSubtree j dx dy).Standing := by
  intro e p he
  rw [translateSubtree_placement] at he
  obtain ⟨q, hq, rfl⟩ := Option.map_eq_some_iff.1 he
  split
  · exact Rect.translate_upright (h hq)
  · exact h hq

variable (t : d.hierarchy.IsTree)
include t

theorem translateSubtree_box_inside (h : d.hierarchy.Encloses j x) :
    (d.translateSubtree j dx dy).boxes.get? x =
      (d.boxes.get? x).map fun box => box.translate dx dy := by
  refine (Table.get?_map _ _ _).trans ?_
  simp only [List.contains_iff_mem, t.mem_subtree, h, if_true]

theorem translateSubtree_box_outside (h : ¬ d.hierarchy.Encloses j x) :
    (d.translateSubtree j dx dy).boxes.get? x = d.boxes.get? x := by
  refine (Table.get?_map _ _ _).trans ?_
  simp only [List.contains_iff_mem, t.mem_subtree, h, if_false, Option.map_id']

theorem translateSubtree_footprint_inside (ho : d.hierarchy.owners.get? e = some c)
    (h : d.hierarchy.Encloses j c) :
    ((d.translateSubtree j dx dy).placements.get? e).map (·.footprint) =
      ((d.placements.get? e).map (·.footprint)).map fun r => r.translate dx dy := by
  have hmem : e ∈ d.hierarchy.subtreeElements j := t.mem_subtreeElements.2 ⟨c, ho, h⟩
  rw [translateSubtree_placement, Option.map_map, Option.map_map]
  simp only [List.contains_iff_mem, hmem, if_true]
  rfl

theorem translateSubtree_footprint_outside (ho : d.hierarchy.owners.get? e = some c)
    (h : ¬ d.hierarchy.Encloses j c) :
    ((d.translateSubtree j dx dy).placements.get? e).map (·.footprint) =
      (d.placements.get? e).map (·.footprint) := by
  have hmem : e ∉ d.hierarchy.subtreeElements j := fun hm => by
    obtain ⟨c', ho', hc'⟩ := t.mem_subtreeElements.1 hm
    cases ho.symm.trans ho'
    exact h hc'
  rw [translateSubtree_placement]
  simp only [List.contains_iff_mem, hmem, if_false, Option.map_id']

/-- A container in the subtree moves with all its contents. -/
theorem translateSubtree_contents_inside (h : d.hierarchy.Encloses j x) :
    (d.translateSubtree j dx dy).contents x =
      (d.contents x).map fun r => r.translate dx dy := by
  rw [contents, contents, List.map_append, List.map_filterMap, List.map_filterMap]
  refine congrArg₂ _ (List.filterMap_congr fun b hb => ?_) (List.filterMap_congr fun e he => ?_)
  · exact translateSubtree_box_inside t (h.trans (.of_parent (t.mem_children.1 hb)))
  · exact translateSubtree_footprint_inside t (t.mem_elements.1 he) h

/-- Outside the subtree only the contents of the parent of its root change. -/
theorem translateSubtree_contents_outside (h : ¬ d.hierarchy.Encloses j x)
    (hp : d.hierarchy.parent? j ≠ some x) :
    (d.translateSubtree j dx dy).contents x = d.contents x := by
  rw [contents, contents]
  refine congrArg₂ _ (List.filterMap_congr fun b hb => ?_) (List.filterMap_congr fun e he => ?_)
  · have hx : d.hierarchy.parent? b = some x := t.mem_children.1 hb
    refine translateSubtree_box_outside t fun hjb => ?_
    rcases Relation.ReflTransGen.cases_tail hjb with rfl | ⟨q, hjq, hq⟩
    · exact hp hx
    · cases hx.symm.trans hq
      exact h hjq
  · exact translateSubtree_footprint_outside t (t.mem_elements.1 he) h

end

/-! ## What compaction keeps -/

/-- What the compaction of a drawing has reached when the given containers are done. -/
structure Tight (d₀ : Drawing ℝ) (done : List String) (d : Drawing ℝ) : Prop where
  hierarchy : d.hierarchy = d₀.hierarchy
  settings : d.settings = d₀.settings
  scale : d.scale = d₀.scale
  placed : AllPlaced d
  standing : Standing d
  boxed : ∀ {id}, id ∈ done → ∃ box, d.boxes.get? id = some box ∧ box.Upright
  tight : ∀ {id box hull}, id ∈ done → d.boxes.get? id = some box →
    Rect.unionAll? (d.contents id) = some hull →
    box = hull.inflate d₀.unitPadding.1 d₀.unitPadding.2

section
variable {d₀ d : Drawing ℝ} {done : List String} {id : String}

theorem Tight.unitPadding (h : Tight d₀ done d) : d.unitPadding = d₀.unitPadding := by
  rw [Drawing.unitPadding, Drawing.unitPadding, h.settings, h.scale]

theorem Tight.congr {d' : Drawing ℝ} (h : Tight d₀ done d) (hv : SameView d d') :
    Tight d₀ done d' where
  hierarchy := hv.hierarchy.trans h.hierarchy
  settings := hv.settings.trans h.settings
  scale := hv.scale.trans h.scale
  placed := AllPlaced.congr hv h.placed
  standing := Standing.congr hv h.standing
  boxed := fun {id} hid => by
    rw [hv.boxes]
    exact h.boxed hid
  tight := fun {id box hull} hid hb hu => by
    rw [hv.boxes] at hb
    rw [hv.contents] at hu
    exact h.tight hid hb hu

variable (t : d₀.hierarchy.IsTree)
include t

/-- **Moving a child of the container at hand** leaves the boxes that are done tight. -/
theorem Tight.translateSubtree (h : Tight d₀ done d) {j : String}
    (hp : d₀.hierarchy.parent? j = some id) (hid : id ∉ done) (dx dy : ℝ) :
    Tight d₀ done (d.translateSubtree j dx dy) := by
  have t' : d.hierarchy.IsTree := h.hierarchy ▸ t
  have hp' : d.hierarchy.parent? j = some id := h.hierarchy ▸ hp
  refine ⟨h.hierarchy, h.settings, h.scale, fun {c e} ho => ?placed,
    translateSubtree_standing h.standing j dx dy, fun {x} hx => ?boxed,
    fun {x box hull} hx hb hu => ?tight⟩
  case placed =>
    obtain ⟨p, hp⟩ := h.placed ho
    rw [translateSubtree_placement, hp]
    exact ⟨_, rfl⟩
  case boxed =>
    obtain ⟨box, hb, hup⟩ := h.boxed hx
    by_cases hjx : d.hierarchy.Encloses j x
    · rw [translateSubtree_box_inside t' hjx, hb]
      exact ⟨_, rfl, Rect.translate_upright hup⟩
    · rw [translateSubtree_box_outside t' hjx]
      exact ⟨box, hb, hup⟩
  case tight =>
    by_cases hjx : d.hierarchy.Encloses j x
    · -- the box and the hull move alike
      rw [translateSubtree_box_inside t' hjx] at hb
      rw [translateSubtree_contents_inside t' hjx, Rect.unionAll?_translate] at hu
      obtain ⟨box', hb', rfl⟩ := Option.map_eq_some_iff.1 hb
      obtain ⟨hull', hu', rfl⟩ := Option.map_eq_some_iff.1 hu
      rw [h.tight hx hb' hu', Rect.inflate_translate]
    · -- the container at hand is the only other one with contents that move
      have hne : d.hierarchy.parent? j ≠ some x := by
        rw [hp']
        rintro ⟨⟩
        exact hid hx
      rw [translateSubtree_box_outside t' hjx] at hb
      rw [translateSubtree_contents_outside t' hjx hne] at hu
      exact h.tight hx hb hu

/-- The contents of a container are upright when its children are done. -/
theorem Tight.contents_upright (h : Tight d₀ done d)
    (hdone : ∀ {b}, d₀.hierarchy.parent? b = some id → b ∈ done) :
    ∀ r ∈ d.contents id, r.Upright := by
  have t' : d.hierarchy.IsTree := h.hierarchy ▸ t
  intro r hr
  rcases (mem_contents t').1 hr with ⟨b, hb, hbox⟩ | ⟨e, p, -, hp, rfl⟩
  · obtain ⟨box, hbox', hup⟩ := h.boxed (hdone (h.hierarchy ▸ hb))
    cases hbox.symm.trans hbox'
    exact hup
  · exact h.standing hp

theorem Tight.tightBox_upright (h : Tight d₀ done d)
    (hpad : 0 ≤ d₀.unitPadding.1 ∧ 0 ≤ d₀.unitPadding.2)
    (hout : d₀.hierarchy.OutwardAt done id) {c : Container}
    (hc : d.hierarchy.container? id = some c) : (d.tightBox c).Upright := by
  cases hu : Rect.unionAll? (d.contents id) with
  | none =>
    rw [tightBox_of_empty hc hu]
    exact emptyBox_upright d _
  | some hull =>
    have hne : d.contents id ≠ [] := fun hn => by
      rw [hn] at hu
      cases hu
    have hup := h.contents_upright t fun hb => hout.nestedDone (.of_parent hb) (t.child_ne hb)
    rw [tightBox_of_hull hc hu, h.unitPadding]
    exact Rect.inflate_upright ((Rect.unionAll?_isHull hu).upright hne hup) hpad.1 hpad.2

/-- **The container at hand gets its tight box.** -/
theorem Tight.setBox (h : Tight d₀ done d) (hpad : 0 ≤ d₀.unitPadding.1 ∧ 0 ≤ d₀.unitPadding.2)
    (hout : d₀.hierarchy.OutwardAt done id) {c : Container}
    (hc : d.hierarchy.container? id = some c) :
    Tight d₀ (done ++ [id]) (d.setBox id (d.tightBox c)) := by
  have t' : d.hierarchy.IsTree := h.hierarchy ▸ t
  have hid : d.hierarchy.containers.contains id = true := h.hierarchy ▸ hout.known
  have hself : d.hierarchy.parent? id ≠ some id := fun hp => t'.child_ne hp rfl
  have hset := setBox_known hid (d.tightBox c)
  have hdone : ∀ {x}, x ∈ done ++ [id] → x ≠ id → x ∈ done := fun hx hne =>
    (List.mem_append.1 hx).resolve_right fun he => hne (List.mem_singleton.1 he)
  have hget : ∀ x, (d.setBox id (d.tightBox c)).boxes.get? x =
      if x = id then some (d.tightBox c) else d.boxes.get? x := fun x => by
    rw [hset, Table.get?_insert_eq]
  refine ⟨?hierarchy, ?settings, ?scale, ?placed, ?standing, fun {x} hx => ?boxed,
    fun {x box hull} hx hb hu => ?tight⟩
  case hierarchy => rw [hset]; exact h.hierarchy
  case settings => rw [hset]; exact h.settings
  case scale => rw [hset]; exact h.scale
  case placed => rw [hset]; exact h.placed
  case standing => rw [hset]; exact h.standing
  case boxed =>
    rw [hget]
    split
    · exact ⟨_, rfl, h.tightBox_upright t hpad hout hc⟩
    · rename_i hne
      exact h.boxed (hdone hx hne)
  case tight =>
    rw [hget] at hb
    split at hb
    · rename_i he
      cases hb
      subst he
      rw [setBox_contents t' hid hself] at hu
      rw [tightBox_of_hull hc hu, h.unitPadding]
    · rename_i hne
      -- what is done is not around the container at hand
      have hpar : d.hierarchy.parent? id ≠ some x := fun hp => by
        rw [h.hierarchy] at hp
        exact hout.aroundNotDone (.of_parent hp) (hdone hx hne)
      rw [setBox_contents t' hid hpar] at hu
      exact h.tight (hdone hx hne) hb hu

/-! ## The whole drawing -/

theorem compactOne_tight {s s' : Shifting ℝ} (h : Tight d₀ done s.drawing)
    (hpad : 0 ≤ d₀.unitPadding.1 ∧ 0 ≤ d₀.unitPadding.2) (hout : d₀.hierarchy.OutwardAt done id)
    (hok : compactOne s id = .ok s') : Tight d₀ (done ++ [id]) s'.drawing := by
  rcases compactOne_ok hok with ⟨hnone, -⟩ | ⟨c, apart, hc, hsep, rfl⟩
  · rw [h.hierarchy, Hierarchy.container?, Table.get?_eq_none_iff, hout.known] at hnone
    cases hnone
  · rw [h.hierarchy] at hc
    rw [← Hierarchy.container?_children hc] at hsep
    have hnot : id ∉ done := hout.aroundNotDone (.refl id)
    have ha : Tight d₀ done apart.drawing := separateChildren_keeps
      (fun dx dy hroot hd => hd.translateSubtree t
        (t.mem_children.1 (List.mem_of_mem_tail hroot)) hnot dx dy) hsep h
    exact ha.setBox t hpad hout (ha.hierarchy ▸ hc)

omit t

/-- A compaction that gets through its containers shows what it made of them. -/
theorem compact_of_ok {s : Shifting ℝ}
    (h : d.hierarchy.postOrder.foldlM compactOne ⟨d, 0⟩ = .ok s) :
    SameView s.drawing d.compact.state ∧
      d.compact.state.metrics.compactionShifts = s.shifts ∧
      d.compact.state.metrics.containmentCorrections =
        s.drawing.metrics.containmentCorrections ∧
      (d.compact.failure = none ↔
        Containment.validate s.drawing.hierarchy s.drawing.boxes d.unitPadding = .ok ()) := by
  have hview : SameView s.drawing s.finished := by
    unfold Shifting.finished
    dsimp only
    split <;> exact ⟨rfl, rfl, rfl, rfl, rfl⟩
  have hmetrics : s.finished.metrics.compactionShifts = s.shifts ∧
      s.finished.metrics.containmentCorrections = s.drawing.metrics.containmentCorrections := by
    unfold Shifting.finished
    dsimp only
    split <;> exact ⟨rfl, rfl⟩
  rw [compact_eq_finished h]
  refine ⟨hview, hmetrics.1, hmetrics.2, ?_⟩
  dsimp only
  rw [hview.hierarchy, hview.boxes]
  split
  · rename_i v hv
    simp [hv]
  · rename_i hv
    simp [hv]

include t

/-- **A compaction that gets through its containers leaves tight boxes.** -/
theorem foldlM_compactOne_tight (hpad : 0 ≤ d₀.unitPadding.1 ∧ 0 ≤ d₀.unitPadding.2)
    (hplaced : AllPlaced d₀) (hstand : Standing d₀) {s : Shifting ℝ}
    (hfold : d₀.hierarchy.postOrder.foldlM compactOne ⟨d₀, 0⟩ = .ok s) :
    Tight d₀ d₀.hierarchy.postOrder s.drawing := by
  refine Fold.keepsM (fun done (s : Shifting ℝ) => Tight d₀ done s.drawing)
    ⟨rfl, rfl, rfl, hplaced, hstand, by simp, by simp⟩
    (fun done id rest s s' hs hd hok => ?_) hfold
  exact compactOne_tight t hd hpad (t.postOrder_split hs) hok

/-- **A compaction that succeeds leaves tight boxes**, and they pass the check. -/
theorem compact_tight (hpad : 0 ≤ d₀.unitPadding.1 ∧ 0 ≤ d₀.unitPadding.2) (hplaced : AllPlaced d₀)
    (hstand : Standing d₀) (hf : d₀.compact.failure = none) :
    Tight d₀ d₀.hierarchy.postOrder d₀.compact.state ∧
      Containment.Valid d₀.hierarchy d₀.unitPadding d₀.compact.state.boxes := by
  cases hfold : d₀.hierarchy.postOrder.foldlM compactOne ⟨d₀, 0⟩ with
  | error e => simp [compact, hfold] at hf
  | ok s =>
    obtain ⟨hview, -, -, hfail⟩ := compact_of_ok hfold
    have htight := foldlM_compactOne_tight t hpad hplaced hstand hfold
    refine ⟨htight.congr hview, ?_⟩
    have hvalid := hfail.1 hf
    rw [htight.hierarchy, Containment.validate_ok_iff t] at hvalid
    rwa [hview.boxes]

/-! ## Tight drawings -/

variable (h : Tight d₀ d₀.hierarchy.postOrder d)
include h

theorem Tight.boxed_of_known (hid : d₀.hierarchy.containers.contains id = true) :
    ∃ box, d.boxes.get? id = some box ∧ box.Upright :=
  h.boxed (t.mem_postOrder.2 hid)

theorem Tight.child_mem_contents {b : String} (hp : d₀.hierarchy.parent? b = some id) :
    ∃ box, d.boxes.get? b = some box ∧ box ∈ d.contents id := by
  have t' : d.hierarchy.IsTree := h.hierarchy ▸ t
  obtain ⟨box, hb, -⟩ := h.boxed_of_known t (Hierarchy.known_of_parent hp)
  exact ⟨box, hb, (mem_contents t').2 (.inl ⟨b, h.hierarchy ▸ hp, hb⟩)⟩

theorem Tight.footprint_mem_contents {e : String} (ho : d₀.hierarchy.owners.get? e = some id) :
    ∃ p, d.placements.get? e = some p ∧ p.footprint ∈ d.contents id := by
  have t' : d.hierarchy.IsTree := h.hierarchy ▸ t
  rw [← h.hierarchy] at ho
  obtain ⟨p, hp⟩ := h.placed ho
  exact ⟨p, hp, (mem_contents t').2 (.inr ⟨e, p, ho, hp, rfl⟩)⟩

/-- **The box of a container with contents** is their hull with the padding around it. -/
theorem Tight.box_eq_inflate (hid : d₀.hierarchy.children id ≠ [] ∨ d₀.hierarchy.elements id ≠ []) :
    ∃ box hull, d.boxes.get? id = some box ∧ Rect.IsHull (d.contents id) hull ∧
      box = hull.inflate d₀.unitPadding.1 d₀.unitPadding.2 ∧ d.inner box = hull := by
  have hne : d.contents id ≠ [] := by
    rcases hid with hid | hid
    · obtain ⟨b, hb⟩ := List.exists_mem_of_ne_nil _ hid
      obtain ⟨box, -, hmem⟩ := h.child_mem_contents t (t.mem_children.1 hb)
      exact List.ne_nil_of_mem hmem
    · obtain ⟨e, he⟩ := List.exists_mem_of_ne_nil _ hid
      obtain ⟨p, -, hmem⟩ := h.footprint_mem_contents t (t.mem_elements.1 he)
      exact List.ne_nil_of_mem hmem
  have hknown : d₀.hierarchy.containers.contains id = true := by
    cases hc : d₀.hierarchy.container? id with
    | none => simp [Hierarchy.children, Hierarchy.elements, hc] at hid
    | some c => exact Table.contains_of_get? hc
  obtain ⟨box, hbox, -⟩ := h.boxed_of_known t hknown
  obtain ⟨hull, hhull⟩ := Option.ne_none_iff_exists'.1 (mt Rect.unionAll?_eq_none_iff.1 hne)
  have hbe := h.tight (t.mem_postOrder.2 hknown) hbox hhull
  have hIs := Rect.unionAll?_isHull hhull
  have hup := h.contents_upright t fun {b} (hb : d₀.hierarchy.parent? b = some id) =>
    t.mem_postOrder.2 (Hierarchy.known_of_parent hb)
  refine ⟨box, hull, hbox, hIs, hbe, ?_⟩
  rw [inner, h.unitPadding, hbe, Rect.deflate_inflate (hIs.upright hne hup)]

end

end NestedLayout.Drawing
