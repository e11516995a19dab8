import NestedLayout.Proofs.Drawing.Carried
import NestedLayout.Proofs.Drawing.Enclosed

/-!
# Compaction that gets through

A compaction that gets its siblings apart leaves valid boxes, so giving up on siblings is the only
way for it to fail. In a drawing whose boxes have room for everything it gets through, and only
shrinks boxes: no siblings meet, so nothing has to be moved.

* `SiblingsApart`: the children of the containers that are done stay apart, whatever is done with
  the others.
* `compact_of_through`: what a compaction that gets through its containers comes to.
* `compact_ready`: compaction of a drawing with room succeeds, and what it leaves is `Compacted`: it
  shifts nothing, and every box lies inside the old one.
-/

set_option autoImplicit false

namespace NestedLayout

/-! ## Siblings -/

theorem Containment.partiallyOverlap_of_translated {boxes boxes' : Boxes ℝ} {a b : String}
    {dx dy : ℝ} (ha : boxes'.get? a = (boxes.get? a).map fun box => box.translate dx dy)
    (hb : boxes'.get? b = (boxes.get? b).map fun box => box.translate dx dy) :
    partiallyOverlap boxes' a b = partiallyOverlap boxes a b := by
  unfold partiallyOverlap
  rw [ha, hb]
  cases boxes.get? a with
  | none => rfl
  | some x =>
    cases boxes.get? b with
    | none => rfl
    | some y => simp only [Option.map_some, Rect.intersects_translate, Rect.contains_translate]

namespace Drawing

/-- No two children of the given containers overlap partially. -/
def SiblingsApart (h : Hierarchy) (done : List String) (boxes : Boxes ℝ) : Prop :=
  ∀ {p a b}, p ∈ done → h.parent? a = some p → h.parent? b = some p → a ≠ b →
    Containment.partiallyOverlap boxes a b = false

section
variable {d : Drawing ℝ} {done : List String} {id : String} (t : d.hierarchy.IsTree)
include t

/-- A child of the container at hand moves with all of the siblings in it, or with none. -/
theorem SiblingsApart.translateSubtree (h : SiblingsApart d.hierarchy done d.boxes) {j : String}
    (hj : d.hierarchy.parent? j = some id) (hid : id ∉ done) (dx dy : ℝ) :
    SiblingsApart d.hierarchy done (d.translateSubtree j dx dy).boxes := by
  intro p a b hp ha hb hne
  have hold := h hp ha hb hne
  by_cases hjp : d.hierarchy.Encloses j p
  · rw [Containment.partiallyOverlap_of_translated
      (translateSubtree_box_inside t (hjp.trans (.of_parent ha)))
      (translateSubtree_box_inside t (hjp.trans (.of_parent hb)))]
    exact hold
  · have houtside : ∀ {x}, d.hierarchy.parent? x = some p → ¬ d.hierarchy.Encloses j x := by
      intro x hx hjx
      rcases Relation.ReflTransGen.cases_tail hjx with rfl | ⟨q, hjq, hq⟩
      · cases hj.symm.trans hx
        exact hid hp
      · cases hx.symm.trans hq
        exact hjp hjq
    unfold Containment.partiallyOverlap at hold ⊢
    rw [translateSubtree_box_outside t (houtside ha), translateSubtree_box_outside t (houtside hb)]
    exact hold

/-- **The container at hand joins those that are done** when its children are apart. -/
theorem SiblingsApart.setBox (h : SiblingsApart d.hierarchy done d.boxes)
    (hout : d.hierarchy.OutwardAt done id)
    (hchildren : ∀ q ∈ pairsOf (d.hierarchy.children id),
      Containment.partiallyOverlap d.boxes q.1 q.2 = false) (box : Rect ℝ) :
    SiblingsApart d.hierarchy (done ++ [id]) (d.setBox id box).boxes := by
  intro p a b hp ha hb hne
  have hother : ∀ {x}, d.hierarchy.parent? x = some p →
      (d.setBox id box).boxes.get? x = d.boxes.get? x := by
    intro x hx
    rw [setBox_known hout.known]
    refine Table.get?_insert_ne _ _ ?_
    rintro rfl
    rcases List.mem_append.1 hp with hp | hp
    · exact hout.aroundNotDone (.of_parent hx) hp
    · exact t.child_ne hx (List.mem_singleton.1 hp).symm
  have hold : Containment.partiallyOverlap d.boxes a b = false := by
    rcases List.mem_append.1 hp with hp | hp
    · exact h hp ha hb hne
    · obtain rfl := List.mem_singleton.1 hp
      exact (Containment.find?_pairsOf_eq_none_iff t).1
        (List.find?_eq_none.2 fun q hq => by simp [hchildren q hq]) a b ha hb hne
  unfold Containment.partiallyOverlap at hold ⊢
  rw [hother ha, hother hb]
  exact hold

end

/-! ## Getting through -/

section
variable {d : Drawing ℝ} {s : Shifting ℝ} (t : d.hierarchy.IsTree)
  (hfold : d.hierarchy.postOrder.foldlM compactOne ⟨d, 0⟩ = .ok s)
include t hfold

theorem foldlM_compactOne_siblingsApart :
    SiblingsApart d.hierarchy d.hierarchy.postOrder s.drawing.boxes := by
  refine (Fold.keepsM (fun done (s : Shifting ℝ) => s.drawing.hierarchy = d.hierarchy ∧
    SiblingsApart d.hierarchy done s.drawing.boxes)
    ⟨rfl, fun hp => absurd hp List.not_mem_nil⟩ (fun done id rest s s' hs hkept hok => ?_)
    hfold).2
  obtain ⟨hh, ha⟩ := hkept
  have hout := t.postOrder_split hs
  refine ⟨(compactOne_cast hok).hierarchy.trans hh, ?_⟩
  rcases compactOne_ok hok with ⟨hnone, -⟩ | ⟨n, apart, hn, hsep, rfl⟩
  · rw [hh, Hierarchy.container?, Table.get?_eq_none_iff, hout.known] at hnone
    cases hnone
  · rw [hh] at hn
    rw [← Hierarchy.container?_children hn] at hsep
    obtain ⟨hh', ha'⟩ := separateChildren_keeps
      (I := fun d' => d'.hierarchy = d.hierarchy ∧ SiblingsApart d.hierarchy done d'.boxes)
      (fun {d' root} dx dy hroot hkept' => by
        obtain ⟨hh', ha'⟩ := hkept'
        refine ⟨hh', ?_⟩
        rw [← hh'] at ha' ⊢
        exact ha'.translateSubtree (hh'.symm ▸ t)
          (hh'.symm ▸ t.mem_children.1 (List.mem_of_mem_tail hroot))
          (hout.aroundNotDone (.refl id)) dx dy) hsep ⟨hh, ha⟩
    have hchildren := (separateChildren_apart hsep).2
    show SiblingsApart d.hierarchy (done ++ [id]) (apart.drawing.setBox id _).boxes
    rw [← hh'] at ha' hout hchildren ⊢
    exact ha'.setBox (hh'.symm ▸ t) hout hchildren _

/-- **A compaction that gets through its containers succeeds.** -/
theorem compact_of_through (hpad : 0 ≤ d.unitPadding.1 ∧ 0 ≤ d.unitPadding.2)
    (hplaced : AllPlaced d) (hstand : Standing d) :
    d.compact.failure = none ∧ SameView s.drawing d.compact.state ∧
      d.compact.state.metrics.compactionShifts = s.shifts ∧
      d.compact.state.metrics.containmentCorrections = d.metrics.containmentCorrections := by
  have htight := foldlM_compactOne_tight t hpad hplaced hstand hfold
  have hapart : SiblingsApart d.hierarchy d.hierarchy.postOrder s.drawing.boxes :=
    foldlM_compactOne_siblingsApart t hfold
  obtain ⟨hview, hshifts, hcorr, hfail⟩ := compact_of_ok hfold
  refine ⟨hfail.2 ?_, hview, hshifts, hcorr.trans ?_⟩
  · rw [htight.hierarchy, Containment.validate_ok_iff t]
    refine ⟨fun hid => ?_, fun {p c pbox box} hp hpb hb => ?_, fun {p a b} ha hb hne =>
      hapart (t.mem_postOrder.2 (t.parentKnown ha)) ha hb hne⟩
    · obtain ⟨box, hbox, -⟩ := htight.boxed_of_known t hid
      exact ⟨box, hbox⟩
    · obtain ⟨pbox', hull, hpb', hhull, -, hinner⟩ := htight.box_eq_inflate t
        (.inl (List.ne_nil_of_mem (t.mem_children.2 hp)))
      obtain ⟨box', hb', hmem⟩ := htight.child_mem_contents t hp
      cases hpb.symm.trans hpb'
      cases hb.symm.trans hb'
      rw [inner, htight.unitPadding] at hinner
      rw [hinner]
      exact (hhull.holds box hmem).contains
  · rw [foldlM_compactOne_metrics hfold]

end

/-! ## Drawings with room -/

theorem Ready.holding {d : Drawing ℝ} (hr : Ready d) (hin : Inside d) (hstand : Standing d) :
    Holding 0 d where
  tree := hr.tree
  tolerance := le_rfl
  padding := ⟨div_nonneg hr.inRange.padding hr.proper.width_pos.le,
    div_nonneg hr.inRange.padding hr.proper.height_pos.le⟩
  boxed := hr.boxed
  upright := hr.upright
  nested := fun hp hpb hb => (hr.nested hp hpb hb).trans (by rw [Rect.inflate_zero]; exact .refl _)
  inside := hin
  standing := hstand

/-- What compaction makes of a drawing with room: smaller boxes and nothing else that shows. -/
structure Compacted (d d' : Drawing ℝ) : Prop where
  hierarchy : d'.hierarchy = d.hierarchy
  scale : d'.scale = d.scale
  placements : d'.placements = d.placements
  shifts : d'.metrics.compactionShifts = 0
  corrections : d'.metrics.containmentCorrections = d.metrics.containmentCorrections
  boxed : ∀ {id}, d.hierarchy.containers.contains id = true → ∃ box, d'.boxes.get? id = some box
  shrunk : ∀ {id box}, d.hierarchy.containers.contains id = true →
    d'.boxes.get? id = some box → ∃ sized, d.boxes.get? id = some sized ∧ box.Within sized

/-- **Compaction of a drawing with room** succeeds, shifts nothing, leaves the elements where they
are, and every box inside the old one. -/
theorem compact_ready {d : Drawing ℝ} (hr : Ready d) (hplaced : AllPlaced d) (hin : Inside d)
    (hstand : Standing d) : d.compact.failure = none ∧ Compacted d d.compact.state := by
  have h := hr.holding hin hstand
  have hroomy : ∀ p, RoomyIn d p := fun p _ _ _ hb _ => hr.roomy hb
  have hapart : ∀ p, ApartBy (margin 0 d) d p := fun p _ _ _ _ _ _ ha hb hne hab hbb => by
    rw [margin, mul_zero, Rect.inflate_zero, Rect.inflate_zero]
    exact hr.apart ha hb hne hab hbb
  cases hfold : d.hierarchy.postOrder.foldlM compactOne ⟨d, 0⟩ with
  | error f =>
    obtain ⟨p, -, -, hmeet, -⟩ := foldlM_compactOne_stuck h hfold
    exact (hmeet ⟨hroomy p, hapart p⟩).elim
  | ok s =>
    obtain ⟨hf, hview, hshifts, hcorr⟩ :=
      compact_of_through h.tree hfold h.padding hplaced hstand
    have hnone := foldlM_compactOne_unshifted h hfold (hroomy _) (hapart _)
    obtain ⟨v, hv, hcarried⟩ :=
      foldlM_compactOne_carried h hfold (hroomy d.hierarchy.root) (.inl (hapart _))
    obtain rfl := hv hnone
    have hshrunk : ∀ {id}, d.hierarchy.containers.contains id = true → ∃ sized box,
        d.boxes.get? id = some sized ∧ d.compact.state.boxes.get? id = some box ∧
          box.Within sized := by
      intro id hid
      obtain ⟨sized, hsized⟩ := h.boxed hid
      obtain ⟨box, hbox, -, hw⟩ := hcarried.boxed (h.tree.root_encloses hid) hsized
      rw [reach_zero] at hw
      exact ⟨sized, box, hsized, hview.boxes ▸ hbox, hw⟩
    refine ⟨hf, hview.hierarchy.trans hcarried.hierarchy, hview.scale.trans hcarried.scale,
      hview.placements.trans (foldlM_compactOne_still hfold hnone).1, hshifts.trans hnone, hcorr,
      fun {id} hid => ?_, fun {id box} hid hb => ?_⟩
    · obtain ⟨-, box, -, hbox, -⟩ := hshrunk hid
      exact ⟨box, hbox⟩
    · obtain ⟨sized, box', hsized, hbox, hw⟩ := hshrunk hid
      cases hb.symm.trans hbox
      exact ⟨sized, hsized, hw⟩

/-- Smaller boxes leave every element clear of the child containers. -/
theorem Compacted.clear {d d' : Drawing ℝ} (h : Compacted d d') (hclear : Clear d) : Clear d' := by
  intro c b e p bbox ho hpar he hbb
  rw [h.hierarchy] at ho hpar
  rw [h.placements] at he
  obtain ⟨sized, hsized, hw⟩ := h.shrunk (Hierarchy.known_of_parent hpar) hbb
  exact Rect.intersects_mono hw (.refl _) (hclear ho hpar he hsized)

end Drawing

end NestedLayout
