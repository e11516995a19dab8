import NestedLayout.Proofs.Drawing.Cast
import NestedLayout.Proofs.Pipeline
import NestedLayout.Proofs.Sizing.Containment

/-!
# Where phases fail, and what they say

Sizing and compaction are the phases that can fail, and only over boxes that break the nesting: the
failure names one container of the tree or two. What else a phase has to say is never an error.

* `ContainmentViolation.Within`: a violation between containers of a tree; `validate_within`,
  `enforce_within` and `foldlM_compactOne_error` find it in the checks and repairs.
* `size_failure`, `compact_failure`: the failures of the two phases.
* `size_calm`, `place_calm`, `separate_calm`, `compact_calm`: the notes of the phases.
-/

set_option autoImplicit false

namespace NestedLayout

variable {α : Type} [Scalar α] {h : Hierarchy}

/-! ## Violations -/

/-- The violation is about containers of the tree. -/
def ContainmentViolation.Within (h : Hierarchy) (v : ContainmentViolation) : Prop :=
  ∀ id ∈ v.ids, h.containers.contains id = true

/-- Two siblings that compaction could not get apart. -/
def ContainmentViolation.unseparated (a b : String) : ContainmentViolation :=
  ⟨a, some b, "sibling containers still overlap after compaction"⟩

namespace Containment

omit [Scalar α] in
theorem within_pair {a b : String} (ha : h.containers.contains a = true)
    (hb : h.containers.contains b = true) (detail : String) :
    ContainmentViolation.Within h ⟨a, some b, detail⟩ := by
  intro id hid
  simp only [ContainmentViolation.ids, Option.toList_some, List.mem_cons, List.not_mem_nil,
    or_false] at hid
  rcases hid with rfl | rfl
  · exact ha
  · exact hb

omit [Scalar α] in
theorem within_single {a : String} (ha : h.containers.contains a = true) (detail : String) :
    ContainmentViolation.Within h ⟨a, none, detail⟩ := by
  intro id hid
  simp only [ContainmentViolation.ids, Option.toList_none, List.mem_singleton] at hid
  exact hid ▸ ha

omit [Scalar α] in
/-- Siblings are containers of the tree. -/
theorem within_siblings (t : h.IsTree) {p a b : String} (hm : (a, b) ∈ pairsOf (h.children p))
    (detail : String) : ContainmentViolation.Within h ⟨a, some b, detail⟩ := by
  obtain ⟨ha, hb⟩ := mem_of_mem_pairsOf hm
  exact within_pair (Hierarchy.known_of_parent (t.mem_children.1 ha))
    (Hierarchy.known_of_parent (t.mem_children.1 hb)) detail

variable (t : h.IsTree) {boxes : Boxes α} {padding : α × α}
include t

theorem check_within {id : String} {c : Container} {v : ContainmentViolation}
    (hc : h.container? id = some c) (he : check boxes padding id c = .error v) : v.Within h := by
  have hid : h.containers.contains id = true := Table.contains_of_get? hc
  have hchildren : h.children id = c.children := Hierarchy.container?_children hc
  have hparent : h.parent? id = c.parent := Hierarchy.container?_parent hc
  have hsiblings : ∀ {a b : String},
      ((pairsOf c.children).find? fun p => partiallyOverlap boxes p.1 p.2) = some (a, b) →
        ContainmentViolation.Within h ⟨a, some b, "sibling containers partially overlap"⟩ :=
    fun hfind => within_siblings t (hchildren ▸ List.mem_of_find?_eq_some hfind) _
  unfold check at he
  cases hb : boxes.get? id with
  | none =>
    simp only [hb] at he
    cases he
    exact within_single hid _
  | some box =>
    simp only [hb] at he
    cases hp : c.parent with
    | none =>
      simp only [hp] at he
      split at he
      · cases he
        exact hsiblings ‹_›
      · cases he
    | some parent =>
      have hknown := t.parentKnown (hparent.trans hp)
      simp only [hp] at he
      cases hpb : boxes.get? parent with
      | none =>
        simp only [hpb] at he
        cases he
        exact within_single hknown _
      | some pbox =>
        simp only [hpb] at he
        split at he
        · cases he
          exact within_pair hid hknown _
        · split at he
          · cases he
            exact hsiblings ‹_›
          · cases he

omit t [Scalar α] in
theorem forM_error {β ε : Type} {l : List β} {f : β → Except ε Unit} {e : ε}
    (he : l.forM f = .error e) : ∃ x ∈ l, f x = .error e := by
  induction l with
  | nil => cases he
  | cons x l ih =>
    change (f x >>= fun _ => l.forM f) = .error e at he
    cases hx : f x with
    | error e' =>
      rw [hx] at he
      cases he
      exact ⟨x, .head _, hx⟩
    | ok u =>
      rw [hx] at he
      obtain ⟨y, hy, hfail⟩ := ih he
      exact ⟨y, .tail _ hy, hfail⟩

theorem validate_within {v : ContainmentViolation} (he : validate h boxes padding = .error v) :
    v.Within h := by
  obtain ⟨⟨id, c⟩, hm, hcheck⟩ := forM_error he
  exact check_within t (Table.mem_entries_iff.1 hm) hcheck

omit t in
/-- Two siblings that stay entangled are the two at fault. -/
theorem separate_error {a b : String} {n : Nat} {r : Repair α} {f : FailedRepair α}
    (he : separate h a b n r = .error f) : ∃ detail, f.violation = ⟨a, some b, detail⟩ := by
  induction n generalizing r with
  | zero =>
    unfold separate at he
    split at he
    · cases he
      exact ⟨_, rfl⟩
    · cases he
  | succ n ih =>
    unfold separate at he
    split at he
    · exact ih he
    · cases he

theorem enforce_within {retries : Nat} {f : FailedRepair α}
    (he : enforce h boxes padding retries = .error f) : f.violation.Within h := by
  obtain ⟨-, parent, -, r, -, -, hat⟩ := Fold.failsM (fun _ _ => True) trivial
    (fun _ _ _ _ _ _ _ _ => trivial) he
  unfold enforceAt at hat
  split at hat
  · cases hat
  · obtain ⟨done, ⟨a, b⟩, rest, r', hsplit, -, hsep⟩ := Fold.failsM (fun _ _ => True) trivial
      (fun _ _ _ _ _ _ _ _ => trivial) hat
    obtain ⟨detail, hv⟩ := separate_error hsep
    have hm : (a, b) ∈ pairsOf (h.children parent) := by
      rw [hsplit]
      simp
    exact hv ▸ within_siblings t hm detail

end Containment

/-! ## Failures -/

namespace Drawing

variable {d : Drawing α}

/-- **Sizing fails over boxes** that break the nesting of the tree. -/
theorem size_failure {sizer : Sizer α} {step : Step (Drawing α)} {e : LayoutError}
    (t : d.hierarchy.IsTree) (hs : d.size sizer = some step) (he : step.failure = some e) :
    ∃ v, e = .containment v ∧ v.Within d.hierarchy := by
  obtain ⟨p, -, hstep⟩ := Option.bind_eq_some_iff.1 hs
  cases hstep
  have htree : (d.adopt p).hierarchy = d.hierarchy := (adopt_subject d p).hierarchy
  unfold settleBoxes at he
  dsimp only at he
  split at he
  · rename_i f hf
    cases he
    exact ⟨_, rfl, htree ▸ Containment.enforce_within (htree ▸ t) hf⟩
  · split at he
    · rename_i v hv
      cases he
      exact ⟨_, rfl, htree ▸ Containment.validate_within (htree ▸ t) hv⟩
    · cases he

/-- A compaction gives up on two siblings that overlap when the rounds are used up, with the
drawing as the last round left it. -/
theorem separateChildren_error {children : List String} {n : Nat} {s : Shifting α}
    {f : FailedShifting α} (he : separateChildren children n s = .error f) :
    SameCast s.drawing f.drawing ∧
      ∃ pair ∈ pairsOf children, f.violation = .unseparated pair.1 pair.2 ∧
        Containment.partiallyOverlap f.drawing.boxes pair.1 pair.2 = true := by
  induction n generalizing s with
  | zero =>
    unfold separateChildren at he
    dsimp only at he
    split at he
    · rename_i a b hfind
      cases he
      have hover : Containment.partiallyOverlap s.drawing.boxes a b = true := by
        simpa using List.find?_some hfind
      exact ⟨.refl _, (a, b), List.mem_of_find?_eq_some hfind, rfl, hover⟩
    · cases he
  | succ n ih =>
    unfold separateChildren at he
    dsimp only at he
    split at he
    · cases he
    · have hfold := foldl_shiftPair_keeps (I := SameCast s.drawing)
        (fun {_ root} dx dy (_ : root ∈ children.tail) h =>
          h.trans (translateSubtree_cast _ _ dx dy)) (.refl _)
      obtain ⟨hcast, hpair⟩ := ih he
      exact ⟨hfold.trans hcast, hpair⟩

/-- A compaction that gives up leaves a drawing with the same cast. -/
theorem foldlM_compactOne_error (t : d.hierarchy.IsTree) {f : FailedShifting α}
    (hfold : d.hierarchy.postOrder.foldlM compactOne ⟨d, 0⟩ = .error f) :
    SameCast d f.drawing ∧ f.violation.Within d.hierarchy ∧
      ∃ a b, f.violation = .unseparated a b := by
  obtain ⟨done, id, rest, s, hsplit, hs, hone⟩ :=
    Fold.failsM (fun _ (s : Shifting α) => SameCast d s.drawing) (.refl d)
      (fun _ _ _ _ _ _ hs hok => hs.trans (compactOne_cast hok)) hfold
  obtain ⟨c, hc, hsep⟩ := compactOne_error hone
  obtain ⟨hcast, ⟨a, b⟩, hm, hv, -⟩ := separateChildren_error hsep
  rw [hs.hierarchy] at hc
  rw [← Hierarchy.container?_children hc] at hm
  exact ⟨hs.trans hcast, hv ▸ Containment.within_siblings t hm _, a, b, hv⟩

/-- A compaction that gets through its containers has kept the cast. -/
theorem foldlM_compactOne_ok {s : Shifting α}
    (hfold : d.hierarchy.postOrder.foldlM compactOne ⟨d, 0⟩ = .ok s) : SameCast d s.drawing :=
  Fold.keepsM (fun _ (s : Shifting α) => SameCast d s.drawing) (.refl d)
    (fun _ _ _ _ _ _ hs hok => hs.trans (compactOne_cast hok)) hfold

/-- Compaction works on one tree, also when it fails. -/
theorem compact_hierarchy (t : d.hierarchy.IsTree) :
    d.compact.state.hierarchy = d.hierarchy := by
  cases hfold : d.hierarchy.postOrder.foldlM compactOne ⟨d, 0⟩ with
  | error f =>
    rw [compact_eq_failed hfold]
    exact (foldlM_compactOne_error t hfold).1.hierarchy
  | ok s =>
    rw [compact_eq_finished hfold]
    exact (finished_hierarchy s).trans (foldlM_compactOne_ok hfold).hierarchy

/-- **Compaction fails over two siblings** that it cannot get apart, or over boxes that break the
nesting in the end. -/
theorem compact_failure {e : LayoutError} (t : d.hierarchy.IsTree)
    (he : d.compact.failure = some e) : ∃ v, e = .containment v ∧ v.Within d.hierarchy := by
  cases hfold : d.hierarchy.postOrder.foldlM compactOne ⟨d, 0⟩ with
  | error f =>
    rw [compact_eq_failed hfold] at he
    cases he
    exact ⟨_, rfl, (foldlM_compactOne_error t hfold).2.1⟩
  | ok s =>
    have hs := foldlM_compactOne_ok hfold
    rw [compact_eq_finished hfold] at he
    dsimp only at he
    split at he
    · rename_i v hv
      cases he
      rw [finished_hierarchy, hs.hierarchy] at hv
      exact ⟨v, rfl, Containment.validate_within t hv⟩
    · cases he

/-! ## Notes -/

omit [Scalar α] in
theorem sizerNotes_calm (sizer : Sizer α) (failure : Option ToolError) :
    Note.Calm (sizerNotes sizer failure) := by
  intro n hn
  obtain ⟨e, -, rfl⟩ := List.mem_map.1 hn
  simp [Note.warning]

theorem repairNotes_calm (corrections : Nat) : Note.Calm (repairNotes corrections) := by
  intro n hn
  unfold repairNotes at hn
  split at hn
  · rw [List.mem_singleton.1 hn]
    simp [Note.info]
  · cases hn

theorem size_calm {sizer : Sizer α} {step : Step (Drawing α)} (hs : d.size sizer = some step) :
    Note.Calm step.notes := by
  obtain ⟨p, -, hstep⟩ := Option.bind_eq_some_iff.1 hs
  cases hstep
  have hboth : ∀ corrections, Note.Calm (sizerNotes sizer p.failure ++ repairNotes corrections) :=
    fun corrections => (sizerNotes_calm sizer p.failure).append (repairNotes_calm corrections)
  unfold settleBoxes
  dsimp only
  split
  · exact sizerNotes_calm sizer p.failure
  · split
    · exact hboth _
    · exact hboth _

theorem placeOne_calm (d : Drawing α) (container element : String) (extent : Extent α) :
    Note.Calm (d.placeOne container element extent).2 := by
  intro n hn
  unfold placeOne at hn
  dsimp only at hn
  split at hn
  · rw [List.mem_singleton.1 hn]
    simp [noPlaceNote, Note.warning]
  · cases hn

theorem place_calm (d : Drawing α) : Note.Calm d.place.notes := by
  refine Fold.keeps (fun _ (step : Step (Drawing α)) => Note.Calm step.notes) Note.calm_nil
    fun _ m _ step _ hs => ?_
  split
  · exact hs
  · exact hs.append (placeOne_calm _ _ _ _)

theorem separateIn_calm {u : Untangling α} (container : String) (hu : Note.Calm u.notes) :
    Note.Calm (separateIn u container).notes := by
  unfold separateIn
  dsimp only
  split
  · exact hu
  · split
    · exact hu
    · refine hu.append fun n hn => ?_
      obtain ⟨pair, -, rfl⟩ := List.mem_map.1 hn
      simp [overlapNote, Note.warning]

theorem separate_calm (d : Drawing α) : Note.Calm d.separate.notes :=
  Fold.keeps (fun _ (u : Untangling α) => Note.Calm u.notes) Note.calm_nil
    fun _ container _ _ _ hu => separateIn_calm container hu

theorem compact_calm (d : Drawing α) : Note.Calm d.compact.notes := by
  unfold compact
  split
  · exact Note.calm_nil
  · intro n hn
    simp only [shiftNotes] at hn
    split at hn
    · rw [List.mem_singleton.1 hn]
      simp [Note.info]
    · cases hn

end Drawing

end NestedLayout
