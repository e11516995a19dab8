import NestedLayout.Engine
import NestedLayout.Proofs.Pipeline

/-!
# The count of tool failures

A drawing counts the failures of the external tool, and nothing looks at the count. Every phase
after sizing therefore passes a change to the count on to the drawing it leaves:
`withToolFailures n` goes through placing, separating, routing and compacting.

* `place_withToolFailures`, `separate_withToolFailures`, `compact_withToolFailures`: the phases.
* `size_of_failure`: with a failing sizer sizing takes the proportional boxes, counts one failure
  and has one more note, the first.
-/

set_option autoImplicit false

namespace NestedLayout.Drawing

variable {α : Type} [Scalar α]

/-- The drawing with another count of tool failures. -/
def withToolFailures (n : Nat) (d : Drawing α) : Drawing α :=
  { d with metrics.externalToolFailures := n }

/-! ## Placing -/

theorem flagForResize_withToolFailures (n : Nat) (d : Drawing α) (container : String)
    (extent : Extent α) : (d.withToolFailures n).flagForResize container extent =
      (d.flagForResize container extent).withToolFailures n := by
  simp only [flagForResize, withToolFailures]
  cases d.ledger.grownRequirement? container extent.totalWidth extent.totalHeight <;> rfl

theorem putAt_withToolFailures (n : Nat) (d : Drawing α) (container element : String)
    (extent : Extent α) (spot : Spot α) :
    (d.withToolFailures n).putAt container element extent spot =
      (d.putAt container element extent spot).withToolFailures n := by
  obtain ⟨center, origin⟩ := spot
  cases origin <;> rfl

theorem placeOne_withToolFailures (n : Nat) (d : Drawing α) (container element : String)
    (extent : Extent α) :
    (d.withToolFailures n).placeOne container element extent =
      ((d.placeOne container element extent).1.withToolFailures n,
        (d.placeOne container element extent).2) := by
  have hspot : (d.withToolFailures n).spotFor container element
      (extent.unitSize (d.withToolFailures n).scale) =
        d.spotFor container element (extent.unitSize d.scale) := rfl
  simp only [placeOne, hspot, flagForResize_withToolFailures, putAt_withToolFailures]
  split <;> rfl

theorem place_withToolFailures (n : Nat) (d : Drawing α) :
    (d.withToolFailures n).place = d.place.map (withToolFailures n) := by
  have hextents : (d.withToolFailures n).extents = d.extents := rfl
  unfold place
  refine @List.foldl_hom _ _ _ (Step.map (withToolFailures n)) _ _ _
    (.quiet { d with placements := .empty }) fun step m => ?_
  rw [hextents]
  cases d.extents.get? m.2 with
  | none => rfl
  | some extent => simp only [Step.map, placeOne_withToolFailures]

/-! ## Separating -/

theorem followPush_withToolFailures (n : Nat) (container : String) (room : Rect α)
    (zones : List (Rect α)) (d : Drawing α) (item : Separation.Item α) :
    followPush container room zones (d.withToolFailures n) item =
      (followPush container room zones d item).withToolFailures n := by
  simp only [followPush, withToolFailures]
  cases d.placements.get? item.id with
  | none => rfl
  | some p =>
    dsimp only
    split
    · rfl
    · split <;> rfl

/-- An untangling with another count of tool failures. -/
def Untangling.withToolFailures (n : Nat) (u : Untangling α) : Untangling α :=
  { u with drawing := u.drawing.withToolFailures n }

theorem separateIn_withToolFailures (n : Nat) (u : Untangling α) (container : String) :
    separateIn (u.withToolFailures n) container =
      (separateIn u container).withToolFailures n := by
  obtain ⟨d, notes⟩ := u
  have hitems : (d.withToolFailures n).separationItems container = d.separationItems container :=
    rfl
  have hallotments : (d.withToolFailures n).ledger.allotments = d.ledger.allotments := rfl
  simp only [separateIn, Untangling.withToolFailures, hitems, hallotments]
  split
  · rfl
  · cases d.ledger.allotments.get? container with
    | none => rfl
    | some a =>
      dsimp only
      rw [List.foldl_hom (withToolFailures n)
        (followPush_withToolFailures n container a.available _)]
      rfl

theorem separate_withToolFailures (n : Nat) (d : Drawing α) :
    (d.withToolFailures n).separate = d.separate.map (withToolFailures n) := by
  have hfold : d.hierarchy.preOrder.foldl separateIn ⟨d.withToolFailures n, []⟩ =
      (d.hierarchy.preOrder.foldl separateIn ⟨d, []⟩).withToolFailures n :=
    @List.foldl_hom _ _ _ (Untangling.withToolFailures n) _ _ _ ⟨d, []⟩
      (separateIn_withToolFailures n)
  have hpre : (d.withToolFailures n).hierarchy = d.hierarchy := rfl
  simp only [separate, hpre, hfold]
  rfl

/-! ## Routing -/

theorem attachHooks_withToolFailures (n : Nat) (d : Drawing α) :
    (d.withToolFailures n).attachHooks = d.attachHooks.withToolFailures n := rfl

theorem route_withToolFailures (n : Nat) (d : Drawing α) :
    (d.withToolFailures n).route = d.route.withToolFailures n := rfl

/-! ## Compacting -/

/-- A compaction with another count of tool failures. -/
def Shifting.withToolFailures (n : Nat) (s : Shifting α) : Shifting α :=
  { s with drawing := s.drawing.withToolFailures n }

/-- A compaction that gave up, with another count of tool failures. -/
def FailedShifting.withToolFailures (n : Nat) (f : FailedShifting α) : FailedShifting α :=
  { f with drawing := f.drawing.withToolFailures n }

/-- What a step of the compaction comes to with another count of tool failures. -/
def shiftedWithToolFailures (n : Nat) :
    Except (FailedShifting α) (Shifting α) → Except (FailedShifting α) (Shifting α)
  | .ok s => .ok (s.withToolFailures n)
  | .error f => .error (f.withToolFailures n)

theorem shiftPair_withToolFailures (n : Nat) (s : Shifting α) (pair : String × String) :
    shiftPair (s.withToolFailures n) pair = (shiftPair s pair).withToolFailures n := by
  obtain ⟨d, shifts⟩ := s
  have hboxes : (d.withToolFailures n).boxes = d.boxes := rfl
  simp only [shiftPair, Shifting.withToolFailures, hboxes]
  split
  · cases d.boxes.get? pair.1 with
    | none => rfl
    | some a => cases d.boxes.get? pair.2 <;> rfl
  · rfl

theorem separateChildren_withToolFailures (n : Nat) (children : List String) (rounds : Nat)
    (s : Shifting α) : separateChildren children rounds (s.withToolFailures n) =
      shiftedWithToolFailures n (separateChildren children rounds s) := by
  induction rounds generalizing s with
  | zero =>
    have hboxes : (s.withToolFailures n).drawing.boxes = s.drawing.boxes := rfl
    simp only [separateChildren, hboxes]
    cases (pairsOf children).find? fun p =>
      Containment.partiallyOverlap s.drawing.boxes p.1 p.2 <;> rfl
  | succ rounds ih =>
    have hfold : (pairsOf children).foldl shiftPair (s.withToolFailures n) =
        ((pairsOf children).foldl shiftPair s).withToolFailures n :=
      List.foldl_hom (Shifting.withToolFailures n) (shiftPair_withToolFailures n)
    have hshifts : ∀ t : Shifting α, (t.withToolFailures n).shifts = t.shifts := fun _ => rfl
    simp only [separateChildren, hfold, hshifts, ih]
    split <;> rfl

omit [Scalar α] in
theorem setBox_withToolFailures (n : Nat) (d : Drawing α) (id : String) (box : Rect α) :
    (d.withToolFailures n).setBox id box = (d.setBox id box).withToolFailures n := by
  have htree : (d.withToolFailures n).hierarchy = d.hierarchy := rfl
  simp only [setBox, htree]
  split <;> rfl

theorem compactOne_withToolFailures (n : Nat) (s : Shifting α) (id : String) :
    compactOne (s.withToolFailures n) id = shiftedWithToolFailures n (compactOne s id) := by
  have hcontainer : (s.withToolFailures n).drawing.hierarchy.container? id =
    s.drawing.hierarchy.container? id := rfl
  have hrounds : (s.withToolFailures n).drawing.settings = s.drawing.settings := rfl
  simp only [compactOne, hcontainer, hrounds]
  cases s.drawing.hierarchy.container? id with
  | none => rfl
  | some c =>
    simp only [separateChildren_withToolFailures]
    cases separateChildren c.children s.drawing.settings.sizing.containmentRetries s with
    | error f => rfl
    | ok apart =>
      show Except.ok (Shifting.mk ((apart.drawing.withToolFailures n).setBox id _) _) = _
      rw [setBox_withToolFailures]
      rfl

theorem foldlM_compactOne_withToolFailures (n : Nat) (ids : List String) (s : Shifting α) :
    ids.foldlM compactOne (s.withToolFailures n) =
      shiftedWithToolFailures n (ids.foldlM compactOne s) := by
  induction ids generalizing s with
  | nil => rfl
  | cons id ids ih =>
    rw [List.foldlM_cons, List.foldlM_cons, compactOne_withToolFailures]
    cases compactOne s id with
    | error f => rfl
    | ok s' => exact ih s'

theorem compact_withToolFailures (n : Nat) (d : Drawing α) :
    (d.withToolFailures n).compact = d.compact.map (withToolFailures n) := by
  have hpost : (d.withToolFailures n).hierarchy = d.hierarchy := rfl
  have hfold := foldlM_compactOne_withToolFailures n d.hierarchy.postOrder ⟨d, 0⟩
  simp only [compact, hpost]
  rw [show (⟨d.withToolFailures n, 0⟩ : Shifting α) = Shifting.withToolFailures n ⟨d, 0⟩ from rfl,
    hfold]
  cases d.hierarchy.postOrder.foldlM compactOne ⟨d, 0⟩ with
  | error f => rfl
  | ok s =>
    dsimp only [shiftedWithToolFailures, Shifting.withToolFailures]
    split <;> rfl

/-! ## Sizing -/

/-- The note about a sizer that failed. -/
def failureNote (sizer : Sizer α) (e : ToolError) : Note :=
  .warning .externalTool (sizer.name ++ " sizer failed: " ++ e.message) []

theorem settleBoxes_withToolFailures (n : Nat) (d : Drawing α) (note : Note) (notes : List Note) :
    (d.withToolFailures n).settleBoxes (note :: notes) =
      ((d.settleBoxes notes).map (withToolFailures n)).noting note := by
  have htree : (d.withToolFailures n).hierarchy = d.hierarchy := rfl
  have hboxes : (d.withToolFailures n).boxes = d.boxes := rfl
  have hpadding : (d.withToolFailures n).unitPadding = d.unitPadding := rfl
  have hsettings : (d.withToolFailures n).settings = d.settings := rfl
  simp only [settleBoxes, htree, hboxes, hpadding, hsettings]
  cases Containment.enforce d.hierarchy d.boxes d.unitPadding
      d.settings.sizing.containmentRetries with
  | error failed => rfl
  | ok repaired =>
    dsimp only
    cases Containment.validate d.hierarchy repaired.boxes d.unitPadding <;> rfl

/-- **A failing sizer** leads to the boxes of proportional sizing, one more failure, and one more
note. -/
theorem size_of_failure {sizer : Sizer α} {e : ToolError} {d : Drawing α}
    (hn : d.hierarchy.hasNesting = true) (hfail : sizer.plan d.sizingRequest = some (.error e)) :
    d.size sizer = (d.size Proportional.sizer).map fun step =>
      (step.map (withToolFailures (d.metrics.externalToolFailures + 1))).noting
        (failureNote sizer e) := by
  have hplan : (Proportional.sizer : Sizer α).plan d.sizingRequest =
    (Proportional.plan d.sizingRequest).map .ok := rfl
  simp only [size, propose, hn, if_true, hfail, hplan]
  cases Proportional.plan d.sizingRequest with
  | none => rfl
  | some plan => exact congrArg some (settleBoxes_withToolFailures _ (d.adopt ⟨plan, none⟩) _ [])

theorem settleBoxes_toolFailures (d : Drawing α) (notes : List Note) :
    (d.settleBoxes notes).state.metrics.externalToolFailures = d.metrics.externalToolFailures := by
  unfold settleBoxes
  dsimp only
  split
  · rfl
  · split <;> rfl

/-- Proportional sizing counts no failure. -/
theorem size_toolFailures {d : Drawing α} {step : Step (Drawing α)}
    (hs : d.size Proportional.sizer = some step) :
    step.state.metrics.externalToolFailures = d.metrics.externalToolFailures := by
  obtain ⟨proposal, hp, hs⟩ := Option.bind_eq_some_iff.1 hs
  cases hs
  have hquiet : proposal.failure = none := by
    unfold propose at hp
    split at hp
    · obtain ⟨answer, ha, hp⟩ := Option.bind_eq_some_iff.1 hp
      obtain ⟨plan, -, rfl⟩ := Option.map_eq_some_iff.1 ha
      cases hp
      rfl
    · cases hp
      rfl
  rw [settleBoxes_toolFailures]
  show d.metrics.externalToolFailures + (if proposal.failure.isSome then 1 else 0) = _
  rw [hquiet]
  rfl

/-- A root alone is sized without a look at the sizer. -/
theorem size_of_root {sizer sizer' : Sizer α} {d : Drawing α}
    (hn : d.hierarchy.hasNesting = false) : d.size sizer = d.size sizer' := by
  simp only [size, propose, hn]
  rfl

end NestedLayout.Drawing
