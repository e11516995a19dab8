import NestedLayout.Proofs.Sizing.Repair
import NestedLayout.Scalar.Binary32

/-!
# Checking and repairing agree

`Containment.validate` looks at every container from the side of the child, in the order of the ids;
`Containment.enforce` looks at the children of every container, parents first. Both ask the same
questions, and nothing here uses more of the coordinates than that each comparison has an answer:
the statements hold in every arithmetic, in single precision also for values that are no numbers.

* `Counts`: a repair that has counted no correction has left the boxes as they were, and found
  nothing to correct. One lemma for each of `pullInside`, `separate`, `enforceAt` and `enforce`.
* `CleanAt`, `valid_of_cleanAt`: there is nothing to correct at any container that the walk comes
  to, so the boxes are valid.
* `validate_ok_iff_enforce`: the check passes exactly when the repair gets through without a
  correction.
-/

set_option autoImplicit false

namespace NestedLayout.Containment

/-! ## Counting corrections -/

section
variable {α : Type}

/-- A repair from `r` to `r'` counts its corrections: without one the boxes are as they were, and
what would have been corrected was `clean`. -/
structure Counts (r r' : Repair α) (clean : Prop) : Prop where
  le : r.corrections ≤ r'.corrections
  still : r'.corrections = r.corrections → r' = r ∧ clean

theorem Counts.refl {r : Repair α} {clean : Prop} (hc : clean) : Counts r r clean :=
  ⟨Nat.le_refl _, fun _ => ⟨rfl, hc⟩⟩

/-- Where a correction has been counted nothing needs to be clean. -/
theorem Counts.corrected {r r' : Repair α} (clean : Prop) (hlt : r.corrections < r'.corrections) :
    Counts r r' clean :=
  ⟨hlt.le, fun he => absurd he hlt.ne'⟩

theorem Counts.trans {r r₁ r₂ : Repair α} {clean : Prop} (h₁ : Counts r r₁ clean)
    (clean' : Repair α → Prop) (h₂ : Counts r₁ r₂ (clean' r₁)) :
    Counts r r₂ (clean ∧ clean' r) where
  le := h₁.le.trans h₂.le
  still he := by
    -- the counter has ended where it began, so it never moved
    have hle := h₁.le
    have hle' := h₂.le
    obtain ⟨rfl, hc⟩ := h₁.still (by omega)
    obtain ⟨rfl, hc'⟩ := h₂.still he
    exact ⟨rfl, hc, hc'⟩

/-- One more member of a list under repair. -/
theorem Counts.next {β : Type} (clean : Repair α → β → Prop) {done : List β} {x : β}
    {r r₁ r₂ : Repair α} (h₁ : Counts r r₁ (∀ y ∈ done, clean r y))
    (h₂ : Counts r₁ r₂ (clean r₁ x)) : Counts r r₂ (∀ y ∈ done ++ [x], clean r y) := by
  have h₃ := h₁.trans (fun r => clean r x) h₂
  refine ⟨h₃.le, fun he => ?_⟩
  obtain ⟨hr, hdone, hx⟩ := h₃.still he
  refine ⟨hr, fun y hy => ?_⟩
  rcases List.mem_append.1 hy with hy | hy
  · exact hdone y hy
  · exact List.mem_singleton.1 hy ▸ hx

end

variable {α : Type} [Scalar α] {h : Hierarchy}

/-! ## Single repairs -/

theorem pullInside_counts (inner : Rect α) (r : Repair α) (c : String) :
    Counts r (pullInside h inner r c)
      (∀ box, r.boxes.get? c = some box → inner.contains box = true) := by
  cases hc : r.boxes.get? c with
  | none =>
    have hstill : pullInside h inner r c = r := by simp only [pullInside, hc]
    rw [hstill]
    exact .refl (by simp)
  | some box =>
    cases hin : inner.contains box with
    | true =>
      rw [pullInside_of_inside hc hin]
      exact .refl fun box' hbox => Option.some.inj hbox ▸ hin
    | false =>
      refine .corrected _ ?_
      simp only [pullInside, hc, hin]
      exact Nat.lt_succ_self _

theorem separate_counts {a b : String} {n : Nat} {r r' : Repair α}
    (hok : separate h a b n r = .ok r') :
    Counts r r' (partiallyOverlap r.boxes a b = false) := by
  fun_induction separate h a b n r with
  | case1 r hab => cases hok
  | case2 r hab n shrunk ih => exact .corrected _ (ih hok).le
  | case3 n r hab =>
    cases hok
    exact .refl (by simpa using hab)

/-! ## One container -/

theorem pullAll_counts (inner : Rect α) (l : List String) (r : Repair α) :
    Counts r (l.foldl (pullInside h inner) r)
      (∀ c ∈ l, ∀ box, r.boxes.get? c = some box → inner.contains box = true) :=
  Fold.keeps (fun done (s : Repair α) => Counts r s
      (∀ c ∈ done, ∀ box, r.boxes.get? c = some box → inner.contains box = true))
    (.refl (by simp)) fun done c rest s _ hs =>
      .next (fun r c => ∀ box, r.boxes.get? c = some box → inner.contains box = true) hs
        (pullInside_counts inner s c)

theorem separateAll_counts {retries : Nat} {l : List (String × String)} {r r' : Repair α}
    (hok : separateAll h retries l r = .ok r') :
    Counts r r' (∀ q ∈ l, partiallyOverlap r.boxes q.1 q.2 = false) :=
  Fold.keepsM (fun done (s : Repair α) => Counts r s
      (∀ q ∈ done, partiallyOverlap r.boxes q.1 q.2 = false))
    (.refl (by simp)) (fun done q rest s s' _ hs hstep =>
      .next (fun r (q : String × String) => partiallyOverlap r.boxes q.1 q.2 = false) hs
        (separate_counts hstep)) hok

/-- The repair of a container finds nothing to correct: its children lie in its interior, and no two
of them overlap partially. -/
def CleanAt (h : Hierarchy) (padding : α × α) (boxes : Boxes α) (p : String) : Prop :=
  ∀ pbox, boxes.get? p = some pbox →
    (∀ c ∈ h.children p, ∀ box, boxes.get? c = some box →
      (pbox.deflate padding.1 padding.2).contains box = true) ∧
    ∀ q ∈ pairsOf (h.children p), partiallyOverlap boxes q.1 q.2 = false

theorem enforceAt_counts {padding : α × α} {retries : Nat} {r r' : Repair α} {p : String}
    (hok : enforceAt h padding retries r p = .ok r') :
    Counts r r' (CleanAt h padding r.boxes p) := by
  unfold enforceAt at hok
  cases hp : r.boxes.get? p with
  | none =>
    simp only [hp] at hok
    cases hok
    exact .refl fun pbox hpbox => by cases hp.symm.trans hpbox
  | some pbox =>
    simp only [hp] at hok
    have hboth := (pullAll_counts (h := h) (pbox.deflate padding.1 padding.2) (h.children p)
      r).trans (fun r => ∀ q ∈ pairsOf (h.children p), partiallyOverlap r.boxes q.1 q.2 = false)
        (separateAll_counts hok)
    refine ⟨hboth.le, fun he => (hboth.still he).imp_right fun hclean pbox' hpbox => ?_⟩
    cases hp.symm.trans hpbox
    exact hclean

/-! ## All containers -/

/-- **A run counts its corrections**: without one it has found nothing to correct at any container,
and has left the boxes as they were. -/
theorem enforce_counts {boxes : Boxes α} {padding : α × α} {retries : Nat} {r : Repair α}
    (hok : enforce h boxes padding retries = .ok r) :
    Counts ⟨boxes, 0⟩ r (∀ p ∈ h.preOrder, CleanAt h padding boxes p) :=
  Fold.keepsM (fun done (s : Repair α) =>
      Counts ⟨boxes, 0⟩ s (∀ p ∈ done, CleanAt h padding boxes p)) (.refl (by simp))
    (fun done p rest s s' _ hs hstep =>
      .next (fun r => CleanAt h padding r.boxes) hs (enforceAt_counts hstep)) hok

/-- **Boxes with nothing to correct are valid**, since the walk comes to every container. -/
theorem valid_of_cleanAt (t : h.IsTree) {boxes : Boxes α} {padding : α × α}
    (hboxed : ∀ id, h.containers.contains id = true → boxes.contains id = true)
    (hclean : ∀ p ∈ h.preOrder, CleanAt h padding boxes p) : Valid h padding boxes := by
  refine ⟨fun {id} hid => Table.contains_iff.1 (hboxed id hid),
    fun {p c pbox box} hc hp hbox => ?_, fun {p a b} ha hb hne => ?_⟩
  · have hat := hclean p (t.mem_preOrder.2 (t.parentKnown hc)) pbox hp
    exact hat.1 c (t.mem_children.2 hc) box hbox
  · obtain ⟨pbox, hp⟩ := Table.contains_iff.1 (hboxed p (t.parentKnown ha))
    have hat := hclean p (t.mem_preOrder.2 (t.parentKnown ha)) pbox hp
    exact (find?_pairsOf_eq_none_iff t).1
      (List.find?_eq_none.2 fun q hq => by simp [hat.2 q hq]) a b ha hb hne

/-- **Checking and repairing agree.** When every container has a box, whatever its coordinates, the
check passes exactly when the repair gets through without a correction; then the repair has left all
boxes as they were. -/
theorem validate_ok_iff_enforce {d : Diagram} (he : Hierarchy.extract d = .ok h) {boxes : Boxes α}
    (hboxed : ∀ id, h.containers.contains id = true → boxes.contains id = true)
    (padding : α × α) (retries : Nat) :
    (validate h boxes padding = .ok () ↔
      ∃ r, enforce h boxes padding retries = .ok r ∧ r.corrections = 0) ∧
    ∀ r, enforce h boxes padding retries = .ok r → r.corrections = 0 → r.boxes = boxes := by
  have t := (Hierarchy.extract_treeOf he).toIsTree
  refine ⟨⟨fun hok => ?_, ?_⟩, fun r hok hzero => ?_⟩
  · exact ⟨_, enforce_of_valid t ((validate_ok_iff t).1 hok) retries, rfl⟩
  · rintro ⟨r, hok, hzero⟩
    obtain ⟨-, hclean⟩ := (enforce_counts hok).still hzero
    exact (validate_ok_iff t).2 (valid_of_cleanAt t hboxed hclean)
  · obtain ⟨rfl, -⟩ := (enforce_counts hok).still hzero
    rfl

/-- Boxes in single precision on a sheet without bounds: `B` lies in `A`, and `C` shares an edge
with it. -/
def unboundedBoxes : Boxes Float32 :=
  .ofList [("A", ⟨100.0, 0.0, 200.0, 100.0⟩), ("B", ⟨102.0, 40.0, 110.0, 50.0⟩),
    ("C", ⟨200.0, 0.0, 298.5, 100.0⟩),
    ("sheet", ⟨-1.0 / 0.0, -1.0 / 0.0, 1.0 / 0.0, 1.0 / 0.0⟩)]

theorem unbounded_agrees : Hierarchy.extract huddle = .ok huddleTree ∧
    (∀ id, huddleTree.containers.contains id = true → unboundedBoxes.contains id = true) ∧
    validate huddleTree unboundedBoxes (0.0, 0.0) = .ok () ∧
    ∃ r, enforce huddleTree unboundedBoxes (0.0, 0.0) 4 = .ok r ∧ r.corrections = 0 ∧
      r.boxes = unboundedBoxes := by
  have hboxed : ∀ id, huddleTree.containers.contains id = true →
      unboundedBoxes.contains id = true := fun id hid => by
    rw [huddleTree, Table.contains_ofList_iff] at hid
    exact Table.contains_ofList_iff.2 hid
  have hvalid : validate huddleTree unboundedBoxes (0.0, 0.0) = .ok () := by decide +kernel
  obtain ⟨hiff, hsame⟩ := validate_ok_iff_enforce extract_huddle hboxed (0.0, 0.0) 4
  obtain ⟨r, hok, hzero⟩ := hiff.1 hvalid
  exact ⟨extract_huddle, hboxed, hvalid, r, hok, hzero, hsame r hok hzero⟩

end NestedLayout.Containment
