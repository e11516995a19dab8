import NestedLayout.Proofs.Exact.Rect
import NestedLayout.Proofs.Fold
import NestedLayout.Proofs.Hierarchy.Walk
import NestedLayout.Sizing.Containment

/-!
# Valid boxes

`Containment.Valid` says what `validate` checks, as a statement about containers: each has a box,
which lies in the padded interior of its parent's box, and no two siblings overlap without one
containing the other.

* `validate_ok_iff`: the check passes exactly on valid boxes.
* `enforce_of_valid`: there is nothing to repair in valid boxes, whatever the retries.
-/

set_option autoImplicit false

namespace NestedLayout

/-! ## Pairs -/

section
variable {β : Type} {l : List β} {a b : β}

theorem mem_of_mem_pairsOf (h : (a, b) ∈ pairsOf l) : a ∈ l ∧ b ∈ l := by
  induction l with
  | nil => cases h
  | cons x l ih =>
    rcases List.mem_append.1 h with h | h
    · obtain ⟨y, hy, he⟩ := List.mem_map.1 h
      cases he
      exact ⟨.head _, .tail _ hy⟩
    · exact ⟨.tail _ (ih h).1, .tail _ (ih h).2⟩

/-- The later member of a pair is not the first of the list. -/
theorem mem_tail_of_mem_pairsOf (h : (a, b) ∈ pairsOf l) : b ∈ l.tail := by
  cases l with
  | nil => cases h
  | cons x l =>
    rcases List.mem_append.1 h with h | h
    · obtain ⟨y, hy, he⟩ := List.mem_map.1 h
      cases he
      exact hy
    · exact (mem_of_mem_pairsOf h).2

theorem ne_of_mem_pairsOf (hl : l.Nodup) (h : (a, b) ∈ pairsOf l) : a ≠ b := by
  induction l with
  | nil => cases h
  | cons x l ih =>
    obtain ⟨hx, hl⟩ := List.nodup_cons.1 hl
    rcases List.mem_append.1 h with h | h
    · obtain ⟨y, hy, he⟩ := List.mem_map.1 h
      cases he
      rintro rfl
      exact hx hy
    · exact ih hl h

theorem pairsOf_map {γ : Type} (f : β → γ) (l : List β) :
    pairsOf (l.map f) = (pairsOf l).map fun p => (f p.1, f p.2) := by
  induction l with
  | nil => rfl
  | cons a l ih =>
    rw [List.map_cons, pairsOf, pairsOf, ih, List.map_append, List.map_map, List.map_map]
    rfl

theorem mem_pairsOf_of_ne (ha : a ∈ l) (hb : b ∈ l) (hne : a ≠ b) :
    (a, b) ∈ pairsOf l ∨ (b, a) ∈ pairsOf l := by
  induction l with
  | nil => cases ha
  | cons x l ih =>
    simp only [pairsOf, List.mem_append, List.mem_map, Prod.mk.injEq]
    rcases List.mem_cons.1 ha with rfl | ha'
    · rcases List.mem_cons.1 hb with rfl | hb'
      · exact absurd rfl hne
      · exact .inl (.inl ⟨b, hb', rfl, rfl⟩)
    · rcases List.mem_cons.1 hb with rfl | hb'
      · exact .inr (.inl ⟨a, ha', rfl, rfl⟩)
      · exact (ih ha' hb').imp .inr .inr

/-- A pair of at most two members is the only one. -/
theorem pairsOf_eq_singleton {q : β × β} (hl : l.length ≤ 2) (hq : q ∈ pairsOf l) :
    pairsOf l = [q] := by
  match l, hl with
  | [], _ => cases hq
  | [_], _ => cases hq
  | [_, _], _ => simpa [pairsOf, eq_comm] using hq
  | _ :: _ :: _ :: _, hl => simp at hl

end

namespace Containment

variable {α : Type} [Scalar α]

/-- Boxes that pass the check. -/
structure Valid (h : Hierarchy) (padding : α × α) (boxes : Boxes α) : Prop where
  boxed : ∀ {id}, h.containers.contains id = true → ∃ box, boxes.get? id = some box
  inside : ∀ {p c pbox box}, h.parent? c = some p → boxes.get? p = some pbox →
    boxes.get? c = some box → (pbox.deflate padding.1 padding.2).contains box = true
  apart : ∀ {p a b}, h.parent? a = some p → h.parent? b = some p → a ≠ b →
    partiallyOverlap boxes a b = false

theorem partiallyOverlap_comm (boxes : Boxes α) (a b : String) :
    partiallyOverlap boxes a b = partiallyOverlap boxes b a := by
  unfold partiallyOverlap
  cases boxes.get? a with
  | none => cases boxes.get? b <;> rfl
  | some x =>
    cases boxes.get? b with
    | none => rfl
    | some y =>
      show (x.intersects y && !x.contains y && !y.contains x) =
        (y.intersects x && !y.contains x && !x.contains y)
      rw [Rect.intersects_comm, Bool.and_right_comm]

/-- Boxes that overlap where one contains the other one are allowed. -/
theorem partiallyOverlap_eq_false_iff {boxes : Boxes α} {a b : String} {x y : Rect α}
    (ha : boxes.get? a = some x) (hb : boxes.get? b = some y) :
    partiallyOverlap boxes a b = false ↔
      x.intersects y = false ∨ x.contains y = true ∨ y.contains x = true := by
  simp only [partiallyOverlap, ha, hb, Bool.and_eq_false_iff, Bool.not_eq_false', or_assoc]

theorem partiallyOverlap_of_apart {boxes : Boxes α} {a b : String}
    (h : ∀ x y, boxes.get? a = some x → boxes.get? b = some y → x.intersects y = false) :
    partiallyOverlap boxes a b = false := by
  unfold partiallyOverlap
  split
  · rename_i x y hx hy
    rw [h x y hx hy, Bool.false_and, Bool.false_and]
  · rfl

/-- No two of the children of a container overlap partially, as the search for pairs sees it. -/
theorem find?_pairsOf_eq_none_iff {h : Hierarchy} (t : h.IsTree) {boxes : Boxes α} {p : String} :
    ((pairsOf (h.children p)).find? fun q => partiallyOverlap boxes q.1 q.2) = none ↔
      ∀ a b, h.parent? a = some p → h.parent? b = some p → a ≠ b →
        partiallyOverlap boxes a b = false := by
  rw [List.find?_eq_none]
  refine ⟨fun hall a b ha hb hne => ?_, ?_⟩
  · rcases mem_pairsOf_of_ne (t.mem_children.2 ha) (t.mem_children.2 hb) hne with hm | hm
    · simpa using hall _ hm
    · rw [partiallyOverlap_comm]
      simpa using hall _ hm
  · rintro hall ⟨a, b⟩ hm
    obtain ⟨ha, hb⟩ := mem_of_mem_pairsOf hm
    simpa using hall a b (t.mem_children.1 ha) (t.mem_children.1 hb)
      (ne_of_mem_pairsOf (t.nodupChildren p) hm)

/-! ## The check -/

theorem forM_ok_iff {β ε : Type} {l : List β} {f : β → Except ε Unit} :
    l.forM f = .ok () ↔ ∀ x ∈ l, f x = .ok () := by
  induction l with
  | nil => exact iff_of_true rfl (by simp)
  | cons x l ih =>
    rw [List.forall_mem_cons, ← ih]
    show (f x >>= fun _ => l.forM f) = .ok () ↔ _
    cases f x with
    | error e => simp [bind, Except.bind]
    | ok u => simp [bind, Except.bind]

/-- Where the check passes every container has a box. -/
theorem boxed_of_validate {h : Hierarchy} {boxes : Boxes α} {padding : α × α}
    (hok : validate h boxes padding = .ok ()) {id : String}
    (hid : h.containers.contains id = true) : boxes.contains id = true := by
  obtain ⟨c, hc⟩ := Table.contains_iff.1 hid
  have hcheck := forM_ok_iff.1 hok (id, c) (Table.mem_entries_iff.2 hc)
  unfold check at hcheck
  cases hb : boxes.get? id with
  | none => simp [hb] at hcheck
  | some box => exact Table.contains_of_get? hb

section
variable {h : Hierarchy} (t : h.IsTree) {boxes : Boxes α} {padding : α × α}
include t

theorem check_ok_iff {id : String} {c : Container} (hc : h.container? id = some c) :
    check boxes padding id c = .ok () ↔
      (∃ box, boxes.get? id = some box ∧ ∀ p, h.parent? id = some p →
        ∃ pbox, boxes.get? p = some pbox ∧
          (pbox.deflate padding.1 padding.2).contains box = true) ∧
      ∀ a b, h.parent? a = some id → h.parent? b = some id → a ≠ b →
        partiallyOverlap boxes a b = false := by
  rw [← find?_pairsOf_eq_none_iff t, Hierarchy.container?_children hc,
    Hierarchy.container?_parent hc]
  unfold check
  cases hb : boxes.get? id with
  | none => simp
  | some box =>
    cases hp : c.parent with
    | none =>
      cases hf : (pairsOf c.children).find? fun q => partiallyOverlap boxes q.1 q.2 with
      | none => simp [pure, Except.pure]
      | some q => simp
    | some p =>
      cases hpb : boxes.get? p with
      | none => simp [bind, Except.bind, hpb]
      | some pbox =>
        cases hcon : (pbox.deflate padding.1 padding.2).contains box with
        | false => simp [bind, Except.bind, hpb, hcon]
        | true =>
          cases hf : (pairsOf c.children).find? fun q => partiallyOverlap boxes q.1 q.2 with
          | none => simp [pure, Except.pure, hpb, hcon]
          | some q => simp [hpb, hcon]

/-- **The check passes exactly on valid boxes.** -/
theorem validate_ok_iff : validate h boxes padding = .ok () ↔ Valid h padding boxes := by
  rw [validate, forM_ok_iff]
  refine ⟨fun hall => ?_, ?_⟩
  · have hcheck := fun {id c} (hc : h.container? id = some c) =>
      (check_ok_iff t hc).1 (hall (id, c) (Table.mem_entries_iff.2 hc))
    refine ⟨fun hid => ?_, fun {p c pbox box} hp hpb hb => ?_, fun {p a b} ha hb hne => ?_⟩
    · obtain ⟨c, hc⟩ := Table.contains_iff.1 hid
      obtain ⟨⟨box, hbox, -⟩, -⟩ := hcheck hc
      exact ⟨box, hbox⟩
    · obtain ⟨n, hc⟩ := Table.contains_iff.1 (Hierarchy.known_of_parent hp)
      obtain ⟨⟨box', hbox, hin⟩, -⟩ := hcheck hc
      cases hbox.symm.trans hb
      obtain ⟨pbox', hpbox, hcon⟩ := hin p hp
      cases hpbox.symm.trans hpb
      exact hcon
    · obtain ⟨n, hc⟩ := Table.contains_iff.1 (t.parentKnown ha)
      exact (hcheck hc).2 a b ha hb hne
  · rintro hv ⟨id, c⟩ hm
    have hc : h.container? id = some c := Table.mem_entries_iff.1 hm
    refine (check_ok_iff t hc).2 ⟨?_, fun a b ha hb hne => hv.apart ha hb hne⟩
    obtain ⟨box, hbox⟩ := hv.boxed (Table.contains_of_get? hc)
    refine ⟨box, hbox, fun p hp => ?_⟩
    obtain ⟨pbox, hpbox⟩ := hv.boxed (t.parentKnown hp)
    exact ⟨pbox, hpbox, hv.inside hp hpbox hbox⟩

/-! ## The repair -/

omit t in
theorem pullInside_of_inside {inner box : Rect α} {r : Repair α} {c : String}
    (hbox : r.boxes.get? c = some box) (hin : inner.contains box = true) :
    pullInside h inner r c = r := by
  simp only [pullInside, hbox, hin, if_true]

theorem pullInside_of_valid (hv : Valid h padding boxes) {p : String} {pbox : Rect α}
    (hp : boxes.get? p = some pbox) {c : String} (hc : c ∈ h.children p) (n : Nat) :
    pullInside h (pbox.deflate padding.1 padding.2) ⟨boxes, n⟩ c = ⟨boxes, n⟩ := by
  cases hbox : boxes.get? c with
  | none => simp only [pullInside, hbox]
  | some box => exact pullInside_of_inside hbox (hv.inside (t.mem_children.1 hc) hp hbox)

omit t in
theorem separate_of_apart {a b : String} {r : Repair α}
    (hab : partiallyOverlap r.boxes a b = false) (n : Nat) : separate h a b n r = .ok r := by
  unfold separate
  simp [hab]

theorem enforceAt_of_valid (hv : Valid h padding boxes) (retries n : Nat) (p : String) :
    enforceAt h padding retries ⟨boxes, n⟩ p = .ok ⟨boxes, n⟩ := by
  unfold enforceAt
  split
  · rfl
  · rename_i pbox hp
    have hpull : (h.children p).foldl (pullInside h (pbox.deflate padding.1 padding.2))
        ⟨boxes, n⟩ = ⟨boxes, n⟩ := Fold.stays fun c hc => pullInside_of_valid t hv hp hc n
    dsimp only
    rw [hpull]
    refine Fold.staysM (m := Except (FailedRepair α)) fun q hq => ?_
    obtain ⟨ha, hb⟩ := mem_of_mem_pairsOf (a := q.1) (b := q.2) hq
    exact separate_of_apart (hv.apart (t.mem_children.1 ha) (t.mem_children.1 hb)
      (ne_of_mem_pairsOf (t.nodupChildren p) hq)) _

/-- **Valid boxes need no repair.** -/
theorem enforce_of_valid (hv : Valid h padding boxes) (retries : Nat) :
    enforce h boxes padding retries = .ok ⟨boxes, 0⟩ :=
  Fold.staysM (m := Except (FailedRepair α)) fun p _ => enforceAt_of_valid t hv retries 0 p

end

end Containment

end NestedLayout
