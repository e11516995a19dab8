import NestedLayout.Proofs.Fold
import NestedLayout.Proofs.Table
import NestedLayout.Space.Ledger

/-!
# What a ledger records

The ledger keeps a list of occupied regions for each container. `SpaceLedger.Records` says that
these lists are right: each element stands in them once, with its footprint, and nothing else does.

* `Records.register`: registering an element keeps the lists right.
* `Records.congr_regions`: changes to requirements and corridors leave them alone.
* `reservations_get?`: which corridors a ledger reserves, container by container.
-/

set_option autoImplicit false

namespace NestedLayout.SpaceLedger

variable {α : Type}

/-! ## Regions -/

theorem occupy_ids (e : String) (b : Rect α) (rs : List (OccupiedRegion α)) :
    (occupy e b rs).map (·.id) =
      if e ∈ rs.map (·.id) then rs.map (·.id) else rs.map (·.id) ++ [e] := by
  induction rs with
  | nil => rfl
  | cons r rs ih =>
    unfold occupy
    by_cases hr : r.id = e
    · simp [hr]
    · rw [if_neg hr, List.map_cons, ih]
      by_cases he : e ∈ rs.map (·.id) <;> simp [he, Ne.symm hr]

theorem nodup_occupy {e : String} {b : Rect α} {rs : List (OccupiedRegion α)}
    (h : (rs.map (·.id)).Nodup) : ((occupy e b rs).map (·.id)).Nodup := by
  rw [occupy_ids]
  split
  · exact h
  · rename_i he
    exact List.nodup_append.2 ⟨h, List.nodup_singleton _, fun x hx y hy hxy =>
      he (List.mem_singleton.1 hy ▸ hxy ▸ hx)⟩

/-- **Among the regions** afterwards are the new one of the element and the old ones of the
others. -/
theorem mem_occupy_iff {e : String} {b : Rect α} {rs : List (OccupiedRegion α)}
    (h : (rs.map (·.id)).Nodup) {x : String} {r : Rect α} :
    ⟨x, r⟩ ∈ occupy e b rs ↔ if x = e then r = b else ⟨x, r⟩ ∈ rs := by
  induction rs with
  | nil => by_cases hx : x = e <;> simp [occupy, hx]
  | cons s rs ih =>
    obtain ⟨hs, hrs⟩ := List.nodup_cons.1 (List.map_cons ▸ h)
    unfold occupy
    by_cases hse : s.id = e
    · have hout : ∀ r, (⟨e, r⟩ : OccupiedRegion α) ∉ rs := fun r hm =>
        hs (hse ▸ List.mem_map_of_mem (f := (·.id)) hm)
      subst hse
      by_cases hx : x = s.id
      · subst hx
        simp [hout]
      · have hne : (⟨x, r⟩ : OccupiedRegion α) ≠ s := fun he => hx (congrArg (·.id) he)
        simp [hx, hne]
    · rw [if_neg hse, List.mem_cons, List.mem_cons, ih hrs]
      by_cases hx : x = e
      · have hne : (⟨x, r⟩ : OccupiedRegion α) ≠ s := fun he =>
          hse ((congrArg (·.id) he).symm.trans hx)
        simp [hx, hx ▸ hne]
      · simp [hx]

/-! ## The ledger -/

/-- The occupied regions of every container are those that are given, each once. -/
structure Records (l : SpaceLedger α) (R : String → String → Rect α → Prop) : Prop where
  once : ∀ {c a}, l.allotments.get? c = some a → (a.occupied.map (·.id)).Nodup
  mem_iff : ∀ {c a}, l.allotments.get? c = some a → ∀ {e r}, ⟨e, r⟩ ∈ a.occupied ↔ R c e r

section
variable {l l' : SpaceLedger α} {R R' : String → String → Rect α → Prop}

theorem Records.of_empty (h : ∀ {c a}, l.allotments.get? c = some a → a.occupied = []) :
    l.Records fun _ _ _ => False where
  once ha := by rw [h ha]; exact List.nodup_nil
  mem_iff ha := by simp [h ha]

theorem Records.congr (h : l.Records R) (hR : ∀ c e r, R c e r ↔ R' c e r) : l.Records R' where
  once := h.once
  mem_iff ha := (h.mem_iff ha).trans (hR _ _ _)

/-- What leaves the regions of every container alone leaves them right. -/
theorem Records.congr_regions (h : l.Records R)
    (hl : ∀ c, (l'.allotments.get? c).map (·.occupied) = (l.allotments.get? c).map (·.occupied)) :
    l'.Records R := by
  have hold : ∀ {c a}, l'.allotments.get? c = some a →
      ∃ a', l.allotments.get? c = some a' ∧ a'.occupied = a.occupied := fun {c a} ha => by
    have := hl c
    rw [ha] at this
    exact Option.map_eq_some_iff.1 this.symm
  refine ⟨fun {c a} ha => ?_, fun {c a} ha {e r} => ?_⟩
  · obtain ⟨a', ha', ho⟩ := hold ha
    exact ho ▸ h.once ha'
  · obtain ⟨a', ha', ho⟩ := hold ha
    exact ho ▸ h.mem_iff ha'

/-- **Registering an element** of a container makes its footprint the only region that it has. -/
theorem Records.register (h : l.Records R) {c e : String} {b : Rect α}
    (hc : ∀ c' r, R c' e r → c' = c) : (l.registerElement c e b).Records
      fun c' x r => if x = e then c' = c ∧ r = b else R c' x r := by
  have hget : ∀ {c' a}, (l.registerElement c e b).allotments.get? c' = some a →
      ∃ old, l.allotments.get? c' = some old ∧
        a.occupied = if c' = c then occupy e b old.occupied else old.occupied := fun {c' a} ha => by
    rw [registerElement, Table.get?_modify] at ha
    by_cases hcc : c' = c
    · rw [if_pos hcc] at ha
      obtain ⟨old, hold, rfl⟩ := Option.map_eq_some_iff.1 ha
      exact ⟨old, hold, by rw [if_pos hcc]⟩
    · rw [if_neg hcc] at ha
      exact ⟨a, ha, by rw [if_neg hcc]⟩
  refine ⟨fun {c' a} ha => ?_, fun {c' a} ha {x r} => ?_⟩
  · obtain ⟨old, hold, ho⟩ := hget ha
    rw [ho]
    split
    · exact nodup_occupy (h.once hold)
    · exact h.once hold
  · obtain ⟨old, hold, ho⟩ := hget ha
    rw [ho]
    by_cases hcc : c' = c
    · rw [if_pos hcc, mem_occupy_iff (h.once hold), h.mem_iff hold]
      simp [hcc]
    · rw [if_neg hcc, h.mem_iff hold]
      by_cases hx : x = e
      · subst hx
        simp only [if_true, hcc, false_and, iff_false]
        exact fun hr => hcc (hc _ _ hr)
      · simp [hx]

end

/-! ## Corridors -/

theorem modify_get? (l : SpaceLedger α) (container c : String) (f : Allotment α → Allotment α) :
    (l.allotments.modify container f).get? c =
      (l.allotments.get? c).map fun a => if c = container then f a else a := by
  rw [Table.get?_modify]
  by_cases hc : c = container
  · simp [hc]
  · simp [hc]

/-- The corridors that a list of reservations holds for one container. -/
def corridorsFor (c : String) (reservations : List (String × List (Rect α))) : List (Rect α) :=
  (reservations.filter fun r => r.1 = c).flatMap (·.2)

/-- Reserving corridors in one container adds them at the end there. -/
theorem reserveAll_get? (l : SpaceLedger α) (container : String) (corridors : List (Rect α))
    (c : String) :
    (corridors.foldl (fun l r => l.reserveRegion container r) l).allotments.get? c =
      (l.allotments.get? c).map fun a =>
        { a with reserved := a.reserved ++ if c = container then corridors else [] } := by
  refine Fold.keeps (f := fun l r => reserveRegion l container r) (fun done l' =>
    l'.allotments.get? c = (l.allotments.get? c).map fun a =>
      { a with reserved := a.reserved ++ if c = container then done else [] })
    (by simp) fun done r rest l' _ hd => ?_
  rw [reserveRegion, modify_get?, hd, Option.map_map]
  congr 1
  funext a
  by_cases hc : c = container <;> simp [hc]

/-- **Reservations in turn** on a cleared ledger leave in every container those made for it. -/
theorem reservations_get? (l : SpaceLedger α) (reservations : List (String × List (Rect α)))
    (c : String) :
    (reservations.foldl (fun l r => r.2.foldl (fun l b => l.reserveRegion r.1 b) l)
        l.clearReserved).allotments.get? c =
      (l.allotments.get? c).map fun a => { a with reserved := corridorsFor c reservations } := by
  refine Fold.keeps (f := fun l (r : String × List (Rect α)) =>
      r.2.foldl (fun l b => reserveRegion l r.1 b) l) (fun done l' =>
    l'.allotments.get? c = (l.allotments.get? c).map fun a =>
      { a with reserved := corridorsFor c done }) ?_ fun done r rest l' _ hd => ?_
  · exact Table.get?_map _ _ _
  · rw [reserveAll_get?, hd, Option.map_map]
    congr 1
    funext a
    by_cases hc : c = r.1
    · simp [corridorsFor, hc]
    · simp [corridorsFor, hc, Ne.symm hc]

/-! ## Requirements -/

variable [Scalar α]

theorem climb_allotments (h : Hierarchy) (extents : IdTable (Extent α)) (n : Nat)
    (l : SpaceLedger α) (id : Option String) :
    (climb h extents n l id).1.allotments = l.allotments := by
  induction n generalizing l id with
  | zero => rfl
  | succ n ih =>
    cases id with
    | none => rfl
    | some id =>
      unfold climb
      dsimp only
      split
      · exact (ih _ _).trans rfl
      · rfl

theorem propagate_allotments (l : SpaceLedger α) (h : Hierarchy) (extents : IdTable (Extent α))
    (id : String) (r : Requirement α) :
    (l.propagate h extents id r).1.allotments = l.allotments :=
  climb_allotments h extents _ _ _

end NestedLayout.SpaceLedger
