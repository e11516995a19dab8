import NestedLayout.Proofs.Space.FirstFit
import NestedLayout.Proofs.Table

/-!
# One element after the other

The search does not keep to the cells of a grid: it takes the first position for one element after
the other (`SpaceLedger.seat`). In exact arithmetic a container without children surely has places
for the first row of a grid, whatever the sizes of its elements.

* `FirstRow.next`, `FirstRow.seat`: as many elements as the row has cells find places on it, each no
  further right than its cell.
* `FirstRow.exists_below`, `FirstRow.seat_one_more`: below them there is a place for one more.
-/

set_option autoImplicit false

namespace NestedLayout

open Scalar (epsilon)

/-! ## One element after the other -/

namespace SpaceLedger

section
variable {α : Type}

theorem mem_occupy {e : String} {b : Rect α} {rs : List (OccupiedRegion α)}
    {r : OccupiedRegion α} (hr : r ∈ occupy e b rs) : r.bounds = b ∨ r ∈ rs := by
  induction rs with
  | nil =>
    obtain rfl := List.mem_singleton.1 hr
    exact .inl rfl
  | cons s rest ih =>
    unfold occupy at hr
    split at hr
    · rcases List.mem_cons.1 hr with rfl | hr
      · exact .inl rfl
      · exact .inr (.tail _ hr)
    · rcases List.mem_cons.1 hr with rfl | hr
      · exact .inr (.head _)
      · exact (ih hr).imp_right (.tail _)

variable {l : SpaceLedger α} {a : Allotment α} {container : String}
  (ha : l.allotments.get? container = some a)
include ha

theorem allotment_registerElement (e : String) (b : Rect α) :
    (l.registerElement container e b).allotments.get? container =
      some { a with occupied := occupy e b a.occupied } := by
  rw [registerElement, Table.get?_modify, if_pos rfl, ha, Option.map_some]

/-- In a container without children only the elements are to be kept clear of. -/
theorem exclusionZones_of_leaf {h : Hierarchy} (hleaf : h.children container = [])
    (boxes : Boxes α) : l.exclusionZones h boxes container = a.occupied.map (·.bounds) := by
  simp only [exclusionZones, ha, childZones, hleaf, List.filterMap_nil, List.append_nil]

end

section
variable {α : Type} [Scalar α] (h : Hierarchy) (extents : IdTable (Extent α)) (boxes : Boxes α)
  (container : String) (limit : Nat)

/-- Registers elements one after the other, each at the first position for it; `none` when one of
them has no position. -/
def seat : SpaceLedger α → List String → Option (SpaceLedger α)
  | l, [] => some l
  | l, e :: rest =>
    (extents.get? e).bind fun extent =>
      let size := extent.unitSize l.scale
      (l.firstPosition? h boxes container size limit).bind fun center =>
        seat (l.registerElement container e (.fromCenter center size.1 size.2)) rest

theorem seat_append (l : SpaceLedger α) (es es' : List String) :
    l.seat h extents boxes container limit (es ++ es') =
      (l.seat h extents boxes container limit es).bind fun l' =>
        l'.seat h extents boxes container limit es' := by
  induction es generalizing l with
  | nil => rfl
  | cons e rest ih => simp only [List.cons_append, seat, Option.bind_assoc, ih]

variable {h extents boxes container limit}

theorem seat_cons {l : SpaceLedger α} {e : String} {x : Extent α} {p : Point α}
    (hx : extents.get? e = some x)
    (hp : l.firstPosition? h boxes container (x.unitSize l.scale) limit = some p)
    (rest : List String) :
    l.seat h extents boxes container limit (e :: rest) =
      (l.registerElement container e (.fromCenter p (x.unitSize l.scale).1
        (x.unitSize l.scale).2)).seat h extents boxes container limit rest := by
  simp only [seat, hx, hp, Option.bind_some]

end

end SpaceLedger

/-! ## The first row -/

/-- A ledger whose container, with this interior, has elements in its first row only, none of them
beyond the given number of cells. -/
structure FirstRow (container : String) (area : Rect ℝ) (cell gap : ℝ × ℝ) (count : Nat)
    (l : SpaceLedger ℝ) : Prop where
  halfGap : l.halfGap = (gap.1 / 2, gap.2 / 2)
  allotted : ∃ a, l.allotments.get? container = some a ∧ a.available = area ∧
    ∀ r ∈ a.occupied, r.bounds.right + gap.1 ≤ area.left + count * (cell.1 + gap.1) ∧
      r.bounds.bottom ≤ area.top + cell.2

/-- An extent that is no larger than a cell. -/
structure FitsCell (size cell : ℝ × ℝ) : Prop where
  width : 0 ≤ size.1 ∧ size.1 ≤ cell.1
  height : 0 ≤ size.2 ∧ size.2 ≤ cell.2

theorem FitsCell.fitsInto {size cell : ℝ × ℝ} {area : Rect ℝ} (hs : FitsCell size cell)
    (hw : cell.1 ≤ area.width) (hh : cell.2 ≤ area.height) : FitsInto size area :=
  ⟨⟨hs.width.1, hs.width.2.trans hw⟩, ⟨hs.height.1, hs.height.2.trans hh⟩⟩

namespace FirstRow

section
variable {h : Hierarchy} {boxes : Boxes ℝ} {container : String} {limit : Nat} {area : Rect ℝ}
  {cell gap size : ℝ × ℝ} {count : Nat} {l : SpaceLedger ℝ}
  (hleaf : h.children container = []) (hlimit : 0 < limit) (hsize : FitsCell size cell)
  (hrow : FirstRow container area cell gap count l)
include hleaf hlimit hsize hrow

variable (boxes) in
/-- **One more element finds a place on the first row**, no further right than its cell. -/
theorem next (hgap : epsilon ≤ gap.1 / 2)
    (hwide : (count + 1 : Nat) * (cell.1 + gap.1) ≤ area.width + gap.1)
    (hhigh : cell.2 ≤ area.height) (e : String) :
    ∃ p, l.firstPosition? h boxes container size limit = some p ∧
      FirstRow container area cell gap (count + 1)
        (l.registerElement container e (.fromCenter p size.1 size.2)) := by
  obtain ⟨a, ha, rfl, hocc⟩ := hrow.allotted
  have heps := Scalar.epsilon_pos
  have hcell : 0 ≤ cell.1 := hsize.width.1.trans hsize.width.2
  have hstart : 0 ≤ (count : ℝ) * (cell.1 + gap.1) :=
    mul_nonneg (Nat.cast_nonneg _) (by linarith)
  rw [Nat.cast_succ, add_one_mul, Rect.width_eq] at hwide
  have hfit : FitsInto size a.available :=
    hsize.fitsInto (by rw [Rect.width_eq]; linarith) hhigh
  have hreach : ∀ z ∈ l.exclusionZones h boxes container,
      z.right + 2 * l.halfGap.1 ≤ a.available.left + count * (cell.1 + gap.1) := by
    intro z hz
    rw [SpaceLedger.exclusionZones_of_leaf ha hleaf] at hz
    obtain ⟨r, hr, rfl⟩ := List.mem_map.1 hz
    rw [hrow.halfGap]
    linarith [(hocc r hr).1]
  obtain ⟨p, hp, hy, hx⟩ := SpaceLedger.firstPosition?_inFirstRow ha hfit hlimit
    (hrow.halfGap ▸ hgap) (by linarith) (by linarith [hsize.width.2]) hreach
  refine ⟨p, hp, hrow.halfGap, _, SpaceLedger.allotment_registerElement ha e _, rfl,
    fun r hr => ?_⟩
  rw [Nat.cast_succ, add_one_mul]
  rcases SpaceLedger.mem_occupy hr with hb | hr
  · rw [hb, Rect.fromCenter_of_nonneg _ hsize.width.1 hsize.height.1]
    constructor <;> simp only <;> linarith [hsize.width.2, hsize.height.2]
  · exact ⟨by linarith [(hocc r hr).1], (hocc r hr).2⟩

variable (boxes) in
/-- **Below the first row there is one more place.** -/
theorem exists_below (hgap : epsilon ≤ gap.2 / 2) (hwide : cell.1 ≤ area.width)
    (hhigh : 2 * cell.2 + gap.2 ≤ area.height) :
    ∃ p, l.firstPosition? h boxes container size limit = some p := by
  obtain ⟨a, ha, rfl, hocc⟩ := hrow.allotted
  have heps := Scalar.epsilon_pos
  have hcell : 0 ≤ cell.2 := hsize.height.1.trans hsize.height.2
  have hfit : FitsInto size a.available := hsize.fitsInto hwide (by linarith)
  refine SpaceLedger.firstPosition?_below ha hfit hlimit (hrow.halfGap ▸ hgap) fun z hz => ?_
  rw [SpaceLedger.exclusionZones_of_leaf ha hleaf] at hz
  obtain ⟨r, hr, rfl⟩ := List.mem_map.1 hz
  rw [hrow.halfGap]
  rw [Rect.height_eq] at hhigh
  linarith [(hocc r hr).2, hsize.height.2]

end

section
variable {h : Hierarchy} {extents : IdTable (Extent ℝ)} (boxes : Boxes ℝ) {container : String}
  {limit : Nat} {area : Rect ℝ} {cell gap : ℝ × ℝ}
  (hleaf : h.children container = []) (hlimit : 0 < limit)
include hleaf hlimit

/-- **All elements for which the first row has cells find places on it.** -/
theorem seat {es : List String} {count : Nat} {l : SpaceLedger ℝ}
    (hrow : FirstRow container area cell gap count l)
    (hes : ∀ e ∈ es, ∃ x, extents.get? e = some x ∧ FitsCell (x.unitSize l.scale) cell)
    (hgap : epsilon ≤ gap.1 / 2)
    (hwide : (count + es.length : Nat) * (cell.1 + gap.1) ≤ area.width + gap.1)
    (hhigh : cell.2 ≤ area.height) :
    ∃ l', l.seat h extents boxes container limit es = some l' ∧ l'.scale = l.scale ∧
      FirstRow container area cell gap (count + es.length) l' := by
  induction es generalizing count l with
  | nil => exact ⟨l, rfl, rfl, hrow⟩
  | cons e rest ih =>
    have heps := Scalar.epsilon_pos
    obtain ⟨x, hx, hsize⟩ := hes e (.head _)
    have hpitch : 0 ≤ cell.1 + gap.1 := by linarith [hsize.width.1.trans hsize.width.2]
    have hlen : count + (e :: rest).length = count + 1 + rest.length := by
      rw [List.length_cons]
      omega
    rw [hlen] at hwide ⊢
    have hcells : (count + 1 : Nat) * (cell.1 + gap.1) ≤ area.width + gap.1 :=
      (mul_le_mul_of_nonneg_right (Nat.cast_le.2 (Nat.le_add_right _ _)) hpitch).trans hwide
    obtain ⟨p, hp, hnext⟩ := next boxes hleaf hlimit hsize hrow hgap hcells hhigh e
    rw [SpaceLedger.seat_cons hx hp]
    exact ih hnext (fun e' he' => hes e' (.tail _ he')) hwide

/-- **The elements of the first row and one more find places**, the last one where there is a second
row. -/
theorem seat_one_more {es : List String} {columns : Nat} {l : SpaceLedger ℝ}
    (hrow : FirstRow container area cell gap 0 l)
    (hes : ∀ e ∈ es, ∃ x, extents.get? e = some x ∧ FitsCell (x.unitSize l.scale) cell)
    (hgapX : epsilon ≤ gap.1 / 2) (hgapY : epsilon ≤ gap.2 / 2)
    (hcell : 0 ≤ cell.1) (hwide : columns * (cell.1 + gap.1) ≤ area.width + gap.1)
    (hroom : cell.1 ≤ area.width ∧ cell.2 ≤ area.height)
    (hrows : columns < es.length → 2 * cell.2 + gap.2 ≤ area.height) :
    ∃ l', l.seat h extents boxes container limit (es.take (columns + 1)) = some l' := by
  have heps := Scalar.epsilon_pos
  have hlen : 0 + (es.take columns).length ≤ columns := by
    rw [List.length_take]
    omega
  have hcells : (0 + (es.take columns).length : Nat) * (cell.1 + gap.1) ≤ area.width + gap.1 :=
    (mul_le_mul_of_nonneg_right (Nat.cast_le.2 hlen) (by linarith)).trans hwide
  obtain ⟨l', hl', hscale, hrow'⟩ := seat boxes hleaf hlimit hrow
    (fun e he => hes e (List.mem_of_mem_take he)) hgapX hcells hroom.2
  rw [List.take_add_one, SpaceLedger.seat_append, hl', Option.bind_some]
  cases hget : es[columns]? with
  | none => exact ⟨l', rfl⟩
  | some e =>
    obtain ⟨hlt, -⟩ := List.getElem?_eq_some_iff.1 hget
    obtain ⟨x, hx, hsize⟩ := hes e (List.mem_of_getElem? hget)
    rw [← hscale] at hsize
    obtain ⟨p, hp⟩ := exists_below boxes hleaf hlimit hsize hrow' hgapY hroom.1
      (hrows hlt)
    exact ⟨_, SpaceLedger.seat_cons hx hp []⟩

end

end FirstRow

end NestedLayout
