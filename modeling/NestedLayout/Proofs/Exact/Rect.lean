import NestedLayout.Geometry.AxisMap
import NestedLayout.Proofs.Exact.Scalar
import NestedLayout.Proofs.Fold

/-!
# Exact rectangles

Rectangles with real coordinates. `Rect.Within` compares two of them side by side, without the
tolerance of `Rect.contains`; a rectangle with its sides in order is `Upright`.

* `deflate_inflate`: taking the padding off again gives back an upright rectangle.
* `clampWithin_within`: what fits into a room can be moved into it.
* `IsHull`, `unionAll?_isHull`: the smallest rectangle around a list; it moves along with the list
  (`unionAll?_translate`).
* `Holds`: the points in a rectangle; the smallest rectangle around points lies in every other one
  that holds them (`ofPoints?_within`).
-/

set_option autoImplicit false

namespace NestedLayout.Rect

variable {r s u v : Rect ℝ} {dx dy dx' dy' : ℝ}

/-! ## Reading the operations -/

theorem width_eq (r : Rect ℝ) : r.width = r.right - r.left := rfl

theorem height_eq (r : Rect ℝ) : r.height = r.bottom - r.top := rfl

@[simp] theorem center_x (r : Rect ℝ) : r.center.x = (r.left + r.right) / 2 := by
  simp only [center]
  norm_num

@[simp] theorem center_y (r : Rect ℝ) : r.center.y = (r.top + r.bottom) / 2 := by
  simp only [center]
  norm_num

@[simp] theorem unit_eq : (unit : Rect ℝ) = ⟨0, 0, 1, 1⟩ := by
  simp only [unit, Rect.mk.injEq]
  norm_num

theorem translate_eq (r : Rect ℝ) (dx dy : ℝ) :
    r.translate dx dy = ⟨r.left + dx, r.top + dy, r.right + dx, r.bottom + dy⟩ := rfl

theorem inflate_eq (r : Rect ℝ) (dx dy : ℝ) :
    r.inflate dx dy = ⟨r.left - dx, r.top - dy, r.right + dx, r.bottom + dy⟩ := rfl

theorem union_eq (r s : Rect ℝ) :
    r.union s =
      ⟨min r.left s.left, min r.top s.top, max r.right s.right, max r.bottom s.bottom⟩ := by
  simp only [union, Scalar.min_real, Scalar.max_real]

theorem fromCenter_eq (c : Point ℝ) (w h : ℝ) :
    fromCenter c w h =
      ⟨c.x - max w 0 / 2, c.y - max h 0 / 2, c.x + max w 0 / 2, c.y + max h 0 / 2⟩ := by
  simp only [fromCenter, Scalar.atLeast_real]
  norm_num

theorem fromCenter_of_nonneg (c : Point ℝ) {w h : ℝ} (hw : 0 ≤ w) (hh : 0 ≤ h) :
    fromCenter c w h = ⟨c.x - w / 2, c.y - h / 2, c.x + w / 2, c.y + h / 2⟩ := by
  rw [fromCenter_eq, max_eq_left hw, max_eq_left hh]

theorem intersects_iff :
    r.intersects s = true ↔
      r.left < s.right ∧ s.left < r.right ∧ r.top < s.bottom ∧ s.top < r.bottom := by
  simp [intersects, and_assoc]

/-- Meeting is mutual, in every arithmetic. -/
theorem intersects_comm {α : Type} [Scalar α] (r s : Rect α) :
    r.intersects s = s.intersects r := by
  simp only [intersects, Bool.and_assoc, Bool.and_comm, Bool.and_left_comm]

theorem intersects_translate (r s : Rect ℝ) (dx dy : ℝ) :
    (r.translate dx dy).intersects (s.translate dx dy) = r.intersects s := by
  rw [Bool.eq_iff_iff, intersects_iff, intersects_iff, translate_eq, translate_eq]
  simp only [add_lt_add_iff_right]

theorem contains_iff :
    r.contains s = true ↔ r.left - Scalar.epsilon ≤ s.left ∧ r.top - Scalar.epsilon ≤ s.top ∧
      s.right ≤ r.right + Scalar.epsilon ∧ s.bottom ≤ r.bottom + Scalar.epsilon := by
  simp [contains, and_assoc]

theorem contains_translate (r s : Rect ℝ) (dx dy : ℝ) :
    (r.translate dx dy).contains (s.translate dx dy) = r.contains s := by
  rw [Bool.eq_iff_iff, contains_iff, contains_iff, translate_eq, translate_eq]
  simp only [add_sub_right_comm, add_right_comm _ _ Scalar.epsilon, add_le_add_iff_right]

/-! ## Order -/

/-- The sides are in order. -/
structure Upright (r : Rect ℝ) : Prop where
  across : r.left ≤ r.right
  down : r.top ≤ r.bottom

/-- The first rectangle lies inside the second one, without tolerance. -/
structure Within (r s : Rect ℝ) : Prop where
  left : s.left ≤ r.left
  top : s.top ≤ r.top
  right : r.right ≤ s.right
  bottom : r.bottom ≤ s.bottom

theorem Within.refl (r : Rect ℝ) : r.Within r := ⟨le_rfl, le_rfl, le_rfl, le_rfl⟩

theorem Within.trans (h : r.Within s) (h' : s.Within u) : r.Within u :=
  ⟨h'.left.trans h.left, h'.top.trans h.top, h.right.trans h'.right, h.bottom.trans h'.bottom⟩

theorem Within.antisymm (h : r.Within s) (h' : s.Within r) : r = s := by
  obtain ⟨l, t, b, e⟩ := r
  obtain ⟨l', t', b', e'⟩ := s
  rw [Rect.mk.injEq]
  exact ⟨h'.left.antisymm h.left, h'.top.antisymm h.top, h.right.antisymm h'.right,
    h.bottom.antisymm h'.bottom⟩

theorem Within.width_le (h : r.Within s) : r.width ≤ s.width := by
  have := h.left
  have := h.right
  rw [width_eq, width_eq]
  linarith

theorem Within.height_le (h : r.Within s) : r.height ≤ s.height := by
  have := h.top
  have := h.bottom
  rw [height_eq, height_eq]
  linarith

/-- What lies inside a rectangle and is not smaller is that rectangle. -/
theorem Within.eq_of_le (h : r.Within s) (hw : s.width ≤ r.width) (hh : s.height ≤ r.height) :
    r = s := by
  rw [width_eq, width_eq] at hw
  rw [height_eq, height_eq] at hh
  exact h.antisymm ⟨by linarith [h.right], by linarith [h.bottom], by linarith [h.left],
    by linarith [h.top]⟩

theorem Upright.width_nonneg (h : r.Upright) : 0 ≤ r.width := sub_nonneg.2 h.across

theorem Upright.height_nonneg (h : r.Upright) : 0 ≤ r.height := sub_nonneg.2 h.down

theorem Upright.area_eq (h : r.Upright) : r.area = r.width * r.height := by
  simp only [area, Scalar.atLeast_real, Scalar.zero_real, max_eq_left h.width_nonneg,
    max_eq_left h.height_nonneg]

/-- What lies inside without tolerance lies inside with it. -/
theorem Within.contains (h : s.Within r) : r.contains s = true := by
  have := Scalar.epsilon_pos
  exact contains_iff.2 ⟨by linarith [h.left], by linarith [h.top], by linarith [h.right],
    by linarith [h.bottom]⟩

theorem contains_of_within (h : s.Within u) (hu : r.contains u = true) : r.contains s = true := by
  obtain ⟨h₁, h₂, h₃, h₄⟩ := contains_iff.1 hu
  exact contains_iff.2 ⟨h₁.trans h.left, h₂.trans h.top, h.right.trans h₃, h.bottom.trans h₄⟩

/-- Larger rectangles meet where smaller ones do. -/
theorem intersects_mono (hr : r.Within u) (hs : s.Within v) (h : u.intersects v = false) :
    r.intersects s = false := by
  rw [Bool.eq_false_iff, ne_eq, intersects_iff] at h ⊢
  rintro ⟨h₁, h₂, h₃, h₄⟩
  exact h ⟨hr.left.trans_lt (h₁.trans_le hs.right), hs.left.trans_lt (h₂.trans_le hr.right),
    hr.top.trans_lt (h₃.trans_le hs.bottom), hs.top.trans_lt (h₄.trans_le hr.bottom)⟩

/-! ## Padding -/

theorem deflate_of_room (hw : 2 * dx ≤ r.width) (hh : 2 * dy ≤ r.height) :
    r.deflate dx dy = ⟨r.left + dx, r.top + dy, r.right - dx, r.bottom - dy⟩ := by
  refine if_neg ?_
  rintro (h | h)
  · norm_num at h
    linarith
  · norm_num at h
    linarith

theorem deflate_upright (r : Rect ℝ) (dx dy : ℝ) : (r.deflate dx dy).Upright := by
  unfold deflate
  split
  · exact ⟨le_rfl, le_rfl⟩
  · rename_i h
    norm_num [width_eq, height_eq] at h
    refine ⟨?_, ?_⟩
    · show r.left + dx ≤ r.right - dx
      linarith [h.1]
    · show r.top + dy ≤ r.bottom - dy
      linarith [h.2]

theorem inflate_width (r : Rect ℝ) (dx dy : ℝ) : (r.inflate dx dy).width = r.width + 2 * dx := by
  rw [inflate_eq, width_eq, width_eq]
  ring

theorem inflate_height (r : Rect ℝ) (dx dy : ℝ) : (r.inflate dx dy).height = r.height + 2 * dy := by
  rw [inflate_eq, height_eq, height_eq]
  ring

/-- **Padding comes off again.** -/
theorem deflate_inflate (hr : r.Upright) (dx dy : ℝ) : (r.inflate dx dy).deflate dx dy = r := by
  have := hr.across
  have := hr.down
  rw [deflate_of_room]
  · simp [inflate_eq]
  · rw [inflate_width, width_eq]
    linarith
  · rw [inflate_height, height_eq]
    linarith

theorem within_inflate (hx : 0 ≤ dx) (hy : 0 ≤ dy) (r : Rect ℝ) : r.Within (r.inflate dx dy) := by
  constructor <;> simp only [inflate_eq] <;> linarith

@[simp] theorem inflate_zero (r : Rect ℝ) : r.inflate 0 0 = r := by
  simp only [inflate_eq, sub_zero, add_zero]

theorem deflate_zero (hr : r.Upright) : r.deflate 0 0 = r := by
  simpa only [inflate_zero] using deflate_inflate hr 0 0

theorem inflate_inflate (r : Rect ℝ) (x y dx dy : ℝ) :
    (r.inflate x y).inflate dx dy = r.inflate (x + dx) (y + dy) := by
  simp only [inflate_eq, sub_sub, add_assoc]

theorem Within.inflate (h : r.Within s) (hx : dx ≤ dx') (hy : dy ≤ dy') :
    (r.inflate dx dy).Within (s.inflate dx' dy') := by
  obtain ⟨h₁, h₂, h₃, h₄⟩ := h
  constructor <;> simp only [inflate_eq] <;> linarith

/-- What lies inside with the tolerance lies inside what is larger by it. -/
theorem contains_iff_within :
    r.contains s = true ↔ s.Within (r.inflate Scalar.epsilon Scalar.epsilon) := by
  rw [contains_iff]
  exact ⟨fun ⟨h₁, h₂, h₃, h₄⟩ => ⟨h₁, h₂, h₃, h₄⟩, fun ⟨h₁, h₂, h₃, h₄⟩ => ⟨h₁, h₂, h₃, h₄⟩⟩

/-- A rectangle in the interior of another one stays inside it when the padding is put on. -/
theorem inflate_within (hw : 2 * dx ≤ s.width) (hh : 2 * dy ≤ s.height)
    (h : r.Within (s.deflate dx dy)) : (r.inflate dx dy).Within s := by
  rw [deflate_of_room hw hh] at h
  obtain ⟨h₁, h₂, h₃, h₄⟩ := h
  constructor <;> simp only [inflate_eq] at * <;> linarith

theorem inflate_upright (hr : r.Upright) (hx : 0 ≤ dx) (hy : 0 ≤ dy) :
    (r.inflate dx dy).Upright := by
  have := hr.across
  have := hr.down
  constructor <;> simp only [inflate_eq] <;> linarith

/-! ## Centers -/

theorem fromCenter_upright (c : Point ℝ) (w h : ℝ) : (fromCenter c w h).Upright := by
  have := le_max_right w 0
  have := le_max_right h 0
  rw [fromCenter_eq]
  constructor <;> simp only <;> linarith

theorem width_fromCenter (c : Point ℝ) {w : ℝ} (h : ℝ) (hw : 0 ≤ w) :
    (fromCenter c w h).width = w := by
  rw [fromCenter_eq, width_eq, max_eq_left hw]
  ring

theorem height_fromCenter (c : Point ℝ) (w : ℝ) {h : ℝ} (hh : 0 ≤ h) :
    (fromCenter c w h).height = h := by
  rw [fromCenter_eq, height_eq, max_eq_left hh]
  ring

theorem center_fromCenter (c : Point ℝ) (w h : ℝ) : (fromCenter c w h).center = c := by
  rw [fromCenter_eq, center]
  exact congrArg₂ Point.mk (by norm_num) (by norm_num)

theorem fromCenter_center (hr : r.Upright) : fromCenter r.center r.width r.height = r := by
  rw [fromCenter_of_nonneg _ hr.width_nonneg hr.height_nonneg]
  obtain ⟨x, y, x', y'⟩ := r
  simp only [center_x, center_y, width_eq, height_eq, Rect.mk.injEq]
  exact ⟨by ring, by ring, by ring, by ring⟩

/-- A rectangle about the center of an upright one that is no larger lies inside it. -/
theorem fromCenter_within {w h : ℝ} (hr : r.Upright) (hw : w ≤ r.width) (hh : h ≤ r.height) :
    (fromCenter r.center w h).Within r := by
  have hw' := max_le hw hr.width_nonneg
  have hh' := max_le hh hr.height_nonneg
  rw [width_eq] at hw'
  rw [height_eq] at hh'
  rw [fromCenter_eq]
  constructor <;> simp only [center_x, center_y] <;> linarith

/-! ## Moves -/

theorem translate_upright (h : r.Upright) : (r.translate dx dy).Upright :=
  ⟨by simpa [translate_eq] using h.across, by simpa [translate_eq] using h.down⟩

theorem translate_zero (r : Rect ℝ) : r.translate 0 0 = r := by
  simp only [translate_eq, add_zero]

theorem translate_translate (r : Rect ℝ) (x y dx dy : ℝ) :
    (r.translate x y).translate dx dy = r.translate (x + dx) (y + dy) := by
  simp only [translate_eq, add_assoc]

theorem Within.translate (h : r.Within s) (dx dy : ℝ) :
    (r.translate dx dy).Within (s.translate dx dy) := by
  constructor <;> simp only [translate_eq, add_le_add_iff_right]
  exacts [h.left, h.top, h.right, h.bottom]

theorem inflate_translate (r : Rect ℝ) (x y dx dy : ℝ) :
    (r.translate dx dy).inflate x y = (r.inflate x y).translate dx dy := by
  simp only [translate_eq, inflate_eq, Rect.mk.injEq]
  exact ⟨by ring, by ring, by ring, by ring⟩

/-- Two rectangles with sides of the same lengths. -/
structure SameSize (r s : Rect ℝ) : Prop where
  width : r.width = s.width
  height : r.height = s.height

theorem SameSize.refl (r : Rect ℝ) : r.SameSize r := ⟨rfl, rfl⟩

theorem SameSize.symm (h : r.SameSize s) : s.SameSize r := ⟨h.width.symm, h.height.symm⟩

theorem SameSize.trans (h : r.SameSize s) (h' : s.SameSize u) : r.SameSize u :=
  ⟨h.width.trans h'.width, h.height.trans h'.height⟩

theorem SameSize.upright (h : r.SameSize s) (hs : s.Upright) : r.Upright :=
  ⟨sub_nonneg.1 (hs.width_nonneg.trans_eq h.width.symm),
    sub_nonneg.1 (hs.height_nonneg.trans_eq h.height.symm)⟩

theorem translate_sameSize (r : Rect ℝ) (dx dy : ℝ) : (r.translate dx dy).SameSize r :=
  ⟨by simp [translate_eq, width_eq], by simp [translate_eq, height_eq]⟩

/-- A rectangle is carried onto one of its size by the move between their corners. -/
theorem translate_onto (h : r.SameSize s) : s.translate (r.left - s.left) (r.top - s.top) = r := by
  have hw := h.width
  have hh := h.height
  rw [width_eq, width_eq] at hw
  rw [height_eq, height_eq] at hh
  obtain ⟨l, t, b, e⟩ := r
  rw [translate_eq, Rect.mk.injEq]
  exact ⟨by ring, by ring, by linarith, by linarith⟩

theorem clampShift_spec {lo hi outerLo outerHi tol : ℝ} (htol : 0 ≤ tol)
    (h : hi - lo ≤ outerHi - outerLo + 2 * tol) :
    outerLo - tol ≤ lo + clampShift lo hi outerLo outerHi ∧
      hi + clampShift lo hi outerLo outerHi ≤ outerHi + tol := by
  unfold clampShift
  norm_num
  split
  · rename_i h'
    constructor <;> linarith
  · rename_i h'
    split
    · rename_i h₁
      constructor <;> linarith
    · rename_i h₁
      split
      · rename_i h₂
        constructor <;> linarith
      · rename_i h₂
        constructor <;> linarith

/-- **What fits into a room up to a tolerance can be moved into it** up to that tolerance. -/
theorem clampWithin_within_inflate {tol : ℝ} (htol : 0 ≤ tol) (hw : r.width ≤ s.width + 2 * tol)
    (hh : r.height ≤ s.height + 2 * tol) : (r.clampWithin s).Within (s.inflate tol tol) := by
  obtain ⟨hl, hr⟩ := clampShift_spec htol hw
  obtain ⟨ht, hb⟩ := clampShift_spec htol hh
  exact ⟨hl, ht, hr, hb⟩

/-- **What fits into a room can be moved into it.** -/
theorem clampWithin_within (hw : r.width ≤ s.width) (hh : r.height ≤ s.height) :
    (r.clampWithin s).Within s := by
  have hwithin := clampWithin_within_inflate (r := r) (s := s) le_rfl (by linarith) (by linarith)
  rwa [inflate_zero] at hwithin

theorem clampWithin_sameSize (r s : Rect ℝ) : (r.clampWithin s).SameSize r :=
  translate_sameSize _ _ _

/-! ## Hulls -/

theorem within_union_left (r s : Rect ℝ) : r.Within (r.union s) := by
  rw [union_eq]
  exact ⟨min_le_left _ _, min_le_left _ _, le_max_left _ _, le_max_left _ _⟩

theorem within_union_right (r s : Rect ℝ) : s.Within (r.union s) := by
  rw [union_eq]
  exact ⟨min_le_right _ _, min_le_right _ _, le_max_right _ _, le_max_right _ _⟩

theorem union_within (hr : r.Within u) (hs : s.Within u) : (r.union s).Within u := by
  rw [union_eq]
  exact ⟨le_min hr.left hs.left, le_min hr.top hs.top, max_le hr.right hs.right,
    max_le hr.bottom hs.bottom⟩

theorem union_translate (r s : Rect ℝ) (dx dy : ℝ) :
    (r.translate dx dy).union (s.translate dx dy) = (r.union s).translate dx dy := by
  simp only [union_eq, translate_eq, min_add_add_right, max_add_add_right]

/-- The smallest rectangle around all of a list. -/
structure IsHull (l : List (Rect ℝ)) (u : Rect ℝ) : Prop where
  holds : ∀ r ∈ l, r.Within u
  least : ∀ v, (∀ r ∈ l, r.Within v) → u.Within v

theorem foldl_union_isHull (l : List (Rect ℝ)) (r : Rect ℝ) :
    IsHull (r :: l) (l.foldl union r) := by
  induction l generalizing r with
  | nil => exact ⟨by simpa using Within.refl r, fun v hv => hv r (.head _)⟩
  | cons s l ih =>
    obtain ⟨holds, least⟩ := ih (r.union s)
    have hu := holds _ (.head _)
    refine ⟨fun q hq => ?_, fun v hv => least v fun q hq => ?_⟩
    · rcases List.mem_cons.1 hq with rfl | hq
      · exact (within_union_left _ _).trans hu
      · rcases List.mem_cons.1 hq with rfl | hq
        · exact (within_union_right _ _).trans hu
        · exact holds q (.tail _ hq)
    · rcases List.mem_cons.1 hq with rfl | hq
      · exact union_within (hv r (.head _)) (hv s (.tail _ (.head _)))
      · exact hv q (.tail _ (.tail _ hq))

/-- **The union of a list is its hull.** -/
theorem unionAll?_isHull {l : List (Rect ℝ)} (h : unionAll? l = some u) : IsHull l u := by
  cases l with
  | nil => cases h
  | cons r l =>
    cases h
    exact foldl_union_isHull l r

theorem unionAll?_eq_none_iff {l : List (Rect ℝ)} : unionAll? l = none ↔ l = [] := by
  cases l <;> simp [unionAll?]

theorem unionAll?_translate (l : List (Rect ℝ)) (dx dy : ℝ) :
    unionAll? (l.map fun r => r.translate dx dy) =
      (unionAll? l).map fun u => u.translate dx dy := by
  cases l with
  | nil => rfl
  | cons r l =>
    simp only [List.map_cons, unionAll?, Option.map_some, Option.some.injEq]
    induction l generalizing r with
    | nil => rfl
    | cons s l ih => rw [List.map_cons, List.foldl_cons, union_translate, ih, List.foldl_cons]

theorem IsHull.upright {l : List (Rect ℝ)} (h : IsHull l u) (hl : l ≠ [])
    (hu : ∀ r ∈ l, r.Upright) : u.Upright := by
  obtain ⟨r, hr⟩ := List.exists_mem_of_ne_nil l hl
  have hw := h.holds r hr
  exact ⟨hw.left.trans ((hu r hr).across.trans hw.right),
    hw.top.trans ((hu r hr).down.trans hw.bottom)⟩

/-! ## Points -/

/-- The point lies in the rectangle, without tolerance. -/
structure Holds (r : Rect ℝ) (p : Point ℝ) : Prop where
  left : r.left ≤ p.x
  top : r.top ≤ p.y
  right : p.x ≤ r.right
  bottom : p.y ≤ r.bottom

theorem Holds.mono {p : Point ℝ} (h : r.Holds p) (hw : r.Within s) : s.Holds p :=
  ⟨hw.left.trans h.left, hw.top.trans h.top, h.right.trans hw.right, h.bottom.trans hw.bottom⟩

/-- The smallest rectangle around points holds them. -/
theorem ofPoints?_holds {points : List (Point ℝ)} (h : ofPoints? points = some u) :
    ∀ p ∈ points, u.Holds p := by
  cases points with
  | nil => cases h
  | cons p points =>
    cases h
    refine Fold.keeps (fun done (u : Rect ℝ) => ∀ q ∈ p :: done, u.Holds q)
      (List.forall_mem_singleton.2 ⟨le_rfl, le_rfl, le_rfl, le_rfl⟩)
      fun done q rest u _ hu x hx => ?_
    simp only [Scalar.min_real, Scalar.max_real]
    rw [← List.cons_append] at hx
    rcases List.mem_append.1 hx with hx | hx
    · exact (hu x hx).mono ⟨min_le_left _ _, min_le_left _ _, le_max_left _ _, le_max_left _ _⟩
    · rw [List.mem_singleton.1 hx]
      exact ⟨min_le_right _ _, min_le_right _ _, le_max_right _ _, le_max_right _ _⟩

/-- A rectangle that holds points holds the smallest one around them. -/
theorem ofPoints?_within {points : List (Point ℝ)} (h : ofPoints? points = some u)
    (hp : ∀ p ∈ points, r.Holds p) : u.Within r := by
  cases points with
  | nil => cases h
  | cons p points =>
    cases h
    obtain ⟨hp, hpoints⟩ := List.forall_mem_cons.1 hp
    refine Fold.keeps (fun _ (u : Rect ℝ) => u.Within r) ⟨hp.left, hp.top, hp.right, hp.bottom⟩
      fun done q rest u hs hu => ?_
    have hq := hpoints q (hs ▸ List.mem_append_right _ (.head _))
    simp only [Scalar.min_real, Scalar.max_real]
    exact ⟨le_min hu.left hq.left, le_min hu.top hq.top, max_le hu.right hq.right,
      max_le hu.bottom hq.bottom⟩

end NestedLayout.Rect
