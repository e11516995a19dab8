import NestedLayout.Proofs.Exact.Rect

/-!
# The least move into a room

`Rect.clampWithin` decides on each axis by itself how far to move, and then moves once. In exact
arithmetic that is the least correction:

* `LeastShift`: a shift that brings a span into another one, and than which no other one that does
  is shorter. `clampShift_least`: the shift of the clamp, wherever there is room.
* `clampShift_of_large`: without room the middles of the spans are made to agree.
* `clampShift_again`: after the shift there is none left to make.
* `clampWithin_minimal` puts the axes together.

Nothing here asks for sides in order.
-/

set_option autoImplicit false

namespace NestedLayout.Rect

/-- The shift `d` brings the span from `lo` to `hi` into the one from `outerLo` to `outerHi`, and no
shift that does so is shorter. -/
structure LeastShift (lo hi outerLo outerHi d : ℝ) : Prop where
  low : outerLo ≤ lo + d
  high : hi + d ≤ outerHi
  least : ∀ e, outerLo ≤ lo + e → hi + e ≤ outerHi → |d| ≤ |e|

section
variable {lo hi outerLo outerHi : ℝ}

/-- A span that is at least as long as the room is centered in it. -/
theorem clampShift_of_large (h : outerHi - outerLo ≤ hi - lo) :
    clampShift lo hi outerLo outerHi = (outerLo + outerHi) / 2 - (lo + hi) / 2 := by
  rw [clampShift, if_pos h, Scalar.two_real]

/-- A span in the room stays. -/
theorem clampShift_of_inside (hlo : outerLo ≤ lo) (hhi : hi ≤ outerHi) :
    clampShift lo hi outerLo outerHi = 0 := by
  by_cases h : outerHi - outerLo ≤ hi - lo
  · -- it fills the room
    rw [clampShift_of_large h]
    linarith
  · rw [clampShift, if_neg h, if_neg hlo.not_gt, if_neg hhi.not_gt, Scalar.zero_real]

/-- **The shift of the clamp is the least one into the room.** -/
theorem clampShift_least (h : hi - lo ≤ outerHi - outerLo) :
    LeastShift lo hi outerLo outerHi (clampShift lo hi outerLo outerHi) := by
  rcases lt_or_ge lo outerLo with hlo | hlo
  · -- the low end sticks out, or the span fills the room: every shift is at least as far up
    have hshift : clampShift lo hi outerLo outerHi = outerLo - lo := by
      rcases h.lt_or_eq with hlt | heq
      · rw [clampShift, if_neg hlt.not_ge, if_pos hlo]
      · rw [clampShift_of_large heq.ge]
        linarith
    rw [hshift]
    refine ⟨by linarith, by linarith, fun e he _ => ?_⟩
    rw [abs_of_pos (sub_pos.2 hlo)]
    exact le_trans (by linarith) (le_abs_self e)
  · rcases lt_or_ge outerHi hi with hhi | hhi
    · -- the high end sticks out: every shift is at least as far down
      have hshift : clampShift lo hi outerLo outerHi = outerHi - hi := by
        rcases h.lt_or_eq with hlt | heq
        · rw [clampShift, if_neg hlt.not_ge, if_neg hlo.not_gt, if_pos hhi]
        · rw [clampShift_of_large heq.ge]
          linarith
      rw [hshift]
      refine ⟨by linarith, by linarith, fun e _ he => ?_⟩
      rw [abs_of_neg (sub_neg.2 hhi)]
      exact le_trans (by linarith) (neg_le_abs e)
    · rw [clampShift_of_inside hlo hhi]
      exact ⟨by linarith, by linarith, fun e _ _ => by rw [abs_zero]; exact abs_nonneg e⟩

/-- **After the shift of the clamp there is none left to make.** -/
theorem clampShift_again (lo hi outerLo outerHi : ℝ) :
    clampShift (lo + clampShift lo hi outerLo outerHi) (hi + clampShift lo hi outerLo outerHi)
      outerLo outerHi = 0 := by
  rcases le_or_gt (hi - lo) (outerHi - outerLo) with h | h
  · have hleast := clampShift_least h
    exact clampShift_of_inside hleast.low hleast.high
  · rw [clampShift_of_large h.le, clampShift_of_large (by linarith)]
    ring

end

variable {r outer : Rect ℝ}

theorem clampWithin_of_within (h : r.Within outer) : r.clampWithin outer = r := by
  rw [clampWithin, clampShift_of_inside h.left h.right, clampShift_of_inside h.top h.bottom,
    translate_zero]

theorem clampWithin_again (r outer : Rect ℝ) :
    (r.clampWithin outer).clampWithin outer = r.clampWithin outer := by
  have hx := clampShift_again r.left r.right outer.left outer.right
  have hy := clampShift_again r.top r.bottom outer.top outer.bottom
  rw [clampWithin, clampWithin, translate_eq r, hx, hy, translate_zero]

/-- **The least correction.** A rectangle is moved; on every axis on which there is room the shift
is the shortest into the room, so that with room on both it lies inside, exactly. What lies inside
already stays, and so does what has been moved once. On an axis on which the rectangle is larger
than the room the centers agree. -/
theorem clampWithin_minimal (r outer : Rect ℝ) :
    (∃ dx dy, r.clampWithin outer = r.translate dx dy ∧
      (r.width ≤ outer.width → LeastShift r.left r.right outer.left outer.right dx) ∧
      (r.height ≤ outer.height → LeastShift r.top r.bottom outer.top outer.bottom dy)) ∧
    (r.width ≤ outer.width → r.height ≤ outer.height → (r.clampWithin outer).Within outer) ∧
    (r.Within outer → r.clampWithin outer = r) ∧
    (r.clampWithin outer).clampWithin outer = r.clampWithin outer ∧
    (outer.width < r.width → (r.clampWithin outer).center.x = outer.center.x) ∧
    (outer.height < r.height → (r.clampWithin outer).center.y = outer.center.y) := by
  refine ⟨⟨_, _, rfl, clampShift_least, clampShift_least⟩, clampWithin_within,
    clampWithin_of_within, clampWithin_again r outer, fun h => ?_, fun h => ?_⟩
  · rw [center_x, center_x, clampWithin, translate_eq, clampShift_of_large h.le]
    ring
  · rw [center_y, center_y, clampWithin, translate_eq, clampShift_of_large h.le]
    ring

/-- A rectangle that sticks out of a room on the right and at the top. -/
noncomputable def overCorner : Rect ℝ := ⟨2, -1, 5, 2⟩

noncomputable def cornerRoom : Rect ℝ := ⟨0, 0, 4, 4⟩

theorem overCorner_clamped :
    overCorner.width ≤ cornerRoom.width ∧ overCorner.height ≤ cornerRoom.height ∧
    (∃ dx dy, overCorner.clampWithin cornerRoom = overCorner.translate dx dy ∧
      LeastShift 2 5 0 4 dx ∧ LeastShift (-1) 2 0 4 dy) ∧
    (overCorner.clampWithin cornerRoom).Within cornerRoom := by
  have hw : overCorner.width ≤ cornerRoom.width := by norm_num [width_eq, overCorner, cornerRoom]
  have hh : overCorner.height ≤ cornerRoom.height := by norm_num [height_eq, overCorner, cornerRoom]
  obtain ⟨⟨dx, dy, hmove, hx, hy⟩, hwithin, -⟩ := clampWithin_minimal overCorner cornerRoom
  exact ⟨hw, hh, ⟨dx, dy, hmove, hx hw, hy hh⟩, hwithin hw hh⟩

end NestedLayout.Rect
