import NestedLayout.Proofs.Space.Positions

/-!
# Thinning the grid

The grid of the search starts at half the footprint and is made coarser until it is within the
limit, in exact arithmetic.

* `Thins`: the loop itself, without a bound on its rounds; `within_thins`: the bounded one comes to
  the same, since steps that grow by half outgrow any slack (`outgrown_rounds`).
* `Thins.limited`: where the loop ends, the grid with one more row and column is within the limit,
  or it is a single place.
* `availablePositions_limited`: edges and slots included, there are at most one more and two for
  each zone along an axis; without zones the positions are within the limit, and there is one.
-/

set_option autoImplicit false

namespace NestedLayout

open Scalar (epsilon)

/-! ## Counting places -/

theorem placeCount_real (step slack : ℝ) : placeCount step slack = ⌊max slack 0 / step⌋₊ + 1 := by
  simp only [placeCount, Scalar.counter_real, Scalar.atLeast_real, Scalar.zero_real]
  rfl

/-- A step beyond the slack leaves a single place. -/
theorem placeCount_eq_one {step slack : ℝ} (h : max slack 0 < step) :
    placeCount step slack = 1 := by
  have hpos : 0 < step := (le_max_right slack 0).trans_lt h
  rw [placeCount_real, Nat.floor_eq_zero.2 ((div_lt_one hpos).2 h)]

/-- As many steps as there are places lead beyond the slack. -/
theorem lt_step_mul_placeCount {step : ℝ} (hstep : 0 < step) (slack : ℝ) :
    max slack 0 < step * placeCount step slack := by
  rw [placeCount_real, Nat.cast_succ, mul_comm, ← div_lt_iff₀ hstep]
  exact Nat.lt_floor_add_one _

namespace GridSteps

variable {slack : ℝ × ℝ} {limit : Nat} {g g' : GridSteps ℝ}

/-! ## The loop -/

/-- A grid with steps half as long again. -/
noncomputable def coarser (slack : ℝ × ℝ) (g : GridSteps ℝ) : GridSteps ℝ :=
  .of slack (g.stepX * 1.5) (g.stepY * 1.5)

/-- The first grid ends up as the second one when it is made coarser for as long as it is too
fine. -/
inductive Thins (slack : ℝ × ℝ) (limit : Nat) : GridSteps ℝ → GridSteps ℝ → Prop where
  | done {g : GridSteps ℝ} (hg : g.tooFine limit = false) : Thins slack limit g g
  | again {g g' : GridSteps ℝ} (hg : g.tooFine limit = true)
    (h : Thins slack limit (g.coarser slack) g') : Thins slack limit g g'

theorem tooFine_iff : g.tooFine limit = true ↔
    limit < (g.columns + 1) * (g.rows + 1) ∧ (1 < g.columns ∨ 1 < g.rows) := by
  simp [tooFine]

/-- The counts of a grid are those for its steps. -/
def Counted (slack : ℝ × ℝ) (g : GridSteps ℝ) : Prop := g = .of slack g.stepX g.stepY

theorem Counted.coarser (slack : ℝ × ℝ) (g : GridSteps ℝ) : (g.coarser slack).Counted slack := rfl

theorem Counted.one_le (h : g.Counted slack) : 1 ≤ g.columns ∧ 1 ≤ g.rows := by
  rw [h]
  simp only [GridSteps.of, placeCount_real]
  omega

/-- The counts stay those for the steps. -/
theorem Thins.counted (h : Thins slack limit g g') (hg : g.Counted slack) : g'.Counted slack := by
  induction h with
  | done => exact hg
  | again _ _ ih => exact ih (.coarser slack _)

theorem Thins.not_tooFine (h : Thins slack limit g g') : ¬ g'.tooFine limit = true := by
  induction h with
  | done hg => rw [hg]; exact Bool.false_ne_true
  | again _ _ ih => exact ih

/-- **Where the loop ends** the grid is within the limit, or a single place. -/
theorem Thins.limited (h : Thins slack limit g g') (hg : g.Counted slack) :
    (g'.columns + 1) * (g'.rows + 1) ≤ limit ∨ g'.columns = 1 ∧ g'.rows = 1 := by
  obtain ⟨hcolumns, hrows⟩ := (h.counted hg).one_le
  have hdone := h.not_tooFine
  rw [tooFine_iff] at hdone
  omega

/-! ## The loop ends -/

/-- After so many rounds both steps are beyond the slack. -/
structure Outgrown (slack : ℝ × ℝ) (rounds : Nat) (g : GridSteps ℝ) : Prop where
  across : max slack.1 0 < g.stepX * 1.5 ^ rounds
  down : max slack.2 0 < g.stepY * 1.5 ^ rounds

theorem Outgrown.coarser {n : Nat} (h : g.Outgrown slack (n + 1)) :
    (g.coarser slack).Outgrown slack n := by
  obtain ⟨h₁, h₂⟩ := h
  rw [pow_succ', ← mul_assoc] at h₁ h₂
  exact ⟨h₁, h₂⟩

theorem Outgrown.not_tooFine (h : g.Outgrown slack 0) (hg : g.Counted slack) :
    g.tooFine limit = false := by
  obtain ⟨h₁, h₂⟩ := h
  rw [pow_zero, mul_one] at h₁ h₂
  rw [← Bool.not_eq_true, tooFine_iff, hg]
  simp only [GridSteps.of, placeCount_eq_one h₁, placeCount_eq_one h₂]
  omega

/-- **With enough rounds the bounded loop comes to the same** as the one without bound. -/
theorem thin_thins {n : Nat} (h : g.Outgrown slack n) (hg : g.Counted slack) :
    Thins slack limit g (thin slack limit n g) := by
  induction n generalizing g with
  | zero => exact .done (h.not_tooFine hg)
  | succ n ih =>
    unfold thin
    split
    · rename_i hfine
      exact .again hfine (ih h.coarser (.coarser slack g))
    · rename_i hdone
      exact .done (Bool.not_eq_true _ ▸ hdone)

/-- Two rounds more than double a step. -/
theorem le_pow_rounds {n k : Nat} (hk : 2 * (n.log2 + 1) ≤ k) : (n : ℝ) ≤ 1.5 ^ k := by
  calc (n : ℝ) ≤ 2 ^ (n.log2 + 1) := by exact_mod_cast Nat.lt_log2_self.le
    _ ≤ (1.5 ^ 2) ^ (n.log2 + 1) := by gcongr; norm_num
    _ = 1.5 ^ (2 * (n.log2 + 1)) := (pow_mul _ _ _).symm
    _ ≤ 1.5 ^ k := pow_le_pow_right₀ (by norm_num) hk

/-- **The rounds are enough** for any slack. -/
theorem outgrown_rounds (hg : g.Counted slack) (hX : 0 < g.stepX) (hY : 0 < g.stepY) :
    g.Outgrown slack g.rounds := by
  have hcolumns : placeCount g.stepX slack.1 = g.columns := congrArg columns hg.symm
  have hrows : placeCount g.stepY slack.2 = g.rows := congrArg rows hg.symm
  constructor
  · refine (lt_step_mul_placeCount hX slack.1).trans_le ?_
    rw [hcolumns]
    exact mul_le_mul_of_nonneg_left (le_pow_rounds (by unfold rounds; omega)) hX.le
  · refine (lt_step_mul_placeCount hY slack.2).trans_le ?_
    rw [hrows]
    exact mul_le_mul_of_nonneg_left (le_pow_rounds (by unfold rounds; omega)) hY.le

/-- The grid before it is thinned. -/
noncomputable def finest (area : Rect ℝ) (size : ℝ × ℝ) : GridSteps ℝ :=
  .of (area.width - size.1, area.height - size.2)
    (Scalar.atLeast (size.1 / 2.0) (epsilon * 10.0))
    (Scalar.atLeast (size.2 / 2.0) (epsilon * 10.0))

theorem finest_counted (area : Rect ℝ) (size : ℝ × ℝ) :
    (finest area size).Counted (area.width - size.1, area.height - size.2) := rfl

theorem finest_steps_pos (area : Rect ℝ) (size : ℝ × ℝ) :
    0 < (finest area size).stepX ∧ 0 < (finest area size).stepY := by
  have hleast : (0 : ℝ) < epsilon * 10.0 := mul_pos Scalar.epsilon_pos (by norm_num)
  simp only [finest, GridSteps.of, Scalar.atLeast_real]
  exact ⟨lt_max_of_lt_right hleast, lt_max_of_lt_right hleast⟩

/-- **The grid of the search is where the loop ends.** -/
theorem within_thins (area : Rect ℝ) (size : ℝ × ℝ) (limit : Nat) :
    Thins (area.width - size.1, area.height - size.2) limit (finest area size)
      (within area size limit) :=
  have hcounted := finest_counted area size
  have hsteps := finest_steps_pos area size
  thin_thins (outgrown_rounds hcounted hsteps.1 hsteps.2) hcounted

end GridSteps

/-! ## Counting candidates -/

@[simp] theorem length_gridSeeds (start size step : ℝ) (count : Nat) :
    (gridSeeds start size step count).length = count := by
  simp [gridSeeds]

/-- The first place of a grid is at the near edge. -/
theorem low_mem_gridSeeds (start size step : ℝ) {count : Nat} (hcount : 1 ≤ count) :
    start + size / 2 ∈ gridSeeds start size step count := by
  refine List.mem_map.2 ⟨0, List.mem_range.2 hcount, ?_⟩
  rw [Scalar.ofNat_real, Scalar.two_real, Nat.cast_zero, zero_mul, add_zero]

theorem length_gridPoints (xs ys : List ℝ) : (gridPoints xs ys).length = xs.length * ys.length := by
  simp [gridPoints, List.length_flatMap, mul_comm]

theorem nodup_of_spaced {l : List ℝ} (h : l.Pairwise fun a b => a + epsilon < b) : l.Nodup :=
  (increasing_of_spaced h).imp ne_of_lt

section
variable (span : Span ℝ) (size gap : ℝ) {seeds : List ℝ} (zones : List (Span ℝ))

/-- **Besides the seeds** there is at most the far edge, and two slots for each zone, when the near
edge is a seed already. -/
theorem length_axisCandidates_le (hlow : span.low + size / 2 ∈ seeds) :
    (axisCandidates span size gap seeds zones).length ≤ seeds.length + 1 + 2 * zones.length := by
  rcases lt_or_ge (span.high - span.low) size with hlarge | hfit
  · simp only [axisCandidates, if_pos hlarge, List.length_singleton]
    omega
  · set slots := zones.flatMap fun z => [z.high + gap + size / 2, z.low - gap - size / 2]
    have hslots : slots.length = 2 * zones.length := by
      simp [slots, List.length_flatMap, mul_comm]
    have hsub : axisCandidates span size gap seeds zones ⊆
        ((span.high - size / 2) :: seeds ++ slots).map (pulledTo span (size / 2)) := by
      intro c hc
      obtain ⟨p, hp, -, rfl⟩ := exists_axisPlace hfit hc
      refine List.mem_map_of_mem ?_
      simp only [axisPlaces, List.mem_append, List.mem_cons, List.not_mem_nil, or_false] at hp ⊢
      rcases hp with (hp | rfl | rfl) | hp
      · exact .inl (.inr hp)
      · exact .inl (.inr hlow)
      · exact .inl (.inl rfl)
      · exact .inr hp
    have hlength := ((nodup_of_spaced
      (axisCandidates_spaced span size gap seeds zones)).subperm hsub).length_le
    rw [List.length_map, List.length_append, List.length_cons, hslots] at hlength
    omega

theorem axisCandidates_ne_nil : axisCandidates span size gap seeds zones ≠ [] := by
  rcases lt_or_ge (span.high - span.low) size with hlarge | hfit
  · simp only [axisCandidates, if_pos hlarge]
    exact List.cons_ne_nil _ _
  · exact List.ne_nil_of_mem ((axisCandidates_tried hfit gap seeds zones).low_mem hfit)

end

namespace SpaceLedger

theorem length_gridCandidates_le (area : Rect ℝ) (size halfGap : ℝ × ℝ) (limit : Nat)
    (zones : List (Rect ℝ)) : (gridCandidates area size halfGap limit zones).length ≤
      ((GridSteps.within area size limit).columns + 1 + 2 * zones.length) *
        ((GridSteps.within area size limit).rows + 1 + 2 * zones.length) := by
  obtain ⟨hcolumns, hrows⟩ := ((GridSteps.within_thins area size limit).counted
    (GridSteps.finest_counted area size)).one_le
  simp only [gridCandidates, candidates, length_gridPoints]
  refine Nat.mul_le_mul ?_ ?_
  · simpa using length_axisCandidates_le ⟨area.left, area.right⟩ size.1 (2.0 * halfGap.1)
      (zones.map fun z => ⟨z.left, z.right⟩) (low_mem_gridSeeds area.left size.1 _ hcolumns)
  · simpa using length_axisCandidates_le ⟨area.top, area.bottom⟩ size.2 (2.0 * halfGap.2)
      (zones.map fun z => ⟨z.top, z.bottom⟩) (low_mem_gridSeeds area.top size.2 _ hrows)

theorem length_gridCandidates_pos (area : Rect ℝ) (size halfGap : ℝ × ℝ) (limit : Nat)
    (zones : List (Rect ℝ)) : 1 ≤ (gridCandidates area size halfGap limit zones).length := by
  simp only [gridCandidates, candidates, length_gridPoints]
  exact Nat.mul_pos (List.length_pos_of_ne_nil (axisCandidates_ne_nil _ _ _ _))
    (List.length_pos_of_ne_nil (axisCandidates_ne_nil _ _ _ _))

variable {l : SpaceLedger ℝ} {h : Hierarchy} {boxes : Boxes ℝ} {container : String}
  {a : Allotment ℝ} (ha : l.allotments.get? container = some a)
include ha

variable (h boxes) in
/-- **The positions are limited.** The loop that thins the grid ends, in a grid that is within the
limit with one more column and row, or in a single place. The edges and the slots beside the zones
add a column and a row, and two of each for every zone. So without zones there are no more positions
than the limit, but there is one when the footprint fits. -/
theorem availablePositions_limited (size : ℝ × ℝ) (limit : Nat) :
    ∃ grid : GridSteps ℝ, GridSteps.within a.available size limit = grid ∧
      GridSteps.Thins (a.available.width - size.1, a.available.height - size.2) limit
        (GridSteps.finest a.available size) grid ∧
      (1 ≤ grid.columns ∧ 1 ≤ grid.rows) ∧
      ((grid.columns + 1) * (grid.rows + 1) ≤ limit ∨ grid.columns = 1 ∧ grid.rows = 1) ∧
      (l.availablePositions h boxes container size limit).length ≤
        (grid.columns + 1 + 2 * (l.exclusionZones h boxes container).length) *
          (grid.rows + 1 + 2 * (l.exclusionZones h boxes container).length) ∧
      (l.exclusionZones h boxes container = [] → 4 ≤ limit →
        tooLarge a.available size = false →
          1 ≤ (l.availablePositions h boxes container size limit).length ∧
            (l.availablePositions h boxes container size limit).length ≤ limit) := by
  have hthins := GridSteps.within_thins a.available size limit
  have hcounted := GridSteps.finest_counted a.available size
  have hlimited := hthins.limited hcounted
  have hlength := length_gridCandidates_le a.available size l.halfGap limit
    (l.exclusionZones h boxes container)
  rw [availablePositions_eq h boxes size limit ha]
  refine ⟨_, rfl, hthins, (hthins.counted hcounted).one_le, hlimited, ?_,
    fun hzones hlimit hfits => ?_⟩
  · split
    · exact Nat.zero_le _
    · exact (List.length_filter_le _ _).trans hlength
  · have hsome : ¬ (tooLarge a.available size || decide (limit = 0)) = true := by
      simp only [hfits, Bool.false_or, decide_eq_true_eq]
      omega
    -- without zones every candidate is clear
    have hall : (gridCandidates a.available size l.halfGap limit
        (l.exclusionZones h boxes container)).filter
          (isClear size l.halfGap (l.exclusionZones h boxes container)) =
        gridCandidates a.available size l.halfGap limit (l.exclusionZones h boxes container) := by
      rw [List.filter_eq_self, hzones]
      exact fun _ _ => rfl
    rw [if_neg hsome, hall]
    refine ⟨length_gridCandidates_pos _ _ _ _ _, hlength.trans ?_⟩
    rw [hzones, List.length_nil, Nat.mul_zero, Nat.add_zero, Nat.add_zero]
    rcases hlimited with hle | ⟨hcolumns, hrows⟩
    · exact hle
    · rw [hcolumns, hrows]
      exact hlimit

end SpaceLedger

/-- A small footprint has up to fifty places in an empty area beside the corridor. -/
theorem corridor_limited :
    1 ≤ ((corridor 6).availablePositions corridorTree (corridorBoxes 6) "A" (1 / 8, 1 / 8)
        50).length ∧
      ((corridor 6).availablePositions corridorTree (corridorBoxes 6) "A" (1 / 8, 1 / 8)
        50).length ≤ 50 := by
  have ha : (corridor 6).allotments.get? "A" = some ⟨⟨0, 0, 1, 1⟩, ⟨0, 0, 1, 1⟩, [], []⟩ :=
    corridor_allotted (corridorBoxes_get? 6).1 ⟨zero_le_one, zero_le_one⟩
  obtain ⟨-, -, -, -, -, -, hlimit⟩ := SpaceLedger.availablePositions_limited corridorTree
    (corridorBoxes 6) ha (1 / 8, 1 / 8) 50
  refine hlimit ?_ (by decide) (tooLarge_eq_false_iff.2 ?_)
  · simp only [SpaceLedger.exclusionZones, ha]
    rfl
  · have heps := Scalar.epsilon_pos
    simp only [Rect.width_eq, Rect.height_eq]
    constructor <;> linarith

end NestedLayout
