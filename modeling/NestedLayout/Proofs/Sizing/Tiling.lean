import NestedLayout.Proofs.Sizing.Tracks

/-!
# Tracks tile their span

How the cursor runs along the tracks of a grid, in exact arithmetic: where it is after the last of
them, and what that means for a span that the tracks are to fill.

* `Tiles`: tracks from one end of a stretch to the other, a fixed gap apart, in proportion to sizes.
* `getLast?_layTracks`: the last track ends where all sizes and gaps together lead.
* `layTracks_tiles`: so tracks laid one after the other tile that stretch.
* `distribute_tiles`: the factor is the one with which the stretch is the whole span, whether the
  gaps fit or not.
-/

set_option autoImplicit false

namespace NestedLayout.Proportional

/-- Tracks from `start` to `stop` in order, `gap` apart, each `factor` times as long as its size. -/
structure Tiles (sizes : List ℝ) (start stop factor gap : ℝ) (tracks : List (Span ℝ)) : Prop where
  length : tracks.length = sizes.length
  first : tracks.head?.map (·.low) = some start
  last : tracks.getLast?.map (·.high) = some stop
  ordered : ∀ t ∈ tracks, t.low ≤ t.high
  apart : tracks.Pairwise fun t u => t.high ≤ u.low
  spaced : tracks.IsChain fun t u => u.low = t.high + gap
  proportional : ∀ (i : Nat) (hi : i < sizes.length) (ht : i < tracks.length),
    tracks[i].high - tracks[i].low = sizes[i] * factor

section
variable {factor gap cursor : ℝ} {sizes : List ℝ}

/-- Each track begins a gap past the one before. -/
theorem layTracks_spaced :
    (layTracks factor gap cursor sizes).IsChain fun t u => u.low = t.high + gap := by
  induction sizes generalizing cursor with
  | nil => exact .nil
  | cons s rest ih =>
    cases rest with
    | nil => exact .singleton _
    | cons s' rest => exact .cons_cons rfl ih

variable (cursor)

/-- **The last track ends** where all the sizes, and the gaps between them, lead from the cursor. -/
theorem getLast?_layTracks (hne : sizes ≠ []) :
    (layTracks factor gap cursor sizes).getLast?.map (·.high) =
      some (cursor + sizes.sum * factor + gap * (sizes.length - 1 : Nat)) := by
  induction sizes generalizing cursor with
  | nil => exact absurd rfl hne
  | cons s rest ih =>
    cases rest with
    | nil => simp [layTracks]
    | cons s' rest =>
      have hlast := ih (cursor + s * factor + gap) (List.cons_ne_nil s' rest)
      rw [layTracks, layTracks, List.getLast?_cons_cons, ← layTracks, hlast, Option.some.injEq]
      simp only [List.sum_cons, List.length_cons, Nat.add_sub_cancel, Nat.cast_succ]
      ring

/-- **Tracks laid one after the other tile** the stretch that they lead along. -/
theorem layTracks_tiles (hf : 0 ≤ factor) (hg : 0 ≤ gap) (hs : ∀ s ∈ sizes, 0 ≤ s)
    (hne : sizes ≠ []) :
    Tiles sizes cursor (cursor + sizes.sum * factor + gap * (sizes.length - 1 : Nat)) factor gap
      (layTracks factor gap cursor sizes) where
  length := length_layTracks
  first := by
    cases sizes with
    | nil => exact absurd rfl hne
    | cons s rest => rfl
  last := getLast?_layTracks cursor hne
  ordered t ht := (cursor_le_layTracks hf hg hs t ht).2
  apart := layTracks_pairwise hf hg hs
  spaced := layTracks_spaced
  proportional := layTracks_extent

end

/-- **Tracks tile their span.** Sizes that are not negative, and not all zero, are scaled by one
factor, positive unless the span is empty, so that the tracks begin and end exactly where the span
does. The gaps fit when they leave room for the tracks: then neighbours are exactly a gap apart.
Otherwise each track begins where the one before ends. -/
theorem distribute_tiles {sizes : List ℝ} {span gap : ℝ} (start : ℝ) (hs : ∀ s ∈ sizes, 0 ≤ s)
    (hpos : 0 < sizes.sum) (hspan : 0 ≤ span) (hg : 0 ≤ gap) :
    ∃ factor, 0 ≤ factor ∧ (0 < span → 0 < factor) ∧
      (gap * (sizes.length - 1 : Nat) < span →
        Tiles sizes start (start + span) factor gap (distribute sizes start span gap)) ∧
      (span ≤ gap * (sizes.length - 1 : Nat) →
        Tiles sizes start (start + span) factor 0 (distribute sizes start span gap)) := by
  have hne : sizes ≠ [] := by
    rintro rfl
    exact lt_irrefl _ hpos
  rcases lt_or_ge (gap * (sizes.length - 1 : Nat)) span with hgaps | hgaps
  · have hfactor : 0 < (span - gap * (sizes.length - 1 : Nat)) / sizes.sum :=
      div_pos (sub_pos.2 hgaps) hpos
    refine ⟨_, hfactor.le, fun _ => hfactor, fun _ => ?_, fun h => absurd hgaps h.not_gt⟩
    have htiles := layTracks_tiles start hfactor.le hg hs hne
    rw [mul_div_cancel₀ _ hpos.ne', add_assoc, sub_add_cancel] at htiles
    rwa [distribute_of_gaps_lt hpos start hgaps]
  · refine ⟨span / sizes.sum, div_nonneg hspan hpos.le, fun h => div_pos h hpos,
      fun h => absurd h hgaps.not_gt, fun _ => ?_⟩
    have htiles := layTracks_tiles start (div_nonneg hspan hpos.le) le_rfl hs hne
    rw [mul_div_cancel₀ _ hpos.ne', zero_mul, add_zero] at htiles
    rwa [distribute_of_le_gaps hpos start hspan hgaps]

/-- Three sizes, the middle one zero, in a span of ten. Two gaps of three fit; two gaps of five
leave no room for the tracks. -/
theorem threeTracks_tile : (∀ s ∈ [(1 : ℝ), 0, 3], 0 ≤ s) ∧ 0 < [(1 : ℝ), 0, 3].sum ∧
    (∃ factor, 0 < factor ∧ Tiles [1, 0, 3] 7 (7 + 10) factor 3 (distribute [1, 0, 3] 7 10 3)) ∧
    ∃ factor, 0 < factor ∧ Tiles [1, 0, 3] 7 (7 + 10) factor 0 (distribute [1, 0, 3] 7 10 5) := by
  have hs : ∀ s ∈ [(1 : ℝ), 0, 3], 0 ≤ s := by norm_num
  have hpos : 0 < [(1 : ℝ), 0, 3].sum := by norm_num
  have hspan : (0 : ℝ) < 10 := by norm_num
  obtain ⟨f, -, hf, hfits, -⟩ := distribute_tiles 7 hs hpos hspan.le (by norm_num : (0 : ℝ) ≤ 3)
  obtain ⟨f', -, hf', -, htight⟩ := distribute_tiles 7 hs hpos hspan.le (by norm_num : (0 : ℝ) ≤ 5)
  exact ⟨hs, hpos, ⟨f, hf hspan, hfits (by norm_num)⟩, f', hf' hspan, htight (by norm_num)⟩

end NestedLayout.Proportional
