import NestedLayout.Proofs.Exact.Rect
import NestedLayout.Sizing.Proportional

/-!
# Tracks of a grid

The columns and rows of the grids in which children stand, in exact arithmetic.

* `gridShape_row_lt`: a grid has a cell for each of its members.
* `le_trackSizes`: a track is as long as each of its members; `trackSizes_mono`, `trackSizes_div`:
  tracks grow and scale with their members.
* `distribute_of_gaps_lt`, `distribute_of_le_gaps`: how tracks share a span when the gaps leave room
  for them, and when they do not.
* `distribute_fills`: tracks that fit into a span together with their gaps come to lie in it, one
  after the other and none shorter than it was (`TracksFill`).
-/

set_option autoImplicit false

namespace NestedLayout

/-! ## Shapes -/

section
variable {α : Type} [Scalar α] {n columns rows : Nat}

theorem gridShape_zero : gridShape α 0 = (0, 0) := rfl

theorem gridShape_eq (hn : 0 < n) (hg : gridShape α n = (columns, rows)) :
    0 < columns ∧ rows = (n + columns - 1) / columns := by
  rw [gridShape, if_neg hn.ne'] at hg
  cases hg
  exact ⟨Nat.le_max_right _ _, rfl⟩

theorem gridShape_rows_pos (hn : 0 < n) (hg : gridShape α n = (columns, rows)) : 0 < rows := by
  obtain ⟨hc, rfl⟩ := gridShape_eq hn hg
  exact Nat.div_pos (by omega) hc

/-- **Every member has a cell**: its row is one of the grid. -/
theorem gridShape_row_lt {i : Nat} (hi : i < n) (hg : gridShape α n = (columns, rows)) :
    i / columns < rows := by
  obtain ⟨hc, rfl⟩ := gridShape_eq (by omega) hg
  rw [Nat.lt_iff_add_one_le, ← Nat.add_div_right i hc]
  exact Nat.div_le_div_right (by omega)

end

theorem gridShape_one : gridShape ℝ 1 = (1, 1) := by
  simp [gridShape, Scalar.ceilNat, Scalar.sqrt]

/-- The grid for some items has at least as many cells as a square one. -/
theorem gridShape_le_sq {n columns rows : Nat} (hshape : gridShape ℝ n = (columns, rows)) :
    n ≤ columns * columns := by
  unfold gridShape at hshape
  split at hshape
  · rename_i hn
    exact hn ▸ Nat.zero_le _
  · cases hshape
    have hceil : √(n : ℝ) ≤ (Nat.max ⌈√(n : ℝ)⌉₊ 1 : Nat) :=
      (Nat.le_ceil _).trans (Nat.cast_le.2 (Nat.le_max_left _ _))
    have hsq := mul_self_le_mul_self (Real.sqrt_nonneg _) hceil
    rw [Real.mul_self_sqrt (Nat.cast_nonneg n)] at hsq
    exact_mod_cast hsq

/-! ## The largest of a list -/

theorem start_le_largest (l : List ℝ) (b : ℝ) : b ≤ l.foldl Scalar.max b := by
  induction l generalizing b with
  | nil => exact le_rfl
  | cons x l ih =>
    rw [List.foldl_cons, Scalar.max_real]
    exact (le_max_left b x).trans (ih _)

theorem le_largest {l : List ℝ} {x : ℝ} (hx : x ∈ l) (b : ℝ) : x ≤ l.foldl Scalar.max b := by
  induction l generalizing b with
  | nil => cases hx
  | cons y l ih =>
    rw [List.foldl_cons, Scalar.max_real]
    rcases List.mem_cons.1 hx with rfl | hx
    · exact (le_max_right b x).trans (start_le_largest l _)
    · exact ih hx _

theorem largest_le {l : List ℝ} {b c : ℝ} (hb : b ≤ c) (hl : ∀ x ∈ l, x ≤ c) :
    l.foldl Scalar.max b ≤ c := by
  induction l generalizing b with
  | nil => exact hb
  | cons x l ih =>
    obtain ⟨hx, hl⟩ := List.forall_mem_cons.1 hl
    rw [List.foldl_cons, Scalar.max_real]
    exact ih (max_le hb hx) hl

theorem largest_nonneg (l : List ℝ) : 0 ≤ l.foldl Scalar.max 0.0 :=
  (by norm_num : (0 : ℝ) ≤ 0.0).trans (start_le_largest l _)

theorem largest_div {w : ℝ} (hw : 0 < w) (l : List ℝ) (b : ℝ) :
    (l.map (· / w)).foldl Scalar.max (b / w) = l.foldl Scalar.max b / w := by
  induction l generalizing b with
  | nil => rfl
  | cons x l ih =>
    rw [List.map_cons, List.foldl_cons, List.foldl_cons, Scalar.max_real, Scalar.max_real,
      max_div_div_right hw.le, ih]

theorem largest_mono {β : Type} {l : List β} {f g : β → ℝ} (hfg : ∀ x ∈ l, f x ≤ g x) {b c : ℝ}
    (hbc : b ≤ c) : (l.map f).foldl Scalar.max b ≤ (l.map g).foldl Scalar.max c := by
  induction l generalizing b c with
  | nil => exact hbc
  | cons x l ih =>
    obtain ⟨hx, hl⟩ := List.forall_mem_cons.1 hfg
    rw [List.map_cons, List.map_cons, List.foldl_cons, List.foldl_cons, Scalar.max_real,
      Scalar.max_real]
    exact ih hl (max_le_max hbc hx)

/-! ## Sizes of tracks -/

@[simp] theorem length_trackSizes {α : Type} [Scalar α] {count : Nat} {place : Nat → Nat}
    {sizes : List α} : (trackSizes count place sizes).length = count := by
  simp [trackSizes]

section
variable {count : Nat} {place : Nat → Nat} {sizes : List ℝ}

theorem trackSizes_nonneg : ∀ t ∈ trackSizes count place sizes, 0 ≤ t := by
  intro t ht
  obtain ⟨k, -, rfl⟩ := List.mem_map.1 ht
  exact largest_nonneg _

/-- **A track is as long as each of its members.** -/
theorem le_trackSizes (count : Nat) (place : Nat → Nat) (sizes : List ℝ) {i : Nat}
    (hi : i < sizes.length) (hp : place i < (trackSizes count place sizes).length) :
    sizes[i] ≤ (trackSizes count place sizes)[place i] := by
  simp only [trackSizes, List.getElem_map, List.getElem_range]
  have hm : (sizes[i], i) ∈ sizes.zipIdx.filter fun s => place s.2 = place i :=
    List.mem_filter.2
      ⟨List.mem_zipIdx_iff_getElem?.2 (List.getElem?_eq_getElem hi), decide_eq_true rfl⟩
  exact le_largest (List.mem_map_of_mem (f := (·.1)) hm) _

/-- Tracks of members that are at least one long are at least that long together. -/
theorem one_le_sum_trackSizes (hpos : 0 < sizes.length) (hplace : place 0 < count)
    (hsize : ∀ s ∈ sizes, 1 ≤ s) : 1 ≤ (trackSizes count place sizes).sum := by
  have hp : place 0 < (trackSizes count place sizes).length := by simpa using hplace
  calc (1 : ℝ) ≤ sizes[0] := hsize _ (List.getElem_mem hpos)
    _ ≤ (trackSizes count place sizes)[place 0] := le_trackSizes count place sizes hpos hp
    _ ≤ _ := List.single_le_sum trackSizes_nonneg _ (List.getElem_mem hp)

theorem trackSizes_one (a : ℝ) {place : Nat → Nat} (hp : place 0 = 0) :
    trackSizes 1 place [a] = ([max 0 a] : List ℝ) := by
  have hz : (0.0 : ℝ) = 0 := Scalar.zero_real
  simp [trackSizes, hp, hz]

/-- **Longer members make longer tracks.** -/
theorem trackSizes_mono {β : Type} (count : Nat) (place : Nat → Nat) {members : List β}
    {f g : β → ℝ} (hfg : ∀ x ∈ members, f x ≤ g x) :
    (trackSizes count place (members.map f)).sum ≤
      (trackSizes count place (members.map g)).sum := by
  simp only [trackSizes]
  refine List.sum_le_sum fun k _ => ?_
  rw [List.zipIdx_map, List.zipIdx_map, List.filter_map, List.filter_map, List.map_map,
    List.map_map]
  refine largest_mono (fun s hs => ?_) le_rfl
  exact hfg _ (List.fst_mem_of_mem_zipIdx (List.mem_filter.1 hs).1)

/-- **Tracks scale with their members.** -/
theorem trackSizes_div {w : ℝ} (hw : 0 < w) (count : Nat) (place : Nat → Nat) (sizes : List ℝ) :
    trackSizes count place (sizes.map (· / w)) = (trackSizes count place sizes).map (· / w) := by
  simp only [trackSizes, List.map_map]
  refine List.map_congr_left fun k _ => ?_
  simp only [Function.comp_apply, ← largest_div hw]
  congr 1
  · norm_num
  · rw [List.zipIdx_map, List.filter_map, List.map_map, List.map_map]
    rfl

end

theorem sum_map_div (l : List ℝ) (w : ℝ) : (l.map (· / w)).sum = l.sum / w := by
  induction l with
  | nil => simp
  | cons x l ih => rw [List.map_cons, List.sum_cons, List.sum_cons, ih, add_div]

/-! ## Tracks in a span -/

namespace Proportional

/-- Tracks with at least the given sizes, one after the other inside a span. -/
structure TracksFill (sizes : List ℝ) (start span : ℝ) (tracks : List (Span ℝ)) : Prop where
  length : tracks.length = sizes.length
  inside : ∀ t ∈ tracks, start ≤ t.low ∧ t.high ≤ start + span
  apart : tracks.Pairwise fun t u => t.high ≤ u.low
  long : ∀ (i : Nat) (hi : i < sizes.length) (ht : i < tracks.length),
    sizes[i] ≤ tracks[i].high - tracks[i].low

section
variable {α : Type} [Scalar α] {sizes : List α}

theorem length_layTracks {factor gap cursor : α} :
    (layTracks factor gap cursor sizes).length = sizes.length := by
  induction sizes generalizing cursor with
  | nil => rfl
  | cons s rest ih => exact congrArg (· + 1) ih

@[simp] theorem length_distribute {start span gap : α} :
    (distribute sizes start span gap).length = sizes.length := by
  unfold distribute
  dsimp only
  split
  · exact length_layTracks
  · split <;> exact length_layTracks

end

section
variable {factor gap cursor : ℝ} {sizes : List ℝ}

theorem layTracks_extent (i : Nat) (hi : i < sizes.length)
    (ht : i < (layTracks factor gap cursor sizes).length) :
    (layTracks factor gap cursor sizes)[i].high - (layTracks factor gap cursor sizes)[i].low =
      sizes[i] * factor := by
  induction sizes generalizing cursor i with
  | nil => cases hi
  | cons s rest ih =>
    cases i with
    | zero => simp [layTracks]
    | succ i => exact ih i (Nat.lt_of_succ_lt_succ hi) (Nat.lt_of_succ_lt_succ ht)

variable (hf : 0 ≤ factor) (hg : 0 ≤ gap) (hs : ∀ s ∈ sizes, 0 ≤ s)
include hf hg hs

theorem cursor_le_layTracks :
    ∀ t ∈ layTracks factor gap cursor sizes, cursor ≤ t.low ∧ t.low ≤ t.high := by
  induction sizes generalizing cursor with
  | nil => intro t ht; cases ht
  | cons s rest ih =>
    have hsf : 0 ≤ s * factor := mul_nonneg (hs s (.head _)) hf
    intro t ht
    rcases List.mem_cons.1 ht with rfl | ht
    · exact ⟨le_rfl, by simpa using hsf⟩
    · obtain ⟨hlow, hhigh⟩ := ih (fun s hs' => hs s (.tail _ hs')) t ht
      exact ⟨by linarith, hhigh⟩

theorem layTracks_le_end :
    ∀ t ∈ layTracks factor gap cursor sizes,
      t.high ≤ cursor + sizes.sum * factor + gap * (sizes.length - 1 : Nat) := by
  induction sizes generalizing cursor with
  | nil => intro t ht; cases ht
  | cons s rest ih =>
    have hrest : ∀ s ∈ rest, 0 ≤ s := fun s hs' => hs s (.tail _ hs')
    intro t ht
    rw [List.sum_cons, List.length_cons, Nat.add_sub_cancel]
    rcases List.mem_cons.1 ht with rfl | ht
    · have h₁ : 0 ≤ rest.sum * factor := mul_nonneg (List.sum_nonneg hrest) hf
      have h₂ : 0 ≤ gap * (rest.length : ℝ) := mul_nonneg hg (Nat.cast_nonneg _)
      show cursor + s * factor ≤ _
      linarith
    · have h := ih hrest t ht
      have hpos : 0 < rest.length := by
        cases rest with
        | nil => cases ht
        | cons => exact Nat.succ_pos _
      rw [Nat.cast_sub hpos, Nat.cast_one] at h
      linarith

theorem layTracks_pairwise :
    (layTracks factor gap cursor sizes).Pairwise fun t u => t.high ≤ u.low := by
  induction sizes generalizing cursor with
  | nil => exact .nil
  | cons s rest ih =>
    have hrest : ∀ s ∈ rest, 0 ≤ s := fun s hs' => hs s (.tail _ hs')
    refine List.pairwise_cons.2 ⟨fun u hu => ?_, ih hrest⟩
    have h := (cursor_le_layTracks hf hg hrest u hu).1
    show cursor + s * factor ≤ u.low
    linarith

end

section
variable {sizes : List ℝ} {span gap : ℝ} (hpos : 0 < sizes.sum) (start : ℝ)
include hpos

/-- Gaps that leave room for tracks stay, and the tracks share the room. -/
theorem distribute_of_gaps_lt (hgaps : gap * (sizes.length - 1 : Nat) < span) :
    distribute sizes start span gap =
      layTracks ((span - gap * (sizes.length - 1 : Nat)) / sizes.sum) gap start sizes := by
  rw [distribute, Scalar.sum_real, Scalar.ofNat_real, if_neg (by norm_num; exact hpos),
    if_pos hgaps]

/-- Gaps that leave no room are left out, and the tracks share the whole span. -/
theorem distribute_of_le_gaps (hspan : 0 ≤ span) (hgaps : span ≤ gap * (sizes.length - 1 : Nat)) :
    distribute sizes start span gap = layTracks (span / sizes.sum) 0 start sizes := by
  rw [distribute, Scalar.sum_real, Scalar.ofNat_real, if_neg (by norm_num; exact hpos),
    if_neg hgaps.not_gt, Scalar.atLeast_real, Scalar.zero_real, max_eq_left hspan]

end

/-- **Tracks that fit into a span fill it** and become no shorter. -/
theorem distribute_fills {sizes : List ℝ} {start span gap : ℝ} (hs : ∀ s ∈ sizes, 0 ≤ s)
    (hg : 0 ≤ gap) (hpos : 0 < sizes.sum)
    (hfit : sizes.sum + gap * (sizes.length - 1 : Nat) ≤ span) :
    TracksFill sizes start span (distribute sizes start span gap) := by
  rw [distribute_of_gaps_lt hpos start (by linarith)]
  have hfac : 1 ≤ (span - gap * (sizes.length - 1 : Nat)) / sizes.sum := by
    rw [le_div_iff₀ hpos]
    linarith
  have hfac0 := zero_le_one.trans hfac
  refine ⟨length_layTracks, fun t ht => ⟨(cursor_le_layTracks hfac0 hg hs t ht).1, ?_⟩,
    layTracks_pairwise hfac0 hg hs, fun i hi ht => ?_⟩
  · have h := layTracks_le_end hfac0 hg hs t ht
    rw [mul_div_cancel₀ _ hpos.ne'] at h
    linarith
  · rw [layTracks_extent i hi ht]
    exact le_mul_of_one_le_right (hs _ (List.getElem_mem hi)) hfac

/-- Tracks that fit into a span in another unit fill it. -/
theorem distribute_fills_div (sizes : List ℝ) (start span : ℝ) {gap w : ℝ} (hw : 0 < w)
    (hs : ∀ s ∈ sizes, 0 ≤ s) (hg : 0 ≤ gap) (hpos : 0 < sizes.sum)
    (hfit : sizes.sum + gap * (sizes.length - 1 : Nat) ≤ span * w) :
    TracksFill (sizes.map (· / w)) start span
      (distribute (sizes.map (· / w)) start span (gap / w)) := by
  refine distribute_fills (fun s hs' => ?_) (div_nonneg hg hw.le) ?_ ?_
  · obtain ⟨s₀, hs₀, rfl⟩ := List.mem_map.1 hs'
    exact div_nonneg (hs s₀ hs₀) hw.le
  · rw [sum_map_div]
    exact div_pos hpos hw
  · rw [sum_map_div, List.length_map, div_mul_eq_mul_div, ← add_div, div_le_iff₀ hw]
    exact hfit

end Proportional

end NestedLayout
