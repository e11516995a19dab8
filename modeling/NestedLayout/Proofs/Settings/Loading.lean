import NestedLayout.Proofs.Json.Places
import NestedLayout.Proofs.Json5.Places
import NestedLayout.Proofs.Settings.Groups

/-!
# Loaded settings

What the settings are that come out of a file, whichever notation it is in.

* `Settings.Loaded`: every setting is the standard one unless the file gives it, and then it is the
  value given, brought into its range.
* `Settings.ofText_inBounds`: loaded settings follow their text and are in range. Only a share that
  the text gives as no number stays outside of its range.
* `Settings.unnumbered_reserve`: such a text.
-/

set_option autoImplicit false

namespace NestedLayout

open Places

/-! ## Layout -/

namespace LayoutSettings

open Settings

def names : List String :=
  ["padding", "elementGap", "minContainerWidth", "minContainerHeight", "growthWidth",
    "growthHeight", "fontSize", "lineHeight", "vertexDiameter", "hookClearance",
    "rootElementReserve", "shrinkThreshold", "shrinkTarget", "minShrinkFactor",
    "containmentRetries", "maxAttempts", "hookRingOffset", "routeStyle", "corridorWidth"]

/-- The layout is in range; `nan i` says that the share with the `i`-th name is no number. -/
structure InBounds (nan : Nat → Prop) (s : LayoutSettings Float32) : Prop where
  padding : 0.0 ≤ s.spacing.padding
  gap : 0.0 ≤ s.spacing.gap
  minWidth : 1.0 ≤ s.spacing.minWidth
  minHeight : 1.0 ≤ s.spacing.minHeight
  growthWidth : 0.0 ≤ s.spacing.growthWidth
  growthHeight : 0.0 ≤ s.spacing.growthHeight
  fontSize : 1.0 ≤ s.measure.fontSize
  lineHeight : 0.5 ≤ s.measure.lineHeight
  vertexDiameter : 1.0 ≤ s.measure.vertexDiameter
  hookClearance : 0.0 ≤ s.measure.hookClearance
  rootElementReserve : Share (nan 10) 0.0 0.5 s.sizing.rootElementReserve
  shrinkThreshold : 1.0 ≤ s.sizing.shrinkThreshold
  shrinkTarget : 1.0 ≤ s.sizing.shrinkTarget
  minShrinkFactor : Share (nan 13) 0.01 1.0 s.sizing.minShrinkFactor
  maxAttempts : 1 ≤ s.maxAttempts
  ringOffset : 0.0 ≤ s.ringOffset
  corridorWidth : 0.0 ≤ s.routing.corridorWidth

section
variable {R : Type → Type} [Format R] [Places R]

/-- Every setting of the layout follows the file: `given i` holds where it gives the one with the
`i`-th name. The measures without a name are the standard ones. -/
structure Loaded (given : Nat → Place R → Prop) (s : LayoutSettings Float32) : Prop where
  padding : Raised (given 0) 0.0 standard.spacing.padding s.spacing.padding
  gap : Raised (given 1) 0.0 standard.spacing.gap s.spacing.gap
  minWidth : Raised (given 2) 1.0 standard.spacing.minWidth s.spacing.minWidth
  minHeight : Raised (given 3) 1.0 standard.spacing.minHeight s.spacing.minHeight
  growthWidth : Raised (given 4) 0.0 standard.spacing.growthWidth s.spacing.growthWidth
  growthHeight : Raised (given 5) 0.0 standard.spacing.growthHeight s.spacing.growthHeight
  fontSize : Raised (given 6) 1.0 standard.measure.fontSize s.measure.fontSize
  lineHeight : Raised (given 7) 0.5 standard.measure.lineHeight s.measure.lineHeight
  vertexDiameter : Raised (given 8) 1.0 standard.measure.vertexDiameter s.measure.vertexDiameter
  hookClearance : Raised (given 9) 0.0 standard.measure.hookClearance s.measure.hookClearance
  rootElementReserve : Clamped (given 10) 0.0 0.5 standard.sizing.rootElementReserve
    s.sizing.rootElementReserve
  shrinkThreshold : Raised (given 11) 1.0 standard.sizing.shrinkThreshold s.sizing.shrinkThreshold
  shrinkTarget : Raised (given 12) 1.0 standard.sizing.shrinkTarget s.sizing.shrinkTarget
  minShrinkFactor : Clamped (given 13) 0.01 1.0 standard.sizing.minShrinkFactor
    s.sizing.minShrinkFactor
  retries : Follows (given 14) Format.count id
    (standard : LayoutSettings Float32).sizing.containmentRetries s.sizing.containmentRetries
  maxAttempts : Follows (given 15) Format.count (Nat.max · 1)
    (standard : LayoutSettings Float32).maxAttempts s.maxAttempts
  ringOffset : Raised (given 16) 0.0 standard.ringOffset s.ringOffset
  style : Follows (given 17) (Format.choice RouteStyle.choices) id
    (standard : LayoutSettings Float32).routing.style s.routing.style
  corridorWidth : Raised (given 18) 0.0 standard.routing.corridorWidth s.routing.corridorWidth
  vertexLabelGap : s.measure.vertexLabelGap = standard.measure.vertexLabelGap
  predicatePaddingX : s.measure.predicatePaddingX = standard.measure.predicatePaddingX
  predicatePaddingY : s.measure.predicatePaddingY = standard.measure.predicatePaddingY
  emptyTextChars : s.measure.emptyTextChars =
    (standard : LayoutSettings Float32).measure.emptyTextChars

theorem standard_loaded : Loaded (fun _ (_ : Place R) => False) standard where
  padding := .standard
  gap := .standard
  minWidth := .standard
  minHeight := .standard
  growthWidth := .standard
  growthHeight := .standard
  fontSize := .standard
  lineHeight := .standard
  vertexDiameter := .standard
  hookClearance := .standard
  rootElementReserve := .standard
  shrinkThreshold := .standard
  shrinkTarget := .standard
  minShrinkFactor := .standard
  retries := .standard
  maxAttempts := .standard
  ringOffset := .standard
  style := .standard
  corridorWidth := .standard
  vertexLabelGap := rfl
  predicatePaddingX := rfl
  predicatePaddingY := rfl
  emptyTextChars := rfl

/-- One step for each setting: the others follow the places that they followed before. -/
theorem readsGroup : ReadsGroup Loaded names (layoutReader : R (LayoutSettings Float32)) :=
  .record rfl
    ⟨kept_setting exact_single fun hv h => { h with padding := .read hv },
      kept_setting exact_single fun hv h => { h with gap := .read hv },
      kept_setting exact_single fun hv h => { h with minWidth := .read hv },
      kept_setting exact_single fun hv h => { h with minHeight := .read hv },
      kept_setting exact_single fun hv h => { h with growthWidth := .read hv },
      kept_setting exact_single fun hv h => { h with growthHeight := .read hv },
      kept_setting exact_single fun hv h => { h with fontSize := .read hv },
      kept_setting exact_single fun hv h => { h with lineHeight := .read hv },
      kept_setting exact_single fun hv h => { h with vertexDiameter := .read hv },
      kept_setting exact_single fun hv h => { h with hookClearance := .read hv },
      kept_setting exact_single fun hv h => { h with rootElementReserve := .read hv },
      kept_setting exact_single fun hv h => { h with shrinkThreshold := .read hv },
      kept_setting exact_single fun hv h => { h with shrinkTarget := .read hv },
      kept_setting exact_single fun hv h => { h with minShrinkFactor := .read hv },
      kept_setting exact_count fun hv h => { h with retries := .read hv },
      kept_setting exact_count fun hv h => { h with maxAttempts := .read hv },
      kept_setting exact_single fun hv h => { h with ringOffset := .read hv },
      kept_setting (exact_choice _) fun hv h => { h with style := .read hv },
      kept_setting exact_single fun hv h => { h with corridorWidth := .read hv },
      trivial⟩
    standard_loaded

/-- **A layout that follows a file is in range**, but for shares given as no number. -/
theorem Loaded.inBounds {given : Nat → Place R → Prop} {s : LayoutSettings Float32}
    (h : s.Loaded given) : s.InBounds fun i => ∃ q, given i q ∧ IsNaN q where
  padding := h.padding.le (by decide)
  gap := h.gap.le (by decide)
  minWidth := h.minWidth.le (by decide)
  minHeight := h.minHeight.le (by decide)
  growthWidth := h.growthWidth.le (by decide)
  growthHeight := h.growthHeight.le (by decide)
  fontSize := h.fontSize.le (by decide)
  lineHeight := h.lineHeight.le (by decide)
  vertexDiameter := h.vertexDiameter.le (by decide)
  hookClearance := h.hookClearance.le (by decide)
  rootElementReserve := h.rootElementReserve.share (by decide) (by decide) (by decide)
  shrinkThreshold := h.shrinkThreshold.le (by decide)
  shrinkTarget := h.shrinkTarget.le (by decide)
  minShrinkFactor := h.minShrinkFactor.share (by decide) (by decide) (by decide)
  maxAttempts := by
    obtain hstandard | ⟨q, v, -, -, hgiven⟩ := h.maxAttempts.cases
    · rw [hstandard]
      decide
    · rw [hgiven]
      exact Nat.le_max_right v 1
  ringOffset := h.ringOffset.le (by decide)
  corridorWidth := h.corridorWidth.le (by decide)

end

end LayoutSettings

/-! ## Canvas and tool -/

section
variable {R : Type → Type} [Format R] [Places R]

namespace RenderSettings

open Settings

def names : List String := ["width", "height", "space"]

/-- The settings of the canvas that apply when nothing is said. -/
abbrev standard : RenderSettings Float32 := Settings.standard.render

/-- Every setting of the canvas follows the file. -/
structure Loaded (given : Nat → Place R → Prop) (s : RenderSettings Float32) : Prop where
  width : Raised (given 0) 1.0 standard.width s.width
  height : Raised (given 1) 1.0 standard.height s.height
  space : Follows (given 2) (Format.choice CoordinateSpace.choices) id standard.space s.space

theorem standard_loaded : Loaded (fun _ (_ : Place R) => False) standard where
  width := .standard
  height := .standard
  space := .standard

theorem readsGroup : ReadsGroup Loaded names (renderReader : R (RenderSettings Float32)) :=
  .record rfl
    ⟨kept_setting exact_single fun hv h => { h with width := .read hv },
      kept_setting exact_single fun hv h => { h with height := .read hv },
      kept_setting (exact_choice _) fun hv h => { h with space := .read hv },
      trivial⟩
    standard_loaded

end RenderSettings

namespace ToolSettings

open Settings

def names : List String := ["enabled", "command", "args", "timeoutMs"]

/-- The settings of the tool that apply when nothing is said. -/
abbrev standard : ToolSettings := (Settings.standard : Settings Float32).tool

/-- Every setting of the tool follows the file. -/
structure Loaded (given : Nat → Place R → Prop) (s : ToolSettings) : Prop where
  enabled : Follows (given 0) Format.flag id standard.enabled s.enabled
  command : Follows (given 1) Format.text id standard.command s.command
  args : Follows (given 2) (Format.list Format.text) id standard.args s.args
  timeoutMs : Follows (given 3) Format.count id standard.timeoutMs s.timeoutMs

theorem standard_loaded : Loaded (fun _ (_ : Place R) => False) standard where
  enabled := .standard
  command := .standard
  args := .standard
  timeoutMs := .standard

theorem readsGroup : ReadsGroup Loaded names (toolReader : R ToolSettings) :=
  .record rfl
    ⟨kept_setting exact_flag fun hv h => { h with enabled := .read hv },
      kept_setting exact_text fun hv h => { h with command := .read hv },
      kept_setting (exact_list exact_text) fun hv h => { h with args := .read hv },
      kept_setting exact_count fun hv h => { h with timeoutMs := .read hv },
      trivial⟩
    standard_loaded

end ToolSettings

/-! ## All settings -/

namespace Settings

def groupNames : List String := ["layout", "render", "externalTool"]

/-- Where the settings at `p` give a setting: the group with the number `k` stands there, and gives
the setting at position `i` of its names. -/
def Says (k : Nat) (names : List String) (p : Place R) (i : Nat) (q : Place R) : Prop :=
  ∃ g, Gives groupNames p k g ∧ Gives names g i q

/-- **Every setting follows the file** that stands at `p`. -/
structure Loaded (p : Place R) (s : Settings Float32) : Prop where
  layout : s.layout.Loaded (Says 0 LayoutSettings.names p)
  render : s.render.Loaded (Says 1 RenderSettings.names p)
  tool : s.tool.Loaded (Says 2 ToolSettings.names p)

/-- Each group as it is read, whole. -/
structure Grouped (given : Nat → Place R → Prop) (s : Settings Float32) : Prop where
  layout : Follows (given 0) layoutReader id Settings.standard.layout s.layout
  render : Follows (given 1) renderReader id Settings.standard.render s.render
  tool : Follows (given 2) toolReader id (Settings.standard : Settings Float32).tool s.tool

theorem readsGroup : ReadsGroup Grouped groupNames (reader : R (Settings Float32)) :=
  .record rfl
    ⟨kept_setting LayoutSettings.readsGroup.exact fun hv h => { h with layout := .read hv },
      kept_setting RenderSettings.readsGroup.exact fun hv h => { h with render := .read hv },
      kept_setting ToolSettings.readsGroup.exact fun hv h => { h with tool := .read hv },
      trivial⟩
    { layout := .standard, render := .standard, tool := .standard }

theorem loaded_of_reads {p : Place R} {s : Settings Float32} (h : Reads reader p s) :
    s.Loaded p where
  layout := (readsGroup.reads h).layout.within LayoutSettings.readsGroup
    LayoutSettings.standard_loaded
  render := (readsGroup.reads h).render.within RenderSettings.readsGroup
    RenderSettings.standard_loaded
  tool := (readsGroup.reads h).tool.within ToolSettings.readsGroup ToolSettings.standard_loaded

/-- The settings are in range; `nan i` says that the share with the `i`-th name of the layout is no
number. -/
structure InBounds (nan : Nat → Prop) (s : Settings Float32) : Prop where
  layout : s.layout.InBounds nan
  width : 1.0 ≤ s.render.width
  height : 1.0 ≤ s.render.height

theorem Loaded.inBounds {p : Place R} {s : Settings Float32} (h : s.Loaded p) :
    s.InBounds fun i => ∃ q, Says 0 LayoutSettings.names p i q ∧ IsNaN q where
  layout := h.layout.inBounds
  width := h.render.width.le (by decide)
  height := h.render.height.le (by decide)

end Settings

end

/-! ## Texts -/

namespace Settings

/-- Every setting follows a text. -/
def LoadedFrom (form : DocumentForm) (text : String) (s : Settings Float32) : Prop :=
  match form with
  | .json => s.Loaded (R := Json.Reader) (Json.tokens text.toList)
  | .json5 => ∃ d, Json5.ofText? text = some d ∧ s.Loaded (R := Json5.Reader) d

/-- A text gives the layout's setting with the `i`-th name as no number, which only the literal of
JSON5 can do. -/
def WritesNaN (form : DocumentForm) (text : String) (i : Nat) : Prop :=
  form = .json5 ∧ ∃ d sign, Json5.ofText? text = some d ∧
    Says (R := Json5.Reader) 0 LayoutSettings.names d i (.number sign .nan)

theorem loadedFrom_of_ofText {form : DocumentForm} {text : String} {s : Settings Float32}
    (h : ofText form text = .ok s) : s.LoadedFrom form text := by
  cases form with
  | json =>
    rw [ofText] at h
    split at h
    · rename_i s' hrun
      cases h
      obtain ⟨⟨s', rest⟩, hread, hrest⟩ := Json.Reader.bind_eq_ok.1 hrun
      dsimp only at hrest
      split at hrest
      · cases hrest
        exact loaded_of_reads ⟨rest, hread⟩
      · cases hrest
    · cases h
  | json5 =>
    rw [ofText] at h
    split at h
    · rename_i s' hrun
      cases h
      obtain ⟨d, hd, hread⟩ := Option.bind_eq_some_iff.1 hrun
      exact ⟨d, hd, loaded_of_reads hread⟩
    · cases h

/-- **Loaded settings** follow the text, and they are in range but for a share that the text gives
as no number. -/
theorem ofText_inBounds {form : DocumentForm} {text : String} {s : Settings Float32}
    (h : ofText form text = .ok s) :
    s.LoadedFrom form text ∧ s.InBounds (WritesNaN form text) := by
  have hloaded := loadedFrom_of_ofText h
  refine ⟨hloaded, ?_⟩
  cases form with
  | json =>
    have hloaded : s.Loaded (R := Json.Reader) (Json.tokens text.toList) := hloaded
    refine cast (congrArg s.InBounds (funext fun i => propext ?_)) hloaded.inBounds
    exact ⟨fun ⟨_, _, hnan⟩ => hnan.elim, fun h => nomatch h.1⟩
  | json5 =>
    obtain ⟨d, hd, hloaded⟩ := hloaded
    refine cast (congrArg s.InBounds (funext fun i => propext ?_)) hloaded.inBounds
    constructor
    · rintro ⟨q, hq, sign, rfl⟩
      exact ⟨rfl, d, sign, hd, hq⟩
    · rintro ⟨-, d', sign, hd', hq⟩
      cases hd.symm.trans hd'
      exact ⟨_, hq, sign, rfl⟩

/-- A file that gives three settings, two of them out of range. -/
def outOfRange : String :=
  "\x7b\"layout\":\x7b\"padding\":-2,\"minShrinkFactor\":5\x7d,\"render\":\x7b\"width\":64\x7d\x7d"

/-- It is brought into range, and the height of the canvas is the standard one. -/
theorem outOfRange_inBounds : ∃ s : Settings Float32, ofText .json outOfRange = .ok s ∧
    [s.layout.spacing.padding, s.layout.sizing.minShrinkFactor, s.render.width, s.render.height] =
      [0.0, 1.0, 64.0, 800.0] ∧
    s.LoadedFrom .json outOfRange ∧ s.InBounds (WritesNaN .json outOfRange) := by
  have hread : (ofText .json outOfRange).toOption.map (fun s => [s.layout.spacing.padding,
      s.layout.sizing.minShrinkFactor, s.render.width, s.render.height]) =
      some [0.0, 1.0, 64.0, 800.0] := by decide +kernel
  cases hs : ofText .json outOfRange with
  | error e => rw [hs] at hread; cases hread
  | ok s =>
    rw [hs] at hread
    exact ⟨s, rfl, Option.some.inj hread, ofText_inBounds hs⟩

/-- A file that gives a share as no number. -/
def unnumbered : String := "\x7blayout:\x7brootElementReserve:NaN\x7d\x7d"

/-- **A share that is no number** is kept as it is, outside of its range. -/
theorem unnumbered_reserve : ∃ s : Settings Float32, ofText .json5 unnumbered = .ok s ∧
    ¬ (0.0 ≤ s.layout.sizing.rootElementReserve ∧ s.layout.sizing.rootElementReserve ≤ 0.5) := by
  have hread : (ofText .json5 unnumbered).toOption.map (fun s =>
      s.layout.sizing.rootElementReserve.isNaN) = some true := by decide +kernel
  cases hs : ofText .json5 unnumbered with
  | error e => rw [hs] at hread; cases hread
  | ok s =>
    rw [hs] at hread
    exact ⟨s, rfl, fun h => Binary32.not_le_of_isNaN_right (Option.some.inj hread) h.1⟩

end Settings

end NestedLayout
