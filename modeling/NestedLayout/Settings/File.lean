import NestedLayout.Scalar.Binary32
import NestedLayout.Settings.Basic
import NestedLayout.Document.Path
import NestedLayout.Json.Reader
import NestedLayout.Json5.Reader

/-!
# Settings files

A settings file names the settings that differ from the standard ones, in three groups; a setting
that is `null` counts as left out. `Settings.ofFile` reads a file in the form that its name asks
for.

* **Range.** Each value is brought into its range where it is set: lengths are not negative, sizes
  are at least one pixel, shares lie between their bounds.
* **Numbers** are read in the precision of a coordinate, in which a large one is an infinity.
-/

set_option autoImplicit false

namespace NestedLayout

open Scalar (atLeast)

namespace RouteStyle

def name : RouteStyle → String
  | straight => "straight"
  | rectilinear => "rectilinear"

/-- The styles under their names. -/
def choices : List (String × RouteStyle) :=
  [("straight", straight), ("rectilinear", rectilinear)]

end RouteStyle

namespace CoordinateSpace

def name : CoordinateSpace → String
  | unit => "unit"
  | absolute => "absolute"

/-- The spaces under their names. -/
def choices : List (String × CoordinateSpace) := [("unit", unit), ("absolute", absolute)]

end CoordinateSpace

namespace Settings

/-! ## Values in range -/

/-- The share nearest to `x` between two bounds that are in order. -/
def between (lo hi : Float32) (x : Float32) : Float32 :=
  if h : lo ≤ hi then Scalar.clamp lo hi h x else x

/-! ## Reading -/

variable {R : Type → Type} [Format R]

/-- A setting that a file may leave out, or give as `null`. -/
def setting {β σ : Type} (name : String) (r : R β) (set : β → σ → σ) : Field R σ where
  name := name
  aliases := []
  absence := .named
  read := Format.map (fun (v : Option β) s => v.elim s fun v => set v s) (Format.optional r)

def layoutReader : R (LayoutSettings Float32) :=
  Format.record .standard [
    setting "padding" Format.single fun v s =>
      { s with spacing.padding := atLeast v 0.0 },
    setting "elementGap" Format.single fun v s =>
      { s with spacing.gap := atLeast v 0.0 },
    setting "minContainerWidth" Format.single fun v s =>
      { s with spacing.minWidth := atLeast v 1.0 },
    setting "minContainerHeight" Format.single fun v s =>
      { s with spacing.minHeight := atLeast v 1.0 },
    setting "growthWidth" Format.single fun v s =>
      { s with spacing.growthWidth := atLeast v 0.0 },
    setting "growthHeight" Format.single fun v s =>
      { s with spacing.growthHeight := atLeast v 0.0 },
    setting "fontSize" Format.single fun v s =>
      { s with measure.fontSize := atLeast v 1.0 },
    setting "lineHeight" Format.single fun v s =>
      { s with measure.lineHeight := atLeast v 0.5 },
    setting "vertexDiameter" Format.single fun v s =>
      { s with measure.vertexDiameter := atLeast v 1.0 },
    setting "hookClearance" Format.single fun v s =>
      { s with measure.hookClearance := atLeast v 0.0 },
    setting "rootElementReserve" Format.single fun v s =>
      { s with sizing.rootElementReserve := between 0.0 0.5 v },
    setting "shrinkThreshold" Format.single fun v s =>
      { s with sizing.shrinkThreshold := atLeast v 1.0 },
    setting "shrinkTarget" Format.single fun v s =>
      { s with sizing.shrinkTarget := atLeast v 1.0 },
    setting "minShrinkFactor" Format.single fun v s =>
      { s with sizing.minShrinkFactor := between 0.01 1.0 v },
    setting "containmentRetries" Format.count fun v s =>
      { s with sizing.containmentRetries := v },
    setting "maxAttempts" Format.count fun v s => { s with maxAttempts := Nat.max v 1 },
    setting "hookRingOffset" Format.single fun v s => { s with ringOffset := atLeast v 0.0 },
    setting "routeStyle" (Format.choice RouteStyle.choices) fun v s =>
      { s with routing.style := v },
    setting "corridorWidth" Format.single fun v s =>
      { s with routing.corridorWidth := atLeast v 0.0 }]

def renderReader : R (RenderSettings Float32) :=
  Format.record (Settings.standard (α := Float32)).render [
    setting "width" Format.single fun v s => { s with width := atLeast v 1.0 },
    setting "height" Format.single fun v s => { s with height := atLeast v 1.0 },
    setting "space" (Format.choice CoordinateSpace.choices) fun v s => { s with space := v }]

def toolReader : R ToolSettings :=
  Format.record (Settings.standard (α := Float32)).tool [
    setting "enabled" Format.flag fun v s => { s with enabled := v },
    setting "command" Format.text fun v s => { s with command := v },
    setting "args" (Format.list Format.text) fun v s => { s with args := v },
    setting "timeoutMs" Format.count fun v s => { s with timeoutMs := v }]

def reader : R (Settings Float32) :=
  Format.record .standard [
    setting "layout" layoutReader fun v s => { s with layout := v },
    setting "render" renderReader fun v s => { s with render := v },
    setting "externalTool" toolReader fun v s => { s with tool := v }]

end Settings

/-! ## Files -/

/-- The two forms of documents. -/
inductive DocumentForm where
  | json
  | json5
deriving DecidableEq

namespace DocumentForm

/-- A file is JSON5 when its extension says so, in letters of either case. -/
def ofPath (path : String) : DocumentForm :=
  if (Path.ofText path).extension?.map String.toLower = some "json5" then .json5 else .json

end DocumentForm

/-- Why a document could not be read. -/
inductive DocumentError where
  | json (fault : Fault)
  | json5
deriving DecidableEq

namespace Settings

/-- Reads the text of a settings file. -/
def ofText (form : DocumentForm) (text : String) : Except DocumentError (Settings Float32) :=
  match form with
  | .json => match Json.Reader.run reader text with
    | .ok s => .ok s
    | .error f => .error (.json f)
  | .json5 => match Json5.Reader.run reader text with
    | some s => .ok s
    | none => .error .json5

end Settings

end NestedLayout
