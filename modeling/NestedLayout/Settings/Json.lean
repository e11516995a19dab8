import NestedLayout.Settings.File

/-!
# Settings as JSON values

* `Settings.layoutJson` and `Settings.renderJson` write out every setting that is in force.
* `Settings.patched` changes single settings of the written form and reads the result back as it
  stands: values given this way are not brought into range.
-/

set_option autoImplicit false

namespace NestedLayout

namespace Settings

/-! ## Writing -/

def measureJson (m : MeasureSettings Float32) : Json :=
  .record [("font_size", .ofSingle m.fontSize), ("line_height", .ofSingle m.lineHeight),
    ("vertex_diameter", .ofSingle m.vertexDiameter),
    ("vertex_label_gap", .ofSingle m.vertexLabelGap),
    ("predicate_padding_x", .ofSingle m.predicatePaddingX),
    ("predicate_padding_y", .ofSingle m.predicatePaddingY),
    ("hook_clearance", .ofSingle m.hookClearance),
    ("empty_text_chars", .ofNat m.emptyTextChars)]

def sizingJson (z : SizingSettings Float32) : Json :=
  .record [("root_element_reserve", .ofSingle z.rootElementReserve),
    ("shrink_threshold", .ofSingle z.shrinkThreshold),
    ("shrink_target", .ofSingle z.shrinkTarget),
    ("min_shrink_factor", .ofSingle z.minShrinkFactor),
    ("containment_retries", .ofNat z.containmentRetries)]

def toolJson (t : ToolSettings) : Json :=
  .record [("enabled", .flag t.enabled), ("command", .text t.command), ("args", .ofTexts t.args),
    ("timeout_ms", .ofNat t.timeoutMs)]

/-- The layout settings in force, with those of the external tool. -/
def layoutJson (s : Settings Float32) : Json :=
  let l := s.layout
  .record [("padding", .ofSingle l.spacing.padding), ("element_gap", .ofSingle l.spacing.gap),
    ("min_container_width", .ofSingle l.spacing.minWidth),
    ("min_container_height", .ofSingle l.spacing.minHeight),
    ("growth_width", .ofSingle l.spacing.growthWidth),
    ("growth_height", .ofSingle l.spacing.growthHeight),
    ("measure", measureJson l.measure), ("sizing", sizingJson l.sizing),
    ("placement", .record [("max_attempts", .ofNat l.maxAttempts)]),
    ("hooks", .record [("ring_offset", .ofSingle l.ringOffset)]),
    ("routing", .record [("style", .text l.routing.style.name),
      ("corridor_width", .ofSingle l.routing.corridorWidth)]),
    ("external_tool", toolJson s.tool)]

def renderJson (r : RenderSettings Float32) : Json :=
  .record [("width", .ofSingle r.width), ("height", .ofSingle r.height),
    ("space", .text r.space.name)]

/-! ## Reading back -/

variable {R : Type → Type} [Format R]

/-- A setting that has to be given. -/
def required {β σ : Type} (name : String) (r : R β) (set : β → σ → σ) : Field R σ where
  name := name
  aliases := []
  absence := .nowhere
  read := Format.map set r

def measureValues : R (MeasureSettings Float32) :=
  Format.record default [
    required "font_size" Format.single fun v m => { m with fontSize := v },
    required "line_height" Format.single fun v m => { m with lineHeight := v },
    required "vertex_diameter" Format.single fun v m => { m with vertexDiameter := v },
    required "vertex_label_gap" Format.single fun v m => { m with vertexLabelGap := v },
    required "predicate_padding_x" Format.single fun v m => { m with predicatePaddingX := v },
    required "predicate_padding_y" Format.single fun v m => { m with predicatePaddingY := v },
    required "hook_clearance" Format.single fun v m => { m with hookClearance := v },
    required "empty_text_chars" Format.count fun v m => { m with emptyTextChars := v }]

def sizingValues : R (SizingSettings Float32) :=
  Format.record default [
    required "root_element_reserve" Format.single fun v z => { z with rootElementReserve := v },
    required "shrink_threshold" Format.single fun v z => { z with shrinkThreshold := v },
    required "shrink_target" Format.single fun v z => { z with shrinkTarget := v },
    required "min_shrink_factor" Format.single fun v z => { z with minShrinkFactor := v },
    required "containment_retries" Format.count fun v z => { z with containmentRetries := v }]

def routingValues : R (RoutingSettings Float32) :=
  Format.record default [
    required "style" (Format.choice RouteStyle.choices) fun v r => { r with style := v },
    required "corridor_width" Format.single fun v r => { r with corridorWidth := v }]

def toolValues : R ToolSettings :=
  Format.record default [
    required "enabled" Format.flag fun v t => { t with enabled := v },
    required "command" Format.text fun v t => { t with command := v },
    required "args" (Format.list Format.text) fun v t => { t with args := v },
    required "timeout_ms" Format.count fun v t => { t with timeoutMs := v }]

/-- Reads the written form of the layout settings into settings whose other parts are given. -/
def layoutValues (start : Settings Float32) : R (Settings Float32) :=
  Format.record start [
    required "padding" Format.single fun v s => { s with layout.spacing.padding := v },
    required "element_gap" Format.single fun v s => { s with layout.spacing.gap := v },
    required "min_container_width" Format.single fun v s =>
      { s with layout.spacing.minWidth := v },
    required "min_container_height" Format.single fun v s =>
      { s with layout.spacing.minHeight := v },
    required "growth_width" Format.single fun v s => { s with layout.spacing.growthWidth := v },
    required "growth_height" Format.single fun v s => { s with layout.spacing.growthHeight := v },
    required "measure" measureValues fun v s => { s with layout.measure := v },
    required "sizing" sizingValues fun v s => { s with layout.sizing := v },
    required "placement"
      (Format.record 0 [required "max_attempts" Format.count fun (v : Nat) _ => v])
      fun v s => { s with layout.maxAttempts := v },
    required "hooks"
      (Format.record 0.0 [required "ring_offset" Format.single fun (v : Float32) _ => v])
      fun v s => { s with layout.ringOffset := v },
    required "routing" routingValues fun v s => { s with layout.routing := v },
    required "external_tool" toolValues fun v s => { s with tool := v }]

/-! ## Patches -/

/-- The fields with one of them set, which is added when it is not there. -/
def setField (name : String) (v : Json) : List (String × Json) → List (String × Json)
  | [] => [(name, v)]
  | (n, w) :: rest => if n == name then (n, v) :: rest else (n, w) :: setField name v rest

mutual

/-- A value with a patch applied: records are patched field by field, all else is replaced. -/
def overlay (base : Json) : Json → Json
  | .record changes => match base with
    | .record fields => .record (overlayFields fields changes)
    | _ => .record changes
  | patch => patch

/-- The fields of a record with those of a patch applied. -/
def overlayFields (fields : List (String × Json)) : List (String × Json) → List (String × Json)
  | [] => fields
  | (name, patch) :: rest =>
    let old := (fields.lookup name).getD .null
    overlayFields (setField name (overlay old patch) fields) rest

end

/-- The settings with a patch applied to their written form. -/
def patched (s : Settings Float32) (patch : Json) : Except Fault (Settings Float32) :=
  Json.Reader.ofValue (layoutValues s) (overlay s.layoutJson patch)

end Settings

end NestedLayout
