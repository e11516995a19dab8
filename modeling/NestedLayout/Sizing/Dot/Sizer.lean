import NestedLayout.Scalar.Binary32
import NestedLayout.Sizing.Dot.Answer
import NestedLayout.Sizing.Dot.Request

/-!
# Sizing with the external tool

The tool gets a request and answers with boxes in points, the second coordinate growing upwards.
`DotRequest.normalize` turns them into unit space: the boxes keep their true sizes, all of them
together are centered, and the unit square is made large enough for them and the padding.
-/

set_option autoImplicit false

namespace NestedLayout

/-- An external tool, as the answer that it gives to a text. -/
def ExternalTool : Type := String → Except ToolError String

namespace DotRequest

variable {α : Type} [Scalar α]

/-- The boxes of the clusters by container, with the second coordinate turned over. -/
def flippedBoxes (r : DotRequest α) (answer : DotAnswer α) : Except ToolError (Boxes α) :=
  r.clusters.zipIdx.foldlM (fun found (id, i) =>
    match answer.clusters.get? i with
    | some b => .ok (found.insert id ⟨b.left, -b.bottom, b.right, -b.top⟩)
    | none => .error (.unparseable
        ("no bounding box for container " ++ DiagramError.quoted id))) .empty

/-- Where points of the tool lie in unit space: the box of all clusters is centered. -/
structure Frame (α : Type) where
  scale : WorldScale α
  offsetX : α
  offsetY : α

def Frame.toUnit (f : Frame α) (x y : α) : Point α :=
  ⟨f.scale.toUnitX (x + f.offsetX), f.scale.toUnitY (y + f.offsetY)⟩

def Frame.rectToUnit (f : Frame α) (r : Rect α) : Rect α :=
  let a := f.toUnit r.left r.top
  let b := f.toUnit r.right r.bottom
  ⟨a.x, a.y, b.x, b.y⟩

/-- The frame for the box of all clusters: no smaller than the working scale, with the padding on
all sides. -/
def Frame.around (request : SizingRequest α) (all : Rect α) : Frame α :=
  let padding := request.settings.spacing.padding
  let base := request.workingScale
  let scale : WorldScale α := .of
    (Scalar.max base.width (all.width + padding * 2.0))
    (Scalar.max base.height (all.height + padding * 2.0))
  ⟨scale, (scale.width - all.width) / 2.0 - all.left, (scale.height - all.height) / 2.0 - all.top⟩

/-- The plan that an answer of the tool amounts to. -/
def normalize (request : SizingRequest α) (r : DotRequest α) (answer : DotAnswer α) :
    Except ToolError (SizingPlan α) := do
  let flipped ← r.flippedBoxes answer
  match Rect.unionAll? flipped.values with
  | none => .error (.unparseable "no clusters in output")
  | some all =>
    let frame := Frame.around request all
    let start : Boxes α := Table.empty.insert request.hierarchy.root .unit
    let boxes := flipped.entries.foldl (fun t e => t.insert e.1 (frame.rectToUnit e.2)) start
    let hints := r.nodes.zipIdx.foldl (fun t (id, i) =>
      match answer.nodes.get? i with
      | some p => t.insert id (frame.toUnit p.x (-p.y))
      | none => t) .empty
    return ⟨boxes, frame.scale, hints, .externalTool, 0⟩

end DotRequest

/-- The sizer that asks an external tool. -/
def ExternalTool.sizer (tool : ExternalTool) : Sizer Float32 where
  name := "external-tool"
  plan request :=
    let r := DotRequest.build request
    some do
      let output ← tool r.text
      let answer ← DotAnswer.ofText output
      r.normalize request answer

/-! ## Processes

Starting a process, feeding it the request, waiting for it and ending it when its time is up are
left to whoever runs one. Sizing depends on nothing but what becomes of it. -/

/-- What becomes of a process that is started for a tool. -/
inductive ToolRun where
  /-- There is no such program. -/
  | missing
  /-- The program could not be started. -/
  | refused (reason : String)
  /-- It was still running when its time was up. -/
  | expired (milliseconds : Nat)
  /-- It ended with an exit code, after it wrote its output and its complaints. -/
  | finished (exitCode : Nat) (output : ByteArray) (complaint : String)

/-- The answer of a tool whose process runs like that. -/
def ToolRun.answer (program : String) : ToolRun → Except ToolError String
  | missing => .error (.notFound program)
  | refused reason => .error (.notStarted program reason)
  | expired ms => .error (.timedOut ms)
  | finished exitCode output complaint =>
    if exitCode ≠ 0 then
      .error (.failed ("exit status: " ++ toString exitCode)
        (String.ofList (Text.trim complaint.toList)))
    else match String.fromUTF8? output with
      | some text => .ok text
      | none => .error (.io "stream did not contain valid UTF-8")

end NestedLayout
