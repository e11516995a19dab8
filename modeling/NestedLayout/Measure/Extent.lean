import NestedLayout.Diagram.Basic
import NestedLayout.Geometry.AxisMap
import NestedLayout.Measure.Text

/-!
# Extents of elements

The size of an element's body and the clearance it needs besides: a named vertex keeps room for its
label below, a predicate keeps room for hooks on both sides. Body and clearance together are the
footprint, which is what has to stay inside a container.
-/

set_option autoImplicit false

namespace NestedLayout

/-- The size of a body and of the clearance around it, in pixels. -/
structure Extent (α : Type) where
  width : α
  height : α
  clearanceWidth : α
  clearanceHeight : α
deriving Inhabited

namespace Extent

variable {α : Type} [Scalar α]

def totalWidth (e : Extent α) : α := e.width + e.clearanceWidth

def totalHeight (e : Extent α) : α := e.height + e.clearanceHeight

/-- The size of the footprint in unit space. -/
def unitSize (e : Extent α) (scale : WorldScale α) : α × α :=
  scale.toUnit (e.totalWidth, e.totalHeight)

/-- The body inside a footprint: a vertex sits at the top of it, a predicate in the middle. -/
def bodyWithin (e : Extent α) (kind : ElementKind) (footprint : Rect α) (scale : WorldScale α) :
    Rect α :=
  let w := scale.toUnitX e.width
  let h := scale.toUnitY e.height
  let c := footprint.center
  match kind with
  | .vertex => ⟨c.x - w / 2.0, footprint.top, c.x + w / 2.0, footprint.top + h⟩
  | .predicate => .fromCenter c w h

/-- A vertex is a dot of fixed size, with its name below. -/
def ofVertex (name : String) (settings : MeasureSettings α) : Extent α :=
  let diameter := settings.vertexDiameter
  let label := Text.block name settings
  if label.lines.isEmpty then ⟨diameter, diameter, 0.0, 0.0⟩
  else
    ⟨diameter, diameter, Scalar.atLeast (label.width - diameter) 0.0,
      settings.vertexLabelGap + label.height⟩

/-- A predicate is its text with some padding; without text it is as wide as a few characters of
average width. -/
def ofPredicate (text : String) (settings : MeasureSettings α) : Extent α :=
  let label := Text.block text settings
  let size : α × α :=
    if label.lines.isEmpty then
      (settings.fontSize * 0.56 * Scalar.ofNat (Nat.max settings.emptyTextChars 1),
        settings.fontSize * settings.lineHeight)
    else (label.width, label.height)
  ⟨size.1 + settings.predicatePaddingX * 2.0, size.2 + settings.predicatePaddingY * 2.0,
    settings.hookClearance * 2.0, 0.0⟩

/-- The extent of an element. -/
def of (element : Diagram.Element) (settings : MeasureSettings α) : Extent α :=
  match element.kind with
  | .vertex => ofVertex element.text settings
  | .predicate => ofPredicate element.text settings

end Extent

end NestedLayout
