import NestedLayout.Scalar

/-!
# Settings

What a layout may be told: spacing and measures in pixels, limits of the sizing and of the search,
the style of routes, the canvas, and the external tool. `Settings.standard` holds the values that
apply when nothing is said.
-/

set_option autoImplicit false

namespace NestedLayout

/-- Room around and between things, in pixels. -/
structure Spacing (α : Type) where
  /-- Between the outline of a container and its contents. -/
  padding : α
  /-- Between neighbouring elements and sibling containers. -/
  gap : α
  minWidth : α
  minHeight : α
  /-- Growth of the preferred over the least width. -/
  growthWidth : α
  /-- Growth of the preferred over the least height. -/
  growthHeight : α
deriving Inhabited

/-- Measures of elements, in pixels. -/
structure MeasureSettings (α : Type) where
  fontSize : α
  /-- In multiples of the font size. -/
  lineHeight : α
  vertexDiameter : α
  vertexLabelGap : α
  predicatePaddingX : α
  predicatePaddingY : α
  /-- Room kept for hooks on each side of a predicate. -/
  hookClearance : α
  /-- Width of a predicate without text, in characters. -/
  emptyTextChars : Nat
deriving Inhabited

structure SizingSettings (α : Type) where
  /-- Share of the root's interior that is kept for its own elements. -/
  rootElementReserve : α
  /-- A container shrinks when its area exceeds this multiple of what it requires. -/
  shrinkThreshold : α
  /-- The multiple that a shrinking container aims for. -/
  shrinkTarget : α
  /-- The least share of the area that shrinking keeps. -/
  minShrinkFactor : α
  containmentRetries : Nat
deriving Inhabited

inductive RouteStyle where
  | straight
  | rectilinear
deriving DecidableEq, Inhabited

structure RoutingSettings (α : Type) where
  style : RouteStyle
  /-- Width of the corridor around each leg of a route. -/
  corridorWidth : α
deriving Inhabited

structure LayoutSettings (α : Type) where
  spacing : Spacing α
  measure : MeasureSettings α
  sizing : SizingSettings α
  /-- Most positions of the regular grid that the search for a place looks at. -/
  maxAttempts : Nat
  /-- Radius of the ring of hooks around a hub without extent. -/
  ringOffset : α
  routing : RoutingSettings α
deriving Inhabited

inductive CoordinateSpace where
  | unit
  | absolute
deriving DecidableEq, Inhabited

structure RenderSettings (α : Type) where
  width : α
  height : α
  space : CoordinateSpace
deriving Inhabited

structure ToolSettings where
  enabled : Bool
  command : String
  args : List String
  timeoutMs : Nat
deriving Inhabited

structure Settings (α : Type) where
  layout : LayoutSettings α
  render : RenderSettings α
  tool : ToolSettings
deriving Inhabited

namespace LayoutSettings

variable {α : Type} [Scalar α]

def standard : LayoutSettings α where
  spacing := ⟨12.0, 8.0, 60.0, 40.0, 0.2, 0.1⟩
  measure := ⟨14.0, 1.3, 10.0, 4.0, 6.0, 4.0, 8.0, 2⟩
  sizing := ⟨0.04, 2.0, 1.5, 0.3, 8⟩
  maxAttempts := 256
  ringOffset := 12.0
  routing := ⟨.rectilinear, 6.0⟩

end LayoutSettings

namespace Settings

variable {α : Type} [Scalar α]

def standard : Settings α where
  layout := .standard
  render := ⟨1200.0, 800.0, .absolute⟩
  tool := ⟨false, "dot", ["-Tdot"], 2000⟩

/-- The size of the canvas. -/
def canvas (s : Settings α) : α × α := (s.render.width, s.render.height)

end Settings

end NestedLayout
