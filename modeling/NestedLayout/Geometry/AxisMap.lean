import NestedLayout.Geometry.Rect

/-!
# Maps of the plane

* `AxisMap`: a scaling and a shift on each axis. `AxisMap.between` carries one rectangle onto
  another one.
* `WorldScale`: the size in pixels of the unit square, which turns lengths in pixels into lengths
  in unit space and back.
-/

set_option autoImplicit false

namespace NestedLayout

/-- The map that takes `(x, y)` to `(sx * x + tx, sy * y + ty)`. -/
structure AxisMap (α : Type) where
  sx : α
  sy : α
  tx : α
  ty : α

namespace AxisMap

variable {α : Type} [Scalar α]

def identity : AxisMap α := ⟨1.0, 1.0, 0.0, 0.0⟩

/-- The map that moves everything by `dx` across and `dy` down. -/
def shift (dx dy : α) : AxisMap α := ⟨1.0, 1.0, dx, dy⟩

/-- Factor and shift that take the span `[fromLo, fromHi]` onto `[toLo, toHi]`. A span that is too
short is sent to the center of the target. -/
def axis (fromLo fromHi toLo toHi : α) : α × α :=
  let span := fromHi - fromLo
  if Scalar.abs span ≤ Scalar.epsilon then
    (0.0, (toLo + toHi) / 2.0)
  else
    let scale := (toHi - toLo) / span
    (scale, toLo - fromLo * scale)

/-- The map that takes `source` onto `target`, axis by axis. -/
def between (source target : Rect α) : AxisMap α :=
  let x := axis source.left source.right target.left target.right
  let y := axis source.top source.bottom target.top target.bottom
  ⟨x.1, y.1, x.2, y.2⟩

def apply (m : AxisMap α) (p : Point α) : Point α := ⟨p.x * m.sx + m.tx, p.y * m.sy + m.ty⟩

/-- The image of a rectangle, with its sides back in order. -/
def applyRect (m : AxisMap α) (r : Rect α) : Rect α :=
  let a := m.apply ⟨r.left, r.top⟩
  let b := m.apply ⟨r.right, r.bottom⟩
  ⟨Scalar.min a.x b.x, Scalar.min a.y b.y, Scalar.max a.x b.x, Scalar.max a.y b.y⟩

end AxisMap

/-- The size in pixels of the unit square. -/
structure WorldScale (α : Type) where
  width : α
  height : α

namespace WorldScale

variable {α : Type} [Scalar α]

/-- A scale with both sides raised to one pixel. -/
def of (width height : α) : WorldScale α :=
  ⟨Scalar.atLeast width 1.0, Scalar.atLeast height 1.0⟩

/-- The scale in force before any sizing. -/
def standard : WorldScale α := of 1200.0 800.0

def toUnitX (s : WorldScale α) (px : α) : α := px / s.width

def toUnitY (s : WorldScale α) (px : α) : α := px / s.height

/-- A size in pixels as a size in unit space. -/
def toUnit (s : WorldScale α) (size : α × α) : α × α := (s.toUnitX size.1, s.toUnitY size.2)

def toWorld (s : WorldScale α) (p : Point α) : Point α := ⟨p.x * s.width, p.y * s.height⟩

def rectToWorld (s : WorldScale α) (r : Rect α) : Rect α :=
  ⟨r.left * s.width, r.top * s.height, r.right * s.width, r.bottom * s.height⟩

end WorldScale

end NestedLayout
