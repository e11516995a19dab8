import NestedLayout.Settings.Basic
import NestedLayout.Text.Class

/-!
# Text blocks

A label may hold line breaks, also written `<br>`, `<br/>` or as a backslash and an `n`. Each line
is trimmed, empty lines are dropped, and the block is as wide as its widest line. The widths of
characters are those of a proportional sans-serif face.
-/

set_option autoImplicit false

namespace NestedLayout

namespace Text

/-- The text with every written form of a line break as a line break. -/
def withBreaks : List Char → List Char
  | '<' :: 'b' :: 'r' :: '/' :: '>' :: rest => '\n' :: withBreaks rest
  | '<' :: 'b' :: 'r' :: '>' :: rest => '\n' :: withBreaks rest
  | '\\' :: 'n' :: rest => '\n' :: withBreaks rest
  | c :: rest => c :: withBreaks rest
  | [] => []

/-- The parts of a text between its line breaks. -/
def splitLines : List Char → List (List Char)
  | [] => [[]]
  | c :: rest =>
    if c = '\n' then [] :: splitLines rest
    else match splitLines rest with
      | [] => [[c]]
      | line :: lines => (c :: line) :: lines

/-- The lines of a label. -/
def lines (text : String) : List (List Char) :=
  ((splitLines (withBreaks text.toList)).map trim).filter fun line => !line.isEmpty

/-- Advance widths, in thousandths of the font size. -/
def advances : List (Char × Nat) :=
  [(' ', 306), ('\\', 321), ('.', 321), (',', 321), (':', 321), (';', 321), ('|', 321),
   ('!', 321), ('(', 321), (')', 321), ('[', 321), (']', 321), ('\x7b', 321), ('\x7d', 321),
   ('A', 652), ('B', 648), ('C', 734), ('D', 723), ('E', 594), ('F', 575), ('G', 742),
   ('H', 742), ('I', 272), ('J', 557), ('K', 648), ('L', 559), ('M', 903), ('N', 763),
   ('O', 754), ('P', 623), ('Q', 755), ('R', 637), ('S', 633), ('T', 599), ('U', 746),
   ('V', 661), ('W', 958), ('X', 655), ('Y', 646), ('Z', 621), ('a', 550), ('b', 603),
   ('c', 547), ('d', 609), ('e', 570), ('f', 340), ('g', 600), ('h', 600), ('i', 235),
   ('j', 227), ('k', 522), ('l', 239), ('m', 867), ('n', 585), ('o', 574), ('p', 595),
   ('q', 585), ('r', 364), ('s', 523), ('t', 305), ('u', 585), ('v', 545), ('w', 811),
   ('x', 538), ('y', 556), ('z', 550), ('0', 613), ('1', 396), ('2', 609), ('3', 597),
   ('4', 614), ('5', 586), ('6', 608), ('7', 559), ('8', 611), ('9', 595), ('@', 946),
   ('#', 946), ('%', 946), ('&', 946)]

variable {α : Type} [Scalar α]

/-- The width of a character in multiples of the font size. -/
def advance (c : Char) : α :=
  OfScientific.ofScientific ((advances.lookup c).getD 568) true 3

/-- The width of a line. -/
def lineWidth (line : List Char) (fontSize : α) : α := Scalar.sum (line.map advance) * fontSize

/-- The lines of a label with the size of their block. -/
structure Block (α : Type) where
  lines : List (List Char)
  width : α
  height : α

/-- Measures a label; one without lines has no extent. -/
def block (text : String) (settings : MeasureSettings α) : Block α :=
  let ls := lines text
  if ls.isEmpty then ⟨[], 0.0, 0.0⟩
  else
    let width := (ls.map fun line => lineWidth line settings.fontSize).foldl Scalar.max 0.0
    let lineHeight := settings.fontSize * settings.lineHeight
    ⟨ls, width, Scalar.ofNat ls.length * lineHeight⟩

end Text

end NestedLayout
