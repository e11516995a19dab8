import NestedLayout.Number.Reading
import NestedLayout.Sizing.Plan
import NestedLayout.Text.Class

/-!
# Answers of the external tool

The tool answers with the request's text, to which it has added bounding boxes and positions.
`DotAnswer.ofText` picks those out; all else in the text is passed over.

* **Clusters.** After every `subgraph cluster_3 {` the first attribute `bb="…"` before the next
  `subgraph` gives the box. A cluster without one, or with one that is not four finite numbers,
  spoils the answer.
* **Nodes.** A line that starts with `n7 […]` gives the position in its attribute `pos="…"`; lines
  that do not are no nodes.

Blanks and digits are those of any script, but numbers are only read in plain digits.
-/

set_option autoImplicit false

namespace NestedLayout

/-- Boxes and positions by number, in points, with the second coordinate growing upwards. -/
structure DotAnswer (α : Type) where
  clusters : Table Nat (Rect α)
  nodes : Table Nat (Point α)

namespace DotAnswer

/-! ## Pieces of the text -/

/-- What follows a word at the front of the text. -/
def after? : List Char → List Char → Option (List Char)
  | [], s => some s
  | _ :: _, [] => none
  | w :: word, c :: rest => if w = c then after? word rest else none

def skipBlanks (s : List Char) : List Char := s.dropWhile Text.isBlank

/-- What follows a character, before which blanks may stand. -/
def sign? (c : Char) (s : List Char) : Option (List Char) := after? [c] (skipBlanks s)

/-- One or more digits at the front of the text, and what follows them. -/
def index? (s : List Char) : Option (List Char × List Char) :=
  let digits := s.takeWhile Text.isDecimalDigit
  if digits.isEmpty then none else some (digits, s.drop digits.length)

/-- Whether a character may be part of a number. -/
def isNumberChar (c : Char) : Bool :=
  Text.isDecimalDigit c || c = '-' || c = '+' || c = '.' || c = 'e' || c = 'E'

/-- The characters of a number, before which blanks may stand, and what follows them. -/
def numberChars? (s : List Char) : Option (List Char × List Char) :=
  let s := skipBlanks s
  let chars := s.takeWhile isNumberChar
  if chars.isEmpty then none else some (chars, s.drop chars.length)

/-- What a reader finds at the first place of the text where it finds something. -/
def firstMatch? {β : Type} (read : List Char → Option β) : List Char → Option β
  | [] => read []
  | c :: rest => match read (c :: rest) with
    | some v => some v
    | none => firstMatch? read rest

/-- The text before the first occurrence of a word. -/
def before (word : List Char) : List Char → List Char
  | [] => []
  | c :: rest => if word.isPrefixOf (c :: rest) then [] else c :: before word rest

/-! ## Numbers -/

/-- The number of a cluster or node: plain digits that fit a machine word. -/
def indexValue? (digits : List Char) : Option Nat :=
  if digits.all Char.isDigit then
    let n := Decimal.ofDigits digits
    if n < UInt64.size then some n else none
  else none

/-! ## Attributes -/

/-- The start of a cluster: its digits, and what follows its brace. -/
def clusterStart? (s : List Char) : Option (List Char × List Char) := do
  let s ← after? "subgraph".toList s
  let t := skipBlanks s
  if t.length = s.length then none
  let s ← after? "cluster_".toList t
  let (digits, s) ← index? s
  let s ← sign? '\x7b' s
  return (digits, s)

/-- The start of a quoted value of an attribute. -/
def attribute? (name : String) (s : List Char) : Option (List Char) := do
  let s ← after? name.toList s
  let s ← sign? '=' s
  sign? '"' s

/-- The four numbers of a bounding box. -/
def boundingBox? (s : List Char) : Option (List (List Char)) := do
  let s ← attribute? "bb" s
  let (a, s) ← numberChars? s
  let s ← sign? ',' s
  let (b, s) ← numberChars? s
  let s ← sign? ',' s
  let (c, s) ← numberChars? s
  let s ← sign? ',' s
  let (d, s) ← numberChars? s
  let _ ← sign? '"' s
  return [a, b, c, d]

/-- The two numbers of a position. -/
def position? (s : List Char) : Option (List Char × List Char) := do
  let s ← attribute? "pos" s
  let (x, s) ← numberChars? s
  let s ← sign? ',' s
  let (y, _) ← numberChars? s
  return (x, y)

/-- A node at the start of a line: its digits, its attributes, and what follows them. -/
def nodeLine? (s : List Char) : Option (List Char × List Char × List Char) := do
  let s ← after? ['n'] (skipBlanks s)
  let (digits, s) ← index? s
  let s ← sign? '[' s
  let attributes := s.takeWhile fun c => c ≠ ']'
  let s ← after? [']'] (s.drop attributes.length)
  return (digits, attributes, s)

/-! ## The answer -/

/-- The starts of all clusters in a text that is not longer than the first argument. -/
def clusterStartsWithin : Nat → List Char → List (List Char × List Char)
  | 0, _ => []
  | _, [] => []
  | n + 1, c :: rest => match clusterStart? (c :: rest) with
    | some (digits, body) => (digits, body) :: clusterStartsWithin n body
    | none => clusterStartsWithin n rest

/-- The nodes in a text that is not longer than the first argument; `lineStart` tells whether the
text starts a line. -/
def nodeLinesWithin : Nat → Bool → List Char → List (List Char × List Char)
  | 0, _, _ => []
  | _, _, [] => []
  | n + 1, lineStart, c :: rest =>
    match if lineStart then nodeLine? (c :: rest) else none with
    | some (digits, attributes, after) => (digits, attributes) :: nodeLinesWithin n false after
    | none => nodeLinesWithin n (c = '\n') rest

/-- The box of a cluster, from the text after its brace. -/
def clusterBox (index : Nat) (body : List Char) : Except ToolError (Rect Float32) :=
  let complaint (what : String) : Except ToolError (Rect Float32) :=
    .error (.unparseable ("cluster_" ++ toString index ++ what))
  match firstMatch? boundingBox? (before "subgraph".toList body) with
  | none => complaint " has no bounding box"
  | some numbers =>
    match numbers.map Decimal.single? with
    | [some a, some b, some c, some d] =>
      if a.isFinite && b.isFinite && c.isFinite && d.isFinite then .ok ⟨a, b, c, d⟩
      else complaint " has a malformed bounding box"
    | _ => complaint " has a malformed bounding box"

/-- Records the box of a cluster. A cluster without a proper number is passed over. -/
def addCluster (found : Table Nat (Rect Float32)) (start : List Char × List Char) :
    Except ToolError (Table Nat (Rect Float32)) :=
  match indexValue? start.1 with
  | none => .ok found
  | some index => do
    let box ← clusterBox index start.2
    return found.insert index box

/-- Records the position of a node, if it has one. -/
def addNode (found : Table Nat (Point Float32)) (line : List Char × List Char) :
    Table Nat (Point Float32) :=
  match indexValue? line.1, firstMatch? position? line.2 with
  | some index, some (x, y) => match Decimal.single? x, Decimal.single? y with
    | some x, some y => found.insert index ⟨x, y⟩
    | _, _ => found
  | _, _ => found

/-- Reads the answer of the tool. -/
def ofText (text : String) : Except ToolError (DotAnswer Float32) := do
  let s := text.toList
  let clusters ← (clusterStartsWithin s.length s).foldlM addCluster .empty
  let nodes := (nodeLinesWithin s.length true s).foldl addNode .empty
  return ⟨clusters, nodes⟩

end DotAnswer

end NestedLayout
