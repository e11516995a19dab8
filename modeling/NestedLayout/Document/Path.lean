/-!
# Paths of documents

A path is a text with slashes between its parts. Empty parts do not count, and neither does a lone
point, which stays where it is, unless a path starts with it. Paths with the same parts are the
same path.

* `Path.fileName?` is the last part, if it is a name.
* `Path.extension?` is what stands after the last point of that name.
-/

set_option autoImplicit false

namespace NestedLayout

/-- A path in its parts. -/
structure Path where
  /-- Whether the path starts with a slash. -/
  absolute : Bool
  parts : List String
deriving DecidableEq

namespace Path

/-- The parts between the slashes that count. -/
def ofText (text : String) : Path :=
  let isName (part : String) : Bool := part ≠ "" && part ≠ "."
  match text.splitOn "/" with
  | "." :: rest => ⟨false, "." :: rest.filter isName⟩
  | parts => ⟨text.startsWith "/", parts.filter isName⟩

/-- The last part, unless it only says which directory is meant. -/
def fileName? (p : Path) : Option String :=
  p.parts.getLast?.filter fun part => part ≠ "." && part ≠ ".."

/-- What stands after the last point of a name; a point at the start does not count. -/
def extensionOf? (name : List Char) : Option (List Char) :=
  let afterPoint := name.reverse.takeWhile fun c => c ≠ '.'
  if afterPoint.length + 1 < name.length then some afterPoint.reverse else none

/-- The extension of the file that the path names. -/
def extension? (p : Path) : Option String :=
  (p.fileName?.bind fun name => extensionOf? name.toList).map String.ofList

end Path

end NestedLayout
