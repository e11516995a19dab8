import NestedLayout.Diagram.Basic
import NestedLayout.Json.Reader
import NestedLayout.Json5.Reader

/-!
# Diagrams as documents

* `Diagram.reader` reads a diagram in any notation: only the root, the kind of an element and the
  endpoints of a connector have to be given, and some fields go by a second name.
* `Diagram.toJson` writes a diagram with every field filled in.
-/

set_option autoImplicit false

namespace NestedLayout

namespace ElementKind

def name : ElementKind → String
  | vertex => "vertex"
  | predicate => "predicate"

/-- The kinds under their names. -/
def choices : List (String × ElementKind) := [("vertex", vertex), ("predicate", predicate)]

end ElementKind

namespace Diagram

/-! ## Reading -/

variable {R : Type → Type} [Format R]

def areaReader : R Area :=
  Format.record ⟨none, []⟩ [
    ⟨"parent", ["parent_id"], .anywhere,
      Format.map (fun v a => { a with parent := v }) (Format.optional Format.text)⟩,
    ⟨"items", ["direct_item_ids"], .anywhere,
      Format.map (fun v a => { a with items := v }) (Format.list Format.text)⟩]

def elementReader : R Element :=
  Format.record ⟨.vertex, "", []⟩ [
    ⟨"kind", [], .nowhere,
      Format.map (fun v e => { e with kind := v }) (Format.choice ElementKind.choices)⟩,
    ⟨"text", ["display_text"], .anywhere,
      Format.map (fun v e => { e with text := v }) Format.text⟩,
    ⟨"connections", [], .anywhere,
      Format.map (fun v e => { e with connections := v }) (Format.list Format.text)⟩]

def connectionReader : R Connection :=
  Format.record ⟨none, []⟩ [
    ⟨"id", [], .anywhere,
      Format.map (fun v c => { c with id := v }) (Format.optional Format.text)⟩,
    ⟨"endpoints", [], .nowhere,
      Format.map (fun v c => { c with endpoints := v }) (Format.list Format.text)⟩]

def reader : R Diagram :=
  Format.record ⟨"", .empty, .empty, []⟩ [
    ⟨"root", [], .nowhere, Format.map (fun v d => { d with root := v }) Format.text⟩,
    ⟨"containers", [], .anywhere,
      Format.map (fun v d => { d with areas := v }) (Format.table areaReader)⟩,
    ⟨"elements", [], .anywhere,
      Format.map (fun v d => { d with elements := v }) (Format.table elementReader)⟩,
    ⟨"connectors", [], .anywhere,
      Format.map (fun v d => { d with connections := v }) (Format.list connectionReader)⟩]

/-- Reads a JSON text. -/
def ofJson (text : String) : Except Fault Diagram := Json.Reader.run reader text

/-- Reads a JSON5 text. -/
def ofJson5? (text : String) : Option Diagram := Json5.Reader.run reader text

/-! ## Writing -/

def Area.toJson (a : Area) : Json :=
  .record [("parent", .ofOption .text a.parent), ("items", .ofTexts a.items)]

def Element.toJson (e : Element) : Json :=
  .record [("kind", .text e.kind.name), ("text", .text e.text),
    ("connections", .ofTexts e.connections)]

def Connection.toJson (c : Connection) : Json :=
  .record [("id", .ofOption .text c.id), ("endpoints", .ofTexts c.endpoints)]

def toJson (d : Diagram) : Json :=
  .record [("root", .text d.root), ("containers", Json.ofTable Area.toJson d.areas),
    ("elements", Json.ofTable Element.toJson d.elements),
    ("connectors", .list (d.connections.map Connection.toJson))]

end Diagram

end NestedLayout
