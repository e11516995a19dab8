import NestedLayout.Diagram.Document
import NestedLayout.Proofs.Json.Reading

/-!
# Diagrams from their texts

Whatever ids and texts a diagram has, it can be read back from what it is written as: every field
is written under a name that the reader knows, and in a form that the reader takes for the same
value (`ofJson_toJson`).
-/

set_option autoImplicit false

namespace NestedLayout

open Json.Reader

theorem ElementKind.lookup_name (k : ElementKind) :
    ElementKind.choices.lookup k.name = some k := by cases k <;> rfl

namespace Diagram

theorem readsAs_texts (items : List String) :
    ReadsAs (Format.list Format.text) (.ofTexts items) items :=
  .list fun s _ => .text s

theorem readsAs_area (a : Area) : ReadsAs areaReader a.toJson a := by
  refine .record ?_
  refine .field (i := 0) rfl rfl rfl (.map (.optional_text a.parent) _) ?_
  refine .field (i := 1) rfl rfl rfl (.map (readsAs_texts a.items) _) ?_
  exact .done rfl

theorem readsAs_element (e : Element) : ReadsAs elementReader e.toJson e := by
  refine .record ?_
  refine .field (i := 0) rfl rfl rfl (.map (.choice e.kind.lookup_name) _) ?_
  refine .field (i := 1) rfl rfl rfl (.map (.text e.text) _) ?_
  refine .field (i := 2) rfl rfl rfl (.map (readsAs_texts e.connections) _) ?_
  exact .done rfl

theorem readsAs_connection (c : Connection) : ReadsAs connectionReader c.toJson c := by
  refine .record ?_
  refine .field (i := 0) rfl rfl rfl (.map (.optional_text c.id) _) ?_
  refine .field (i := 1) rfl rfl rfl (.map (readsAs_texts c.endpoints) _) ?_
  exact .done rfl

/-- **A diagram is read as it was written.** -/
theorem readsAs_diagram (d : Diagram) : ReadsAs reader d.toJson d := by
  refine .record ?_
  refine .field (i := 0) rfl rfl rfl (.map (.text d.root) _) ?_
  refine .field (i := 1) rfl rfl rfl (.map (.table readsAs_area d.areas) _) ?_
  refine .field (i := 2) rfl rfl rfl (.map (.table readsAs_element d.elements) _) ?_
  refine .field (i := 3) rfl rfl rfl
    (.map (.list fun c (_ : c ∈ d.connections) => readsAs_connection c) _) ?_
  exact .done rfl

/-- **Round trip.** Every diagram is read back from either of its texts; so whatever text it came
from, reading, writing and reading again gives what reading once does. -/
theorem ofJson_toJson :
    (∀ d : Diagram, ofJson d.toJson.compact = .ok d ∧ ofJson d.toJson.pretty = .ok d) ∧
      ∀ text : String,
        (do ofJson (← ofJson text).toJson.compact) = ofJson text ∧
          (do ofJson (← ofJson text).toJson.pretty) = ofJson text := by
  have hback : ∀ d : Diagram, ofJson d.toJson.compact = .ok d ∧ ofJson d.toJson.pretty = .ok d :=
    fun d => (readsAs_diagram d).run
  refine ⟨hback, fun text => ?_⟩
  cases ofJson text with
  | error f => exact ⟨rfl, rfl⟩
  | ok d => simpa only [bind, Except.bind] using hback d

end Diagram

end NestedLayout
