import NestedLayout.Table

/-!
# What a document says

Graphs and settings are read from documents in more than one notation. `Format R` is what a
notation offers: a reader `R β` for each kind of value, records included. A document type states
its shape once, over any format, and so accepts the same fields in every notation.
-/

set_option autoImplicit false

namespace NestedLayout

/-- Where a field of a record may be left out: nowhere, only in a record with named fields, or also
in a record that lists its values in order. -/
inductive Absence where
  | nowhere
  | named
  | anywhere
deriving DecidableEq

/-- A field of a record that is built up from a value of type `σ`: its names, and how its value
changes what was built so far. -/
structure Field (R : Type → Type) (σ : Type) where
  name : String
  aliases : List String
  absence : Absence
  read : R (σ → σ)

namespace Field

variable {R : Type → Type} {σ : Type}

/-- Whether a name in a document means this field. -/
def answersTo (f : Field R σ) (name : String) : Bool := f.name == name || f.aliases.contains name

/-- The place of the field that a name means. -/
def index? (fields : List (Field R σ)) (name : String) : Option Nat :=
  fields.findIdx? fun f => f.answersTo name

/-- Whether every field that may not be left out is among the places that were seen. -/
def complete (fields : List (Field R σ)) (seen : List Nat) : Bool :=
  fields.zipIdx.all fun f => f.1.absence ≠ .nowhere || seen.contains f.2

end Field

/-- The readers that a notation has for the kinds of values. -/
class Format (R : Type → Type) where
  map {β γ : Type} : (β → γ) → R β → R γ
  text : R String
  /-- A coordinate. -/
  single : R Float32
  /-- A count that fits a machine word. -/
  count : R Nat
  flag : R Bool
  /-- One of a list of names. -/
  choice {β : Type} : List (String × β) → R β
  /-- A value, or `null`. -/
  optional {β : Type} : R β → R (Option β)
  list {β : Type} : R β → R (List β)
  /-- Values under ids; of values under one id the last counts. -/
  table {β : Type} : R β → R (IdTable β)
  /-- A record, built up from a start value. Fields that it does not have are passed over. -/
  record {σ : Type} : σ → List (Field R σ) → R σ

end NestedLayout
