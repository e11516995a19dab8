import NestedLayout.Document.Format
import NestedLayout.Json5.Value

/-!
# Reading JSON5

Readers of values out of a JSON5 tree. A reader either finds the value that it looks for or fails;
there is one kind of failure. A number in a place for a count is cut off toward zero and at the
ends of the word.
-/

set_option autoImplicit false

namespace NestedLayout

namespace Json5

/-- A reader of values out of a tree. -/
def Reader (β : Type) : Type := Json5 → Option β

/-- The value of a number in double precision. Signs go with decimal numbers; besides, infinity and
the value that is no number may be negative. A decimal number has to be in range. -/
def double? (sign : Option Char) : Form → Option Float
  | .hex n => if sign.isNone && decide (n < UInt32.size) then some (Float.ofNat n) else none
  | .decimal d _ => if d.inDoubleRange then some d.toDouble else none
  | .infinity => match sign with
    | none => some (1.0 / 0.0)
    | some '-' => some (-(1.0 / 0.0))
    | some _ => none
  | .nan => if sign = some '+' then none else some (0.0 / 0.0)

/-- Whether a number that nobody reads is acceptable: a whole one has to fit a signed word. -/
def passable (sign : Option Char) : Form → Bool
  | .decimal d true =>
    let half := UInt64.size / 2
    if d.negative then decide (d.mantissa ≤ half) else decide (d.mantissa < half)
  | form => (double? sign form).isSome

mutual

/-- Whether a value that nobody reads is acceptable. -/
def ignorable : Json5 → Bool
  | null => true
  | flag _ => true
  | number sign form => passable sign form
  | text content => content.isSome
  | list items => ignorableItems items
  | record fields => ignorableFields fields

def ignorableItems : List Json5 → Bool
  | [] => true
  | v :: rest => ignorable v && ignorableItems rest

def ignorableFields : List (Option String × Json5) → Bool
  | [] => true
  | (name, v) :: rest => name.isSome && ignorable v && ignorableFields rest

end

namespace Reader

variable {β γ σ : Type}

def map (f : β → γ) (r : Reader β) : Reader γ := fun v => Option.map f (r v)

def text : Reader String
  | .text content => content
  | _ => none

def single : Reader Float32
  | .number sign form => (double? sign form).map Binary32.ofDouble
  | _ => none

def count : Reader Nat
  | .number sign form => (double? sign form).map fun x => x.toUInt64.toNat
  | _ => none

def flag : Reader Bool
  | .flag b => some b
  | _ => none

def optional (r : Reader β) : Reader (Option β)
  | .null => some none
  | v => Option.map some (r v)

/-- One of the choices: its name, or a record whose first field has its name; what else the record
holds does not matter. -/
def choice (choices : List (String × β)) : Reader β
  | .text content => content.bind fun name => List.lookup name choices
  | .record ((name, _) :: _) => name.bind fun name => List.lookup name choices
  | _ => none

def list (r : Reader β) : Reader (List β)
  | .list items => items.mapM r
  | _ => none

def table (r : Reader β) : Reader (IdTable β)
  | .record fields => fields.foldlM (fun t f => do
      let name ← f.1
      let v ← r f.2
      return t.insert name v) .empty
  | _ => none

/-- The named fields of a record, after the places that were seen. -/
def namedFields (fields : List (Field Reader σ)) :
    List Nat → σ → List (Option String × Json5) → Option σ
  | seen, acc, [] => if Field.complete fields seen then some acc else none
  | seen, acc, (name, v) :: rest => do
    let name ← name
    match Field.index? fields name with
    | none => if ignorable v then namedFields fields seen acc rest else none
    | some i =>
      if seen.contains i then none
      else
        let field ← fields[i]?
        let update ← field.read v
        namedFields fields (i :: seen) (update acc) rest

/-- The values of a record in the order of its fields; values beyond them do not matter. -/
def orderedFields : List (Field Reader σ) → σ → List Json5 → Option σ
  | [], acc, _ => some acc
  | field :: fields, acc, [] =>
    if field.absence = .anywhere then orderedFields fields acc [] else none
  | field :: fields, acc, v :: rest => do
    let update ← field.read v
    orderedFields fields (update acc) rest

def record (start : σ) (fields : List (Field Reader σ)) : Reader σ
  | .record given => namedFields fields [] start given
  | .list items => orderedFields fields start items
  | _ => none

/-- Reads a whole text. -/
def run (r : Reader β) (text : String) : Option β := (ofText? text).bind r

end Reader

instance : Format Reader where
  map := Reader.map
  text := Reader.text
  single := Reader.single
  count := Reader.count
  flag := Reader.flag
  choice := Reader.choice
  optional := Reader.optional
  list := Reader.list
  table := Reader.table
  record := Reader.record

end Json5

end NestedLayout
