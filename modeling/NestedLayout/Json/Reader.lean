import NestedLayout.Document.Format
import NestedLayout.Json.Token
import NestedLayout.Json.Value

/-!
# Reading JSON

A reader takes a value off the front of a list of tokens, or reports the first fault from the left.

* `Reader.run` reads a whole text; nothing may follow the value.
* `skipValue` passes over a value of any depth.
* `Json.ofText` reads a text as a plain value, whatever it says.

What a reader meets is judged in the order of the text: a string or number of the wrong kind is
first read to its end, a list or record of the wrong kind is refused at its bracket, a field that
is given twice is refused at its second name, and a missing one at the closing bracket.
-/

set_option autoImplicit false

namespace NestedLayout

namespace Json

/-- A reader of values from the front of a text. -/
def Reader (β : Type) : Type := List Token → Except Fault (β × List Token)

/-! ## Passing over values -/

inductive Bracket where
  | list
  | record
deriving DecidableEq

/-- What may come next where a value is passed over. -/
inductive Expected where
  /-- A value. -/
  | value
  /-- The first item or name, or the closing bracket. -/
  | start
  /-- A name. -/
  | name
  /-- The colon after a name. -/
  | colon
  /-- A comma or the closing bracket. -/
  | next

/-- Passes over the rest of a value inside the brackets that are open. -/
def skipFrom : List Bracket → Expected → List Token → Except Fault (List Token)
  | _, _, [] => .error .cutOff
  | open', expected, token :: rest =>
    let scalar (_ : Unit) : Except Fault (List Token) :=
      match open' with
      | [] => .ok rest
      | _ :: _ => skipFrom open' .next rest
    let close (b : Bracket) : Except Fault (List Token) :=
      match open' with
      | [] => .error .malformed
      | top :: outer =>
        if top ≠ b then .error .malformed
        else match outer with
          | [] => .ok rest
          | _ :: _ => skipFrom outer .next rest
    let value (_ : Unit) : Except Fault (List Token) :=
      match token with
      | .openList => skipFrom (.list :: open') .start rest
      | .openRecord => skipFrom (.record :: open') .start rest
      | .text _ | .number _ | .null | .flag _ => scalar ()
      | .brokenText _ skipped => .error skipped
      | .brokenNumber _ => .error .malformed
      | .brokenNull f | .brokenWord f => .error f
      | _ => .error .malformed
    let name (_ : Unit) : Except Fault (List Token) :=
      match token with
      | .text _ => skipFrom open' .colon rest
      | .brokenText _ skipped => .error skipped
      | _ => .error .malformed
    match expected with
    | .value => value ()
    | .name => name ()
    | .colon => match token with
      | .colon => skipFrom open' .value rest
      | _ => .error .malformed
    | .start => match token, open' with
      | .closeList, _ => close .list
      | .closeRecord, _ => close .record
      | _, .record :: _ => name ()
      | _, _ => value ()
    | .next => match token, open' with
      | .closeList, _ => close .list
      | .closeRecord, _ => close .record
      | .comma, .record :: _ => skipFrom open' .name rest
      | .comma, _ => skipFrom open' .value rest
      | _, _ => .error .malformed

/-- Passes over one value. -/
def skipValue (ts : List Token) : Except Fault (List Token) := skipFrom [] .value ts

/-! ## Readers -/

/-- The fault of a value of the wrong kind. -/
def wrongKind : List Token → Fault
  | [] => .cutOff
  | token :: _ => match token with
    | .openList | .openRecord | .null | .flag _ => .mismatch
    | .text (.ok _) => .mismatch
    | .text (.error f) => f
    | .number n => if n.inRange then .mismatch else .malformed
    | .brokenText read _ => read
    | .brokenNumber read => read
    | .brokenNull f | .brokenWord f => f
    | _ => .malformed

namespace Reader

variable {β γ σ : Type}

def map (f : β → γ) (r : Reader β) : Reader γ := fun ts => do
  let (v, rest) ← r ts
  return (f v, rest)

def text : Reader String
  | .text content :: rest => content.map fun s => (s, rest)
  | ts => .error (wrongKind ts)

def single : Reader Float32
  | .number n :: rest => match n.toSingle? with
    | some x => .ok (x, rest)
    | none => .error .malformed
  | ts => .error (wrongKind ts)

def count : Reader Nat
  | .number n :: rest => match n.count? with
    | some k => .ok (k, rest)
    | none => .error (wrongKind [.number n])
  | ts => .error (wrongKind ts)

def flag : Reader Bool
  | .flag b :: rest => .ok (b, rest)
  | ts => .error (wrongKind ts)

/-- A value, or `null`; what starts as the word is read as the word. -/
def optional (r : Reader β) : Reader (Option β)
  | .null :: rest => .ok (none, rest)
  | .brokenNull f :: _ => .error f
  | ts => do
    let (v, rest) ← r ts
    return (some v, rest)

/-- Takes a token of one kind. -/
def punctuation (isIt : Token → Bool) : List Token → Except Fault (List Token)
  | [] => .error .cutOff
  | t :: rest => if isIt t then .ok rest else .error .malformed

def colon : List Token → Except Fault (List Token) :=
  punctuation fun | .colon => true | _ => false

def closeList : List Token → Except Fault (List Token) :=
  punctuation fun | .closeList => true | _ => false

def closeRecord : List Token → Except Fault (List Token) :=
  punctuation fun | .closeRecord => true | _ => false

/-- Looks a name up among the choices. -/
def choose (choices : List (String × β)) (name : String) : Except Fault β :=
  match choices.lookup name with
  | some v => .ok v
  | none => .error .mismatch

/-- One of the choices: its name, or a record with its name and `null`. -/
def choice (choices : List (String × β)) : Reader β
  | [] => .error .cutOff
  | .text content :: rest => do
    let name ← content
    return (← choose choices name, rest)
  | .brokenText read _ :: _ => .error read
  | .openRecord :: rest => do
    let (name, rest) ← text rest
    let v ← choose choices name
    let rest ← colon rest
    match rest with
    | .null :: rest => return (v, ← closeRecord rest)
    | ts => .error (wrongKind ts)
  | _ :: _ => .error .malformed

/-- The tokens of the next item of a list, if there is one; a comma stands before all but the
first. -/
def nextItem (first : Bool) : List Token → Except Fault (Option (List Token))
  | [] => .error .cutOff
  | .closeList :: _ => .ok none
  | .comma :: rest =>
    if first then .error .malformed
    else match rest with
      | [] => .error .cutOff
      | .closeList :: _ => .error .malformed
      | _ :: _ => .ok (some rest)
  | t :: rest => if first then .ok (some (t :: rest)) else .error .malformed

/-- The next name of a record, if there is one, with the tokens after it; a comma stands before all
but the first. -/
def nextName (first : Bool) : List Token → Except Fault (Option (String × List Token))
  | [] => .error .cutOff
  | .closeRecord :: _ => .ok none
  | .comma :: rest => if first then .error .malformed else name rest
  | t :: rest => if first then name (t :: rest) else .error .malformed
where
  name : List Token → Except Fault (Option (String × List Token))
    | [] => .error .cutOff
    | .text content :: rest => content.map fun s => some (s, rest)
    | .brokenText read _ :: _ => .error read
    | _ :: _ => .error .malformed

/-- The items of a list, whose bracket has been read; at most as many as the first argument. -/
def items (r : Reader β) : Nat → Bool → List Token → Except Fault (List β × List Token)
  | 0, _, _ => .error .cutOff
  | n + 1, first, ts => do
    match ← nextItem first ts with
    | none => return ([], ← closeList ts)
    | some rest =>
      let (v, rest) ← r rest
      let (vs, rest) ← items r n false rest
      return (v :: vs, rest)

def list (r : Reader β) : Reader (List β)
  | .openList :: rest => items r (rest.length + 1) true rest
  | ts => .error (wrongKind ts)

/-- The entries of a table, whose bracket has been read; at most as many as the first argument. -/
def entries (r : Reader β) :
    Nat → Bool → IdTable β → List Token → Except Fault (IdTable β × List Token)
  | 0, _, _, _ => .error .cutOff
  | n + 1, first, acc, ts => do
    match ← nextName first ts with
    | none => return (acc, ← closeRecord ts)
    | some (name, rest) =>
      let rest ← colon rest
      let (v, rest) ← r rest
      entries r n false (acc.insert name v) rest

def table (r : Reader β) : Reader (IdTable β)
  | .openRecord :: rest => entries r (rest.length + 1) true .empty rest
  | ts => .error (wrongKind ts)

/-- The named fields of a record, whose bracket has been read; at most as many as the first
argument. -/
def namedFields (fields : List (Field Reader σ)) :
    Nat → Bool → List Nat → σ → List Token → Except Fault (σ × List Token)
  | 0, _, _, _, _ => .error .cutOff
  | n + 1, first, seen, acc, ts => do
    match ← nextName first ts with
    | none =>
      if Field.complete fields seen then return (acc, ← closeRecord ts)
      else .error .mismatch
    | some (name, rest) =>
      match Field.index? fields name with
      | none =>
        let rest ← colon rest
        let rest ← skipValue rest
        namedFields fields n false seen acc rest
      | some i =>
        if seen.contains i then .error .mismatch
        else
          let rest ← colon rest
          match fields[i]? with
          | none => .error .mismatch
          | some field =>
            let (update, rest) ← field.read rest
            namedFields fields n false (i :: seen) (update acc) rest

/-- The fields of a record that lists its values in order, whose bracket has been read. -/
def orderedFields : List (Field Reader σ) → Bool → σ → List Token → Except Fault (σ × List Token)
  | [], _, acc, ts => do
    let rest ← closeList ts
    return (acc, rest)
  | field :: fields, first, acc, ts => do
    match ← nextItem first ts with
    | none =>
      if field.absence = .anywhere then orderedFields fields first acc ts
      else .error .mismatch
    | some rest =>
      let (update, rest) ← field.read rest
      orderedFields fields false (update acc) rest

def record (start : σ) (fields : List (Field Reader σ)) : Reader σ
  | .openRecord :: rest => namedFields fields (rest.length + 1) true [] start rest
  | .openList :: rest => orderedFields fields true start rest
  | ts => .error (wrongKind ts)

/-- Reads a whole text; nothing but blanks may follow the value. -/
def run (r : Reader β) (text : String) : Except Fault β := do
  let (v, rest) ← r (tokens text.toList)
  if rest.isEmpty then return v else .error .malformed

/-- Reads a value. Its text is well-formed, so whatever is wrong is that it says something else. -/
def ofValue (r : Reader β) (j : Json) : Except Fault β :=
  match run r j.compact with
  | .ok v => .ok v
  | .error _ => .error .mismatch

end Reader

instance : Format Reader where
  map := Reader.map
  text := Reader.text
  single := Reader.single
  count := Reader.count
  flag := Reader.flag
  choice := Reader.choice
  optional := Reader.optional
  list := Reader.list
  table := Reader.table
  record := Reader.record

/-! ## Plain values -/

/-- A list or record that is not closed yet, with what it holds so far in reverse. -/
inductive Frame where
  | list (items : List Json)
  | record (fields : List (String × Json)) (name : String)

/-- Where a value is complete: it goes into the innermost open list or record. -/
def Frame.fill (v : Json) : List Frame → List Frame × Option Json
  | [] => ([], some v)
  | .list items :: outer => (.list (v :: items) :: outer, none)
  | .record fields name :: outer => (.record ((name, v) :: fields) name :: outer, none)

/-- Reads a well-formed value; the open lists and records stand on a stack. -/
def ofTokens : List Frame → List Token → Option Json
  | _, [] => none
  | frames, token :: rest =>
    let filled (frames : List Frame) (v : Json) : Option Json :=
      match Frame.fill v frames with
      | (_, some whole) => if rest.isEmpty then some whole else none
      | (frames, none) => ofTokens frames rest
    match token with
    | .openList => ofTokens (.list [] :: frames) rest
    | .openRecord => ofTokens (.record [] "" :: frames) rest
    | .closeList => match frames with
      | .list items :: outer => filled outer (.list items.reverse)
      | _ => none
    | .closeRecord => match frames with
      | .record fields _ :: outer => filled outer (.record fields.reverse)
      | _ => none
    | .text (.ok s) => match rest, frames with
      | .colon :: rest', .record fields _ :: outer => ofTokens (.record fields s :: outer) rest'
      | _, _ => filled frames (.text s)
    | .number n => filled frames (.number (String.ofList n.text))
    | .null => filled frames .null
    | .flag b => filled frames (.flag b)
    | .comma => ofTokens frames rest
    | _ => none

/-- Reads a text as a plain value, if it is well-formed. -/
def ofText? (text : String) : Option Json :=
  let ts := tokens text.toList
  match skipValue ts with
  | .ok [] => ofTokens [] ts
  | _ => none

end Json

end NestedLayout
