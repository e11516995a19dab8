import NestedLayout.Json.Reader

/-!
# Reading and passing over

A reader that does not know a field passes over its value, and a reader that knows it reads it. Both
end up at the same place: a reader is `Exact` when it takes exactly the value that is passed over.

* `passToken`: what one token does where a value is passed over (`skipFrom_cons`).
* `skipFrom_append`: how a value inside others is passed over.
* `Exact.map`, `Exact.optional`, `Exact.list`: a reader that is built from exact ones is exact.
-/

set_option autoImplicit false

namespace NestedLayout.Json

/-! ## One token -/

/-- Where a token leads that is passed over: to a fault, to the end of the value, or on inside the
brackets that are open then. -/
inductive Passed where
  | fault (f : Fault)
  | complete
  | on (stack : List Bracket) (expected : Expected)

namespace Passed

/-- After a value inside the brackets that are open. -/
def after : List Bracket → Passed
  | [] => .complete
  | b :: outer => .on (b :: outer) .next

/-- After a closing bracket. -/
def close (b : Bracket) : List Bracket → Passed
  | [] => .fault .malformed
  | top :: outer => if top = b then after outer else .fault .malformed

/-- After a token that should start a value. -/
def value (stack : List Bracket) : Token → Passed
  | .openList => .on (.list :: stack) .start
  | .openRecord => .on (.record :: stack) .start
  | .text _ | .number _ | .null | .flag _ => after stack
  | .brokenText _ f | .brokenNull f | .brokenWord f => .fault f
  | _ => .fault .malformed

/-- After a token that should be a name. -/
def name (stack : List Bracket) : Token → Passed
  | .text _ => .on stack .colon
  | .brokenText _ f => .fault f
  | _ => .fault .malformed

end Passed

/-- What one token does. -/
def passToken (stack : List Bracket) : Expected → Token → Passed
  | .value, t => Passed.value stack t
  | .name, t => Passed.name stack t
  | .colon, .colon => .on stack .value
  | .colon, _ => .fault .malformed
  | .start, .closeList | .next, .closeList => Passed.close .list stack
  | .start, .closeRecord | .next, .closeRecord => Passed.close .record stack
  | .start, t => match stack with
    | .record :: _ => Passed.name stack t
    | _ => Passed.value stack t
  | .next, .comma => match stack with
    | .record :: _ => .on stack .name
    | _ => .on stack .value
  | .next, _ => .fault .malformed

theorem skipFrom_cons (stack : List Bracket) (e : Expected) (t : Token) (ts : List Token) :
    skipFrom stack e (t :: ts) = match passToken stack e t with
      | .fault f => .error f
      | .complete => .ok ts
      | .on stack e => skipFrom stack e ts := by
  cases e <;> cases t <;> rcases stack with _ | ⟨_ | _, _ | _⟩ <;> rfl

/-! ## Values inside others -/

/-- Where a token leads that also has brackets open around its value. -/
def Passed.inside (outer : List Bracket) : Passed → Passed
  | .fault f => .fault f
  | .complete => .on outer .next
  | .on stack e => .on (stack ++ outer) e

theorem passToken_append {outer : List Bracket} (ho : outer ≠ []) {stack : List Bracket}
    {e : Expected} (hs : stack ≠ [] ∨ e = .value) (t : Token) :
    passToken (stack ++ outer) e t = (passToken stack e t).inside outer := by
  obtain ⟨b, outer, rfl⟩ := List.exists_cons_of_ne_nil ho
  rcases stack with _ | ⟨top, _ | ⟨next, stack⟩⟩
  · obtain rfl := hs.resolve_left (fun h => h rfl)
    cases t <;> rfl
  all_goals cases e <;> cases t <;> cases top <;> rfl

/-- A value is not left before its end. -/
theorem passToken_on {stack stack' : List Bracket} {e e' : Expected} {t : Token}
    (hs : stack ≠ [] ∨ e = .value) (h : passToken stack e t = .on stack' e') : stack' ≠ [] := by
  rcases stack with _ | ⟨top, _ | ⟨next, stack⟩⟩
  · obtain rfl := hs.resolve_left (fun h => h rfl)
    cases t <;> cases h <;> exact List.cons_ne_nil _ _
  all_goals
    cases e <;> cases t <;> cases top <;> cases h <;> exact List.cons_ne_nil _ _

/-- **Inside other brackets** a value is passed over as it is alone. -/
theorem skipFrom_append {outer : List Bracket} (ho : outer ≠ []) {ts rest : List Token}
    {stack : List Bracket} {e : Expected} (hs : stack ≠ [] ∨ e = .value)
    (h : skipFrom stack e ts = .ok rest) :
    skipFrom (stack ++ outer) e ts = skipFrom outer .next rest := by
  induction ts generalizing stack e with
  | nil => cases h
  | cons t ts ih =>
    rw [skipFrom_cons] at h ⊢
    rw [passToken_append ho hs]
    cases hp : passToken stack e t with
    | fault f => rw [hp] at h; cases h
    | complete => rw [hp] at h; cases h; rfl
    | on stack' e' =>
      rw [hp] at h
      exact ih (.inl (passToken_on hs hp)) h

theorem skipFrom_of_skipValue {outer : List Bracket} (ho : outer ≠ []) {ts rest : List Token}
    (h : skipValue ts = .ok rest) : skipFrom outer .value ts = skipFrom outer .next rest :=
  skipFrom_append ho (.inr rfl) h

/-! ## Readers -/

namespace Reader

variable {β γ σ : Type}

/-- The reader takes exactly the value that is passed over. -/
def Exact (r : Reader β) : Prop :=
  ∀ {ts : List Token} {v : β} {rest : List Token}, r ts = .ok (v, rest) → skipValue ts = .ok rest

/-- A first step that went well, and what came of it. -/
theorem bind_eq_ok {ε α δ : Type} {x : Except ε α} {f : α → Except ε δ} {d : δ} :
    (x >>= f) = .ok d ↔ ∃ a, x = .ok a ∧ f a = .ok d := by
  cases x with
  | error e => exact ⟨nofun, fun ⟨_, h, _⟩ => nomatch h⟩
  | ok a => exact ⟨fun h => ⟨a, rfl, h⟩, fun ⟨_, h, h'⟩ => by cases h; exact h'⟩

theorem map_eq_ok {f : β → γ} {r : Reader β} {ts rest : List Token} {u : γ}
    (h : map f r ts = .ok (u, rest)) : ∃ v, r ts = .ok (v, rest) ∧ u = f v := by
  obtain ⟨⟨v, rest'⟩, hr, h⟩ := bind_eq_ok.1 h
  cases h
  exact ⟨v, hr, rfl⟩

theorem Exact.map {r : Reader β} (h : Exact r) (f : β → γ) : Exact (Reader.map f r) :=
  fun hread => by
    obtain ⟨v, hr, -⟩ := map_eq_ok hread
    exact h hr

theorem text_eq_ok {ts rest : List Token} {v : String} (h : text ts = .ok (v, rest)) :
    ts = .text (.ok v) :: rest := by
  unfold text at h
  split at h
  · rename_i content ts
    cases content with
    | error f => cases h
    | ok s => cases h; rfl
  · cases h

theorem exact_text : Exact text := fun h => by
  rw [text_eq_ok h]
  rfl

theorem single_eq_ok {ts rest : List Token} {x : Float32} (h : single ts = .ok (x, rest)) :
    ∃ n : NumberText, ts = .number n :: rest ∧ n.toSingle? = some x := by
  unfold single at h
  split at h
  · rename_i n ts
    split at h
    · rename_i y hn
      cases h
      exact ⟨n, rfl, hn⟩
    · cases h
  · cases h

theorem exact_single : Exact single := fun h => by
  obtain ⟨n, rfl, -⟩ := single_eq_ok h
  rfl

theorem exact_count : Exact count := fun {ts v rest} h => by
  unfold count at h
  split at h
  · split at h
    · cases h; rfl
    · cases h
  · cases h

theorem exact_flag : Exact flag := fun {ts v rest} h => by
  unfold flag at h
  split at h
  · cases h; rfl
  · cases h

/-- Where a value may be `null`, it is, or it is what is asked for. -/
theorem optional_eq_ok {r : Reader β} {ts rest : List Token} {v : Option β}
    (h : optional r ts = .ok (v, rest)) :
    (ts = .null :: rest ∧ v = none) ∨
      (∃ u, r ts = .ok (u, rest) ∧ v = some u) ∧ ∀ rest', ts ≠ .null :: rest' := by
  unfold optional at h
  split at h
  · cases h
    exact .inl ⟨rfl, rfl⟩
  · cases h
  · rename_i hnull hbroken
    obtain ⟨⟨u, rest'⟩, hr, h⟩ := bind_eq_ok.1 h
    cases h
    exact .inr ⟨⟨u, hr, rfl⟩, hnull⟩

theorem Exact.optional {r : Reader β} (h : Exact r) : Exact (Reader.optional r) :=
  fun hread => by
    obtain ⟨rfl, -⟩ | ⟨⟨u, hr, -⟩, -⟩ := optional_eq_ok hread
    · rfl
    · exact h hr

/-! ## Punctuation -/

theorem colon_eq_ok {ts rest : List Token} (h : colon ts = .ok rest) : ts = .colon :: rest := by
  rcases ts with _ | ⟨t, ts⟩
  · cases h
  · cases t <;> cases h
    rfl

theorem closeList_eq_ok {ts rest : List Token} (h : closeList ts = .ok rest) :
    ts = .closeList :: rest := by
  rcases ts with _ | ⟨t, ts⟩
  · cases h
  · cases t <;> cases h
    rfl

theorem closeRecord_eq_ok {ts rest : List Token} (h : closeRecord ts = .ok rest) :
    ts = .closeRecord :: rest := by
  rcases ts with _ | ⟨t, ts⟩
  · cases h
  · cases t <;> cases h
    rfl

/-- What is expected before an item or a name. -/
def before (first : Bool) : Expected := if first then .start else .next

theorem nextItem_eq_none {first : Bool} {ts : List Token} (h : nextItem first ts = .ok none) :
    ∃ rest, ts = .closeList :: rest := by
  rcases ts with _ | ⟨t, ts⟩
  · cases h
  · cases t with
    | closeList => exact ⟨ts, rfl⟩
    | comma =>
      rcases ts with _ | ⟨t, ts⟩
      · cases first <;> cases h
      · cases first <;> cases t <;> cases h
    | _ => cases first <;> cases h

theorem skip_nextItem {first : Bool} {ts d : List Token} (h : nextItem first ts = .ok (some d)) :
    skipFrom [.list] (before first) ts = skipFrom [.list] .value d := by
  rcases ts with _ | ⟨t, ts⟩
  · cases h
  · cases t with
    | comma =>
      rcases ts with _ | ⟨t, ts⟩
      · cases first <;> cases h
      · cases first <;> cases t <;> cases h <;> rfl
    | _ => cases first <;> cases h <;> rfl

theorem name_eq_ok {ts : List Token} {found : Option (String × List Token)}
    (h : nextName.name ts = .ok found) :
    ∃ name rest, ts = .text (.ok name) :: rest ∧ found = some (name, rest) := by
  rcases ts with _ | ⟨t, ts⟩
  · cases h
  · cases t with
    | text content =>
      cases content with
      | error f => cases h
      | ok name => cases h; exact ⟨name, ts, rfl, rfl⟩
    | _ => cases h

/-- The next name follows a comma, unless it is the first. -/
theorem nextName_eq_ok {first : Bool} {ts : List Token} {found : Option (String × List Token)}
    (h : nextName first ts = .ok found) :
    (∃ rest, ts = .closeRecord :: rest ∧ found = none) ∨
      ∃ name rest, ts = (if first then [] else [.comma]) ++ .text (.ok name) :: rest ∧
        found = some (name, rest) := by
  rcases ts with _ | ⟨t, ts⟩
  · cases h
  · cases t with
    | closeRecord => cases h; exact .inl ⟨ts, rfl, rfl⟩
    | comma =>
      cases first with
      | true => cases h
      | false =>
        have h : nextName.name ts = .ok found := h
        obtain ⟨name, rest, rfl, rfl⟩ := name_eq_ok h
        exact .inr ⟨name, rest, rfl, rfl⟩
    | text content =>
      cases first with
      | true =>
        have h : nextName.name (.text content :: ts) = .ok found := h
        obtain ⟨name, rest, heq, rfl⟩ := name_eq_ok h
        exact .inr ⟨name, rest, heq, rfl⟩
      | false => cases h
    | _ => cases first <;> cases h

theorem skip_nextName {first : Bool} {ts rest : List Token} {name : String}
    (h : nextName first ts = .ok (some (name, rest))) :
    skipFrom [.record] (before first) ts = skipFrom [.record] .colon rest := by
  obtain ⟨_, -, hnone⟩ | ⟨name', rest', rfl, hsome⟩ := nextName_eq_ok h
  · cases hnone
  · cases hsome
    cases first <;> rfl

/-! ## Lists -/

section
variable {r : Reader β}

theorem items_eq_ok {n : Nat} {first : Bool} {ts rest : List Token} {vs : List β}
    (h : items r (n + 1) first ts = .ok (vs, rest)) :
    ts = .closeList :: rest ∨ ∃ d v rest' vs', nextItem first ts = .ok (some d) ∧
      r d = .ok (v, rest') ∧ items r n false rest' = .ok (vs', rest) := by
  rw [items] at h
  obtain ⟨next, hnext, h⟩ := bind_eq_ok.1 h
  cases next with
  | none =>
    obtain ⟨rest', hclose, h⟩ := bind_eq_ok.1 h
    cases h
    exact .inl (closeList_eq_ok hclose)
  | some d =>
    obtain ⟨⟨v, rest'⟩, hr, h⟩ := bind_eq_ok.1 h
    obtain ⟨⟨vs', rest''⟩, hitems, h⟩ := bind_eq_ok.1 h
    cases h
    exact .inr ⟨d, v, rest', vs', hnext, hr, hitems⟩

theorem skip_items (hr : Exact r) {n : Nat} {first : Bool} {ts rest : List Token} {vs : List β}
    (h : items r n first ts = .ok (vs, rest)) :
    skipFrom [.list] (before first) ts = .ok rest := by
  induction n generalizing first ts vs with
  | zero => cases h
  | succ n ih =>
    obtain rfl | ⟨d, v, rest', vs', hnext, hread, hitems⟩ := items_eq_ok h
    · cases first <;> rfl
    · rw [skip_nextItem hnext, skipFrom_of_skipValue (List.cons_ne_nil _ _) (hr hread)]
      exact ih hitems

theorem Exact.list (hr : Exact r) : Exact (list r) := fun {ts v rest} h => by
  unfold Reader.list at h
  split at h
  · exact skip_items hr h
  · cases h

end

/-- One of the choices is a text, or a record of one text and `null`. -/
theorem exact_choice (choices : List (String × β)) : Exact (choice choices) :=
  fun {ts v rest} h => by
    unfold choice at h
    split at h
    · cases h
    · rename_i content ts
      obtain ⟨name, hname, h⟩ := bind_eq_ok.1 h
      obtain ⟨v', -, h⟩ := bind_eq_ok.1 h
      cases h
      rfl
    · cases h
    · rename_i ts
      obtain ⟨⟨name, rest₁⟩, hname, h⟩ := bind_eq_ok.1 h
      obtain ⟨v', -, h⟩ := bind_eq_ok.1 h
      obtain ⟨rest₂, hcolon, h⟩ := bind_eq_ok.1 h
      split at h
      · obtain ⟨rest₃, hclose, h⟩ := bind_eq_ok.1 h
        cases h
        rw [text_eq_ok hname, colon_eq_ok hcolon, closeRecord_eq_ok hclose]
        rfl
      · cases h
    · cases h

end Reader

end NestedLayout.Json
