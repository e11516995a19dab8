import NestedLayout.Proofs.Binary32.Numbers
import NestedLayout.Proofs.Document.Places
import NestedLayout.Proofs.Json.Passing

/-!
# Places in JSON texts

A place in a text is what is left of its tokens where a value starts. It is found by passing over
the values in front of it, and it is the place where the value is read, since every reader takes
exactly the value that would be passed over.

* `namedFields_filled`, `orderedFields_filled`: the places that a record is filled from.
* `Exact.record`: a record takes exactly its value when its fields do.
* JSON is a notation with places; no place holds a number that is none.
-/

set_option autoImplicit false

namespace NestedLayout.Json.Reader

variable {β σ : Type}

/-! ## Members and items -/

/-- Where the value under a name starts in a record, whose bracket has been read. -/
inductive Member : Bool → List Token → String → List Token → Prop
  | here {first : Bool} {ts d : List Token} {name : String}
    (hname : nextName first ts = .ok (some (name, .colon :: d))) : Member first ts name d
  | later {first : Bool} {ts d d' rest : List Token} {name name' : String}
    (hname : nextName first ts = .ok (some (name, .colon :: d))) (hskip : skipValue d = .ok rest)
    (hlater : Member false rest name' d') : Member first ts name' d'

/-- Where an item starts in a list, whose bracket has been read. -/
inductive Item : Bool → List Token → Nat → List Token → Prop
  | here {first : Bool} {ts d : List Token} (hitem : nextItem first ts = .ok (some d)) :
    Item first ts 0 d
  | later {first : Bool} {ts d d' rest : List Token} {i : Nat}
    (hitem : nextItem first ts = .ok (some d)) (hskip : skipValue d = .ok rest)
    (hlater : Item false rest i d') : Item first ts (i + 1) d'

section
variable {fields : List (Field Reader σ)} {first : Bool} {ts rest : List Token} {v : σ}

/-- **One field of a record**: the record ends, or a field comes that is passed over or read. -/
theorem namedFields_eq_ok {n : Nat} {seen : List Nat} {acc : σ}
    (h : namedFields fields (n + 1) first seen acc ts = .ok (v, rest)) :
    (ts = .closeRecord :: rest ∧ v = acc) ∨
      ∃ name d rest', nextName first ts = .ok (some (name, .colon :: d)) ∧
        ((Field.index? fields name = none ∧ skipValue d = .ok rest' ∧
            namedFields fields n false seen acc rest' = .ok (v, rest)) ∨
          ∃ i f update, Field.index? fields name = some i ∧ i ∉ seen ∧ fields[i]? = some f ∧
            f.read d = .ok (update, rest') ∧
            namedFields fields n false (i :: seen) (update acc) rest' = .ok (v, rest)) := by
  rw [namedFields] at h
  obtain ⟨next, hnext, h⟩ := bind_eq_ok.1 h
  cases next with
  | none =>
    dsimp only at h
    split at h
    · obtain ⟨rest', hclose, h⟩ := bind_eq_ok.1 h
      cases h
      exact .inl ⟨closeRecord_eq_ok hclose, rfl⟩
    · cases h
  | some next =>
    obtain ⟨name, rest₁⟩ := next
    dsimp only at h
    split at h
    · rename_i hindex
      obtain ⟨d, hcolon, h⟩ := bind_eq_ok.1 h
      obtain ⟨rest', hskip, h⟩ := bind_eq_ok.1 h
      rw [colon_eq_ok hcolon] at hnext
      exact .inr ⟨name, d, rest', hnext, .inl ⟨hindex, hskip, h⟩⟩
    · rename_i i hindex
      split at h
      · cases h
      · rename_i hseen
        obtain ⟨d, hcolon, h⟩ := bind_eq_ok.1 h
        rw [colon_eq_ok hcolon] at hnext
        split at h
        · cases h
        · rename_i f hfield
          obtain ⟨⟨update, rest'⟩, hread, h⟩ := bind_eq_ok.1 h
          have hseen : i ∉ seen := fun hi => hseen (List.contains_iff_mem.2 hi)
          exact .inr ⟨name, d, rest', hnext,
            .inr ⟨i, f, update, hindex, hseen, hfield, hread, h⟩⟩

theorem skip_namedFields (hfields : ∀ f ∈ fields, Exact f.read) {n : Nat} {seen : List Nat}
    {acc : σ} (h : namedFields fields n first seen acc ts = .ok (v, rest)) :
    skipFrom [.record] (before first) ts = .ok rest := by
  induction n generalizing first ts seen acc with
  | zero => cases h
  | succ n ih =>
    obtain ⟨rfl, -⟩ | ⟨name, d, rest', hnext, hd⟩ := namedFields_eq_ok h
    · cases first <;> rfl
    · rw [skip_nextName hnext]
      show skipFrom [.record] .value d = .ok rest
      obtain ⟨-, hskip, h⟩ | ⟨i, f, update, -, -, hfield, hread, h⟩ := hd
      · rw [skipFrom_of_skipValue (List.cons_ne_nil _ _) hskip]
        exact ih h
      · rw [skipFrom_of_skipValue (List.cons_ne_nil _ _)
          (hfields f (List.mem_of_getElem? hfield) hread)]
        exact ih h

theorem not_member_closeRecord {name : String} {q : List Token} :
    ¬ Member first (.closeRecord :: ts) name q := fun h => by
  cases h with
  | here hname | later hname => cases hname

theorem member_iff {name₀ : String} {d : List Token}
    (hnext : nextName first ts = .ok (some (name₀, .colon :: d))) (hskip : skipValue d = .ok rest)
    (name : String) (q : List Token) :
    Member first ts name q ↔ (name = name₀ ∧ q = d) ∨ Member false rest name q := by
  constructor
  · intro h
    cases h with
    | here hname =>
      cases hname.symm.trans hnext
      exact .inl ⟨rfl, rfl⟩
    | later hname hskip' hlater =>
      cases hname.symm.trans hnext
      cases hskip'.symm.trans hskip
      exact .inr hlater
  · rintro (⟨rfl, rfl⟩ | hlater)
    · exact .here hnext
    · exact .later hnext hskip hlater

/-- The reader finds the value at a place, where a text goes on. -/
def Reads (r : Reader β) (ts : List Token) (v : β) : Prop := ∃ rest, r ts = .ok (v, rest)

/-- **A record with names** is filled from its members, none of them for a field that was seen. -/
theorem namedFields_filled (hfields : ∀ f ∈ fields, Exact f.read) {n : Nat} {seen : List Nat}
    {acc : σ} (h : namedFields fields n first seen acc ts = .ok (v, rest)) :
    FilledApart Reads fields seen (Member first ts) acc v := by
  induction n generalizing first ts seen acc with
  | zero => cases h
  | succ n ih =>
    obtain ⟨rfl, rfl⟩ | ⟨name₀, d, rest', hnext, hd⟩ := namedFields_eq_ok h
    · exact .nil fun name q => not_member_closeRecord
    · obtain ⟨hindex, hskip, h⟩ | ⟨i, f, update, hindex, hseen, hfield, hread, h⟩ := hd
      · exact (ih h).pass hindex (member_iff hnext hskip)
      · have hskip := hfields f (List.mem_of_getElem? hfield) hread
        exact (ih h).read hindex hseen hfield ⟨rest', hread⟩ (member_iff hnext hskip)

/-- A list that has ended adds nothing. -/
theorem orderedFields_closed {acc : σ}
    (h : orderedFields fields first acc (.closeList :: ts) = .ok (v, rest)) :
    v = acc ∧ ts = rest := by
  induction fields generalizing acc with
  | nil => cases h; exact ⟨rfl, rfl⟩
  | cons f fields ih =>
    rw [orderedFields] at h
    obtain ⟨next, hnext, h⟩ := bind_eq_ok.1 h
    cases hnext
    dsimp only at h
    split at h
    · exact ih h
    · cases h

/-- **One value of a list of fields**: the list ends, or the next field is read. -/
theorem orderedFields_eq_ok {f : Field Reader σ} {acc : σ}
    (h : orderedFields (f :: fields) first acc ts = .ok (v, rest)) :
    (ts = .closeList :: rest ∧ v = acc) ∨
      ∃ d update rest', nextItem first ts = .ok (some d) ∧ f.read d = .ok (update, rest') ∧
        orderedFields fields false (update acc) rest' = .ok (v, rest) := by
  have hwhole := h
  rw [orderedFields] at h
  obtain ⟨next, hnext, h⟩ := bind_eq_ok.1 h
  cases next with
  | none =>
    obtain ⟨rest', rfl⟩ := nextItem_eq_none hnext
    obtain ⟨rfl, rfl⟩ := orderedFields_closed hwhole
    exact .inl ⟨rfl, rfl⟩
  | some d =>
    obtain ⟨⟨update, rest'⟩, hread, h⟩ := bind_eq_ok.1 h
    exact .inr ⟨d, update, rest', hnext, hread, h⟩

theorem skip_orderedFields (hfields : ∀ f ∈ fields, Exact f.read) {acc : σ}
    (h : orderedFields fields first acc ts = .ok (v, rest)) :
    skipFrom [.list] (before first) ts = .ok rest := by
  induction fields generalizing first ts acc with
  | nil =>
    rw [orderedFields] at h
    obtain ⟨rest', hclose, h⟩ := bind_eq_ok.1 h
    cases h
    rw [closeList_eq_ok hclose]
    cases first <;> rfl
  | cons f fields ih =>
    obtain ⟨hf, hfields⟩ := List.forall_mem_cons.1 hfields
    obtain ⟨rfl, -⟩ | ⟨d, update, rest', hnext, hread, h⟩ := orderedFields_eq_ok h
    · cases first <;> rfl
    · rw [skip_nextItem hnext, skipFrom_of_skipValue (List.cons_ne_nil _ _) (hf hread)]
      exact ih hfields h

theorem not_item_closeList {i : Nat} {q : List Token} : ¬ Item first (.closeList :: ts) i q :=
  fun h => by
    cases h with
    | here hitem | later hitem => cases hitem

theorem item_iff {d q : List Token} (hnext : nextItem first ts = .ok (some d))
    (hskip : skipValue d = .ok rest) (i : Nat) :
    Item first ts i q ↔ (i = 0 ∧ q = d) ∨ Filled.behind (Item false rest) i q := by
  constructor
  · intro h
    cases h with
    | here hitem =>
      cases hitem.symm.trans hnext
      exact .inl ⟨rfl, rfl⟩
    | later hitem hskip' hlater =>
      cases hitem.symm.trans hnext
      cases hskip'.symm.trans hskip
      exact .inr hlater
  · rintro (⟨rfl, rfl⟩ | hlater)
    · exact .here hnext
    · cases i with
      | zero => exact hlater.elim
      | succ i => exact .later hnext hskip hlater

/-- **A record as a list** is filled from its items. -/
theorem orderedFields_filled (hfields : ∀ f ∈ fields, Exact f.read) {acc : σ}
    (h : orderedFields fields first acc ts = .ok (v, rest)) :
    Filled Reads fields (fun i q => i < fields.length ∧ Item first ts i q) acc v := by
  induction fields generalizing first ts acc with
  | nil =>
    rw [orderedFields] at h
    obtain ⟨rest', -, h⟩ := bind_eq_ok.1 h
    cases h
    exact .nil fun i q hi => absurd hi.1 (Nat.not_lt_zero i)
  | cons f fields ih =>
    obtain ⟨hf, hfields⟩ := List.forall_mem_cons.1 hfields
    obtain ⟨rfl, rfl⟩ | ⟨d, update, rest', hnext, hread, h⟩ := orderedFields_eq_ok h
    · exact .nil fun i q hi => not_item_closeList hi.2
    · refine .cons (i := 0) rfl ⟨rest', hread⟩ (fun q => id) (fun j q => ?_)
        ((ih hfields h).cons_behind f)
      rw [item_iff hnext (hf hread)]
      cases j <;> simp [Filled.behind]

/-- A record is read by the names of its fields or in their order. -/
theorem record_eq_ok {start : σ} (h : record start fields ts = .ok (v, rest)) :
    (∃ ts' n, ts = .openRecord :: ts' ∧
      namedFields fields n true [] start ts' = .ok (v, rest)) ∨
      ∃ ts', ts = .openList :: ts' ∧ orderedFields fields true start ts' = .ok (v, rest) := by
  unfold record at h
  split at h
  · exact .inl ⟨_, _, rfl, h⟩
  · exact .inr ⟨_, rfl, h⟩
  · cases h

theorem Exact.record (hfields : ∀ f ∈ fields, Exact f.read) (start : σ) :
    Exact (record start fields) := fun h => by
  obtain ⟨ts', n, rfl, h⟩ | ⟨ts', rfl, h⟩ := record_eq_ok h
  · exact skip_namedFields hfields h
  · exact skip_orderedFields hfields h

end

instance : Places Reader where
  Place := List Token
  Reads := Reads
  IsNull ts := ∃ rest, ts = .null :: rest
  Member ts name q := ∃ ts', ts = .openRecord :: ts' ∧ Member true ts' name q
  Item ts i q := ∃ ts', ts = .openList :: ts' ∧ Item true ts' i q
  IsNaN _ := False
  Exact := Exact
  reads_map := fun ⟨rest, h⟩ => by
    obtain ⟨v, hr, rfl⟩ := map_eq_ok h
    exact ⟨v, ⟨rest, hr⟩, rfl⟩
  reads_optional := fun ⟨rest, h⟩ => by
    obtain ⟨rfl, rfl⟩ | ⟨⟨u, hr, rfl⟩, hnull⟩ := optional_eq_ok h
    · exact .inl ⟨⟨rest, rfl⟩, rfl⟩
    · exact .inr ⟨fun ⟨rest', h'⟩ => hnull rest' h', u, ⟨rest, hr⟩, rfl⟩
  reads_record := fun hfields ⟨rest, h⟩ => by
    obtain ⟨ts, n, rfl, h⟩ | ⟨ts, rfl, h⟩ := record_eq_ok h
    · exact (namedFields_filled hfields h).filled.congr fun i q => by simp
    · exact (orderedFields_filled hfields h).congr fun i q => by simp
  isNaN_single_iff := fun ⟨rest, h⟩ => by
    obtain ⟨n, -, hn⟩ := single_eq_ok h
    rw [NumberText.toSingle?_isNaN hn, iff_false]
    exact Bool.false_ne_true
  exact_map f h := h.map f
  exact_optional h := h.optional
  exact_list h := h.list
  exact_record start h := Exact.record h start
  exact_single := exact_single
  exact_count := exact_count
  exact_flag := exact_flag
  exact_text := exact_text
  exact_choice := exact_choice

end NestedLayout.Json.Reader
