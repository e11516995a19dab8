import NestedLayout.Json5.Reader
import NestedLayout.Proofs.Binary32.Numbers
import NestedLayout.Proofs.Document.Places

/-!
# Places in JSON5 trees

A place in a document is the subtree with the value.

* `namedFields_filled`, `orderedFields_filled`: the places that a record is filled from.
* JSON5 is a notation with places; a number that is none stands where its literal does.
-/

set_option autoImplicit false

namespace NestedLayout.Json5.Reader

variable {β σ : Type} {fields : List (Field Reader σ)} {acc v : σ}

theorem single_eq_some {d : Json5} {x : Float32} (h : single d = some x) :
    ∃ sign form y, d = .number sign form ∧ double? sign form = some y ∧
      x = Binary32.ofDouble y := by
  cases d with
  | number sign form =>
    obtain ⟨y, hy, rfl⟩ := Option.map_eq_some_iff.1 h
    exact ⟨sign, form, y, rfl, hy, rfl⟩
  | _ => cases h

/-- **What is read is no number** exactly where the literal for it stands. -/
theorem single_isNaN_iff {d : Json5} {x : Float32} (h : single d = some x) :
    x.isNaN = true ↔ ∃ sign, d = .number sign .nan := by
  obtain ⟨sign, form, y, rfl, hy, rfl⟩ := single_eq_some h
  constructor
  · intro hnan
    refine ⟨sign, congrArg _ (double?_isNaN hy ?_)⟩
    by_contra hno
    exact Bool.false_ne_true
      ((Binary32.isNaN_ofDouble (Bool.eq_false_of_not_eq_true hno)).symm.trans hnan)
  · rintro ⟨sign', hd⟩
    cases hd
    rw [double?] at hy
    split at hy
    · cases hy
    · cases hy
      decide

theorem optional_eq_some {r : Reader β} {d : Json5} {v : Option β} (h : optional r d = some v) :
    (d = .null ∧ v = none) ∨ d ≠ .null ∧ ∃ u, r d = some u ∧ v = some u := by
  unfold optional at h
  split at h
  · cases h
    exact .inl ⟨rfl, rfl⟩
  · rename_i hnull
    obtain ⟨u, hr, rfl⟩ := Option.map_eq_some_iff.1 h
    exact .inr ⟨hnull, u, hr, rfl⟩

/-- The reader finds the value at a place. -/
def Reads (r : Reader β) (d : Json5) (v : β) : Prop := r d = some v

/-- **One field of a record**: it is passed over or read. -/
theorem namedFields_cons_eq_some {name : Option String} {d : Json5}
    {given : List (Option String × Json5)} {seen : List Nat}
    (h : namedFields fields seen acc ((name, d) :: given) = some v) :
    ∃ name₀, name = some name₀ ∧
      ((Field.index? fields name₀ = none ∧ namedFields fields seen acc given = some v) ∨
        ∃ i f update, Field.index? fields name₀ = some i ∧ i ∉ seen ∧ fields[i]? = some f ∧
          f.read d = some update ∧
          namedFields fields (i :: seen) (update acc) given = some v) := by
  rw [namedFields] at h
  obtain ⟨name₀, rfl, hfield⟩ := Option.bind_eq_some_iff.1 h
  refine ⟨name₀, rfl, ?_⟩
  split at hfield
  · rename_i hindex
    split at hfield
    · exact .inl ⟨hindex, hfield⟩
    · cases hfield
  · rename_i i hindex
    split at hfield
    · cases hfield
    · rename_i hseen
      obtain ⟨f, hf, hfield⟩ := Option.bind_eq_some_iff.1 hfield
      obtain ⟨update, hread, hrest⟩ := Option.bind_eq_some_iff.1 hfield
      exact .inr ⟨i, f, update, hindex, fun hi => hseen (List.contains_iff_mem.2 hi), hf, hread,
        hrest⟩

/-- **A record with names** is filled from its members, none of them for a field that was seen. -/
theorem namedFields_filled {given : List (Option String × Json5)} {seen : List Nat}
    (h : namedFields fields seen acc given = some v) :
    FilledApart Reads fields seen (fun name q => (some name, q) ∈ given) acc v := by
  induction given generalizing seen acc with
  | nil =>
    rw [namedFields] at h
    split at h
    · cases h
      exact .nil fun name q => List.not_mem_nil
    · cases h
  | cons g given ih =>
    obtain ⟨name, d⟩ := g
    obtain ⟨name₀, rfl, hd⟩ := namedFields_cons_eq_some h
    have hmember (name : String) (q : Json5) : (some name, q) ∈ (some name₀, d) :: given ↔
        (name = name₀ ∧ q = d) ∨ (some name, q) ∈ given := by
      rw [List.mem_cons, Prod.mk.injEq, Option.some.injEq]
    obtain ⟨hindex, h⟩ | ⟨i, f, update, hindex, hseen, hfield, hread, h⟩ := hd
    · exact (ih h).pass hindex hmember
    · exact (ih h).read hindex hseen hfield hread hmember

/-- **A record as a list** is filled from the items that it has fields for. -/
theorem orderedFields_filled {items : List Json5} (h : orderedFields fields acc items = some v) :
    Filled Reads fields (fun i q => i < fields.length ∧ items[i]? = some q) acc v := by
  induction fields generalizing items acc with
  | nil =>
    cases h
    exact .nil fun i q hi => absurd hi.1 (Nat.not_lt_zero i)
  | cons f fields ih =>
    cases items with
    | nil =>
      rw [orderedFields] at h
      split at h
      · exact ((ih h).cons_behind f).congr fun i q => by cases i <;> simp [Filled.behind]
      · cases h
    | cons d items =>
      rw [orderedFields] at h
      obtain ⟨update, hread, h⟩ := Option.bind_eq_some_iff.1 h
      refine .cons (i := 0) rfl hread (fun q => id) (fun j q => ?_) ((ih h).cons_behind f)
      cases j <;> simp [Filled.behind, eq_comm]

/-- A record is read by the names of its fields or in their order. -/
theorem record_eq_some {start : σ} {d : Json5} (h : record start fields d = some v) :
    (∃ given, d = .record given ∧ namedFields fields [] start given = some v) ∨
      ∃ items, d = .list items ∧ orderedFields fields start items = some v := by
  unfold record at h
  split at h
  · exact .inl ⟨_, rfl, h⟩
  · exact .inr ⟨_, rfl, h⟩
  · cases h

instance : Places Reader where
  Place := Json5
  Reads := Reads
  IsNull d := d = .null
  Member d name q := ∃ given, d = .record given ∧ (some name, q) ∈ given
  Item d i q := ∃ items, d = .list items ∧ items[i]? = some q
  IsNaN d := ∃ sign, d = .number sign .nan
  Exact _ := True
  reads_map h := by
    obtain ⟨v, hr, rfl⟩ := Option.map_eq_some_iff.1 h
    exact ⟨v, hr, rfl⟩
  reads_optional h := optional_eq_some h
  reads_record _ h := by
    obtain ⟨given, rfl, h⟩ | ⟨items, rfl, h⟩ := record_eq_some h
    · exact (namedFields_filled h).filled.congr fun i q => by simp
    · exact (orderedFields_filled h).congr fun i q => by simp
  isNaN_single_iff h := single_isNaN_iff h
  exact_map _ h := h
  exact_optional h := h
  exact_list h := h
  exact_record _ _ := trivial
  exact_single := trivial
  exact_count := trivial
  exact_flag := trivial
  exact_text := trivial
  exact_choice _ := trivial

end NestedLayout.Json5.Reader
