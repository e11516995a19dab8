import Mathlib.Logic.Function.Basic
import NestedLayout.Document.Format

/-!
# Places in documents

What the readers of a notation do can be said in terms of the places in a document where values
stand: the members of a record under their names, and the items of a list in their order. `Places R`
says so for a notation, so that a theorem about a document type holds in every notation.

* `Filled`: how a record is built up, each field from at most one place.
* `Filled.keeps`: what every field keeps, together with the places of the fields so far.
* `FilledApart.pass`, `FilledApart.read`: what one member of a record does.
* `Places.reads_record`: a record is filled from the places that its names and positions lead to.
-/

set_option autoImplicit false

namespace NestedLayout

/-! ## Filling a record -/

section
variable {R : Type → Type} {σ Place : Type}

/-- **How a record is filled**, from what was built so far to what is built in the end: `leads i q`
says that the value for the field at position `i` stands at `q`. No field is filled twice. -/
inductive Filled (Reads : R (σ → σ) → Place → (σ → σ) → Prop) (fields : List (Field R σ)) :
    (Nat → Place → Prop) → σ → σ → Prop
  | nil {leads : Nat → Place → Prop} {acc : σ} (hnone : ∀ i q, ¬ leads i q) :
    Filled Reads fields leads acc acc
  | cons {leads leads' : Nat → Place → Prop} {i : Nat} {f : Field R σ} {d : Place}
    {update : σ → σ} {acc v : σ} (hfield : fields[i]? = some f) (hread : Reads f.read d update)
    (hnew : ∀ q, ¬ leads i q) (hleads : ∀ j q, leads' j q ↔ (j = i ∧ q = d) ∨ leads j q)
    (h : Filled Reads fields leads (update acc) v) : Filled Reads fields leads' acc v

namespace Filled

variable {Reads : R (σ → σ) → Place → (σ → σ) → Prop} {fields : List (Field R σ)}
  {leads : Nat → Place → Prop} {acc v : σ}

theorem congr {leads' : Nat → Place → Prop} (h : Filled Reads fields leads acc v)
    (hleads : ∀ i q, leads' i q ↔ leads i q) : Filled Reads fields leads' acc v := by
  obtain rfl : leads' = leads := funext₂ fun i q => propext (hleads i q)
  exact h

/-- What leads to the fields behind another one. -/
def behind (leads : Nat → Place → Prop) : Nat → Place → Prop
  | 0, _ => False
  | i + 1, q => leads i q

theorem cons_behind (f : Field R σ) (h : Filled Reads fields leads acc v) :
    Filled Reads (f :: fields) (behind leads) acc v := by
  induction h with
  | nil hnone =>
    refine .nil fun i q => ?_
    cases i with
    | zero => exact id
    | succ i => exact hnone i q
  | cons hfield hread hnew hleads _ ih =>
    refine .cons (i := _ + 1) hfield hread hnew (fun j q => ?_) ih
    cases j with
    | zero => exact ⟨False.elim, fun h => h.elim (fun h => nomatch h.1) id⟩
    | succ j => simp only [behind, hleads, Nat.add_right_cancel_iff]

/-- **What every field keeps**: a property of what was built so far and of the places of the fields
that were filled. -/
theorem keeps {P : (Nat → Place → Prop) → σ → Prop} (h : Filled Reads fields leads acc v)
    (hstep : ∀ {given : Nat → Place → Prop} {i : Nat} {f : Field R σ} {q : Place} {update : σ → σ}
      {acc : σ}, fields[i]? = some f → (∀ q', ¬ given i q') → Reads f.read q update →
      P given acc → P (Function.update given i (· = q)) (update acc))
    (hacc : P (fun _ _ => False) acc) : P leads v := by
  suffices hmore : ∀ given, (∀ i q q', given i q → ¬ leads i q') → P given acc →
      P (fun i q => given i q ∨ leads i q) v by
    simpa only [false_or] using hmore _ (fun _ _ _ => False.elim) hacc
  clear hacc
  induction h with
  | nil hnone =>
    intro given _ hacc
    simpa only [hnone, or_false] using hacc
  | @cons leads leads' i f d update acc v hfield hread hnew hleads _ ih =>
    intro given hdisjoint hacc
    have hempty (q : Place) : ¬ given i q := fun hq =>
      hdisjoint i q d hq ((hleads i d).2 (.inl ⟨rfl, rfl⟩))
    have hupdate (j : Nat) (q : Place) :
        Function.update given i (· = d) j q ↔ (j = i ∧ q = d) ∨ given j q := by
      by_cases hj : j = i
      · subst hj
        simp [hempty q]
      · simp [hj]
    have hlater := ih (Function.update given i (· = d)) (fun j q q' hq hlead => ?_)
      (hstep hfield hempty hread hacc)
    · simpa only [hupdate, hleads, or_assoc, or_left_comm] using hlater
    · obtain ⟨rfl, -⟩ | hq := (hupdate j q).1 hq
      · exact hnew q' hlead
      · exact hdisjoint j q q' hq ((hleads j q').2 (.inr hlead))

end Filled

/-! ## Members of a record -/

namespace Field

variable {fields : List (Field R σ)} {member member' : String → Place → Prop} {name₀ : String}
  {d : Place}

/-- Without aliases, a name means the field that has it. -/
theorem index?_eq_idxOf? (h : ∀ f ∈ fields, f.aliases = []) (name : String) :
    index? fields name = (fields.map Field.name).idxOf? name := by
  induction fields with
  | nil => rfl
  | cons f fields ih =>
    obtain ⟨hf, hfields⟩ := List.forall_mem_cons.1 h
    have ih := ih hfields
    unfold index? at ih ⊢
    rw [List.findIdx?_cons, List.map_cons, List.idxOf?_cons, ih]
    simp [answersTo, hf]

/-- What leads to the fields by their names. -/
def leads (fields : List (Field R σ)) (member : String → Place → Prop) (i : Nat) (q : Place) :
    Prop :=
  ∃ name, index? fields name = some i ∧ member name q

@[simp] theorem not_leads (i : Nat) (q : Place) : ¬ leads fields (fun _ _ => False) i q :=
  fun ⟨_, _, hm⟩ => hm

/-- A member whose name means no field leads nowhere. -/
theorem leads_of_index?_eq_none (hindex : index? fields name₀ = none)
    (hmember : ∀ name q, member' name q ↔ (name = name₀ ∧ q = d) ∨ member name q) (i : Nat)
    (q : Place) : leads fields member' i q ↔ leads fields member i q :=
  exists_congr fun name => and_congr_right fun hi => by
    rw [hmember, or_iff_right]
    rintro ⟨rfl, -⟩
    cases hindex.symm.trans hi

/-- A member leads to the field that its name means. -/
theorem leads_of_index?_eq_some {i : Nat} (hindex : index? fields name₀ = some i)
    (hmember : ∀ name q, member' name q ↔ (name = name₀ ∧ q = d) ∨ member name q) (j : Nat)
    (q : Place) : leads fields member' j q ↔ (j = i ∧ q = d) ∨ leads fields member j q := by
  constructor
  · rintro ⟨name, hj, hm⟩
    obtain ⟨rfl, rfl⟩ | hm := (hmember name q).1 hm
    · exact .inl ⟨Option.some.inj (hj.symm.trans hindex), rfl⟩
    · exact .inr ⟨name, hj, hm⟩
  · rintro (⟨rfl, rfl⟩ | ⟨name, hj, hm⟩)
    · exact ⟨name₀, hindex, (hmember name₀ q).2 (.inl ⟨rfl, rfl⟩)⟩
    · exact ⟨name, hj, (hmember name q).2 (.inr hm)⟩

end Field

/-- A record is filled from its members, but for the fields that were seen. -/
structure FilledApart (Reads : R (σ → σ) → Place → (σ → σ) → Prop) (fields : List (Field R σ))
    (seen : List Nat) (member : String → Place → Prop) (acc v : σ) : Prop where
  filled : Filled Reads fields (Field.leads fields member) acc v
  apart : ∀ i ∈ seen, ∀ q, ¬ Field.leads fields member i q

namespace FilledApart

variable {Reads : R (σ → σ) → Place → (σ → σ) → Prop} {fields : List (Field R σ)}
  {seen : List Nat} {member member' : String → Place → Prop} {acc v : σ} {name₀ : String}
  {d : Place}

theorem nil (hnone : ∀ name q, ¬ member name q) : FilledApart Reads fields seen member v v where
  filled := .nil fun _ _ ⟨name, _, hm⟩ => hnone name _ hm
  apart := fun _ _ _ ⟨name, _, hm⟩ => hnone name _ hm

/-- **A member that no field knows** is passed over. -/
theorem pass (h : FilledApart Reads fields seen member acc v)
    (hindex : Field.index? fields name₀ = none)
    (hmember : ∀ name q, member' name q ↔ (name = name₀ ∧ q = d) ∨ member name q) :
    FilledApart Reads fields seen member' acc v where
  filled := h.filled.congr (Field.leads_of_index?_eq_none hindex hmember)
  apart := fun i hi q hq =>
    h.apart i hi q ((Field.leads_of_index?_eq_none hindex hmember i q).1 hq)

/-- **A member that a field knows** is read, if the field was not seen before. -/
theorem read {i : Nat} {f : Field R σ} {update : σ → σ}
    (h : FilledApart Reads fields (i :: seen) member (update acc) v)
    (hindex : Field.index? fields name₀ = some i) (hseen : i ∉ seen) (hfield : fields[i]? = some f)
    (hread : Reads f.read d update)
    (hmember : ∀ name q, member' name q ↔ (name = name₀ ∧ q = d) ∨ member name q) :
    FilledApart Reads fields seen member' acc v where
  filled := .cons hfield hread (h.apart i List.mem_cons_self)
    (Field.leads_of_index?_eq_some hindex hmember) h.filled
  apart := fun j hj q hq => by
    obtain ⟨rfl, -⟩ | hq := (Field.leads_of_index?_eq_some hindex hmember j q).1 hq
    · exact hseen hj
    · exact h.apart j (List.mem_cons_of_mem _ hj) q hq

end FilledApart

end

/-! ## Notations with places -/

/-- Where values stand in the documents of a notation. -/
class Places (R : Type → Type) [Format R] where
  Place : Type
  /-- The reader finds the value at a place. -/
  Reads {β : Type} : R β → Place → β → Prop
  /-- There is a `null` at the place. -/
  IsNull : Place → Prop
  /-- The value under a name in a record. -/
  Member : Place → String → Place → Prop
  /-- The value at a position of a list. -/
  Item : Place → Nat → Place → Prop
  /-- The literal for the value that is no number stands at the place. -/
  IsNaN : Place → Prop
  /-- The reader keeps to the value at the place. -/
  Exact {β : Type} : R β → Prop
  reads_map {β γ : Type} {f : β → γ} {r : R β} {p : Place} {u : γ} :
    Reads (Format.map f r) p u → ∃ v, Reads r p v ∧ u = f v
  reads_optional {β : Type} {r : R β} {p : Place} {v : Option β} :
    Reads (Format.optional r) p v →
      (IsNull p ∧ v = none) ∨ ¬ IsNull p ∧ ∃ u, Reads r p u ∧ v = some u
  reads_record {σ : Type} {fields : List (Field R σ)} {start v : σ} {p : Place} :
    (∀ f ∈ fields, Exact f.read) → Reads (Format.record start fields) p v →
      Filled Reads fields (fun i q => Field.leads fields (Member p) i q ∨
        i < fields.length ∧ Item p i q) start v
  isNaN_single_iff {p : Place} {x : Float32} :
    Reads Format.single p x → (x.isNaN = true ↔ IsNaN p)
  exact_map {β γ : Type} {r : R β} (f : β → γ) : Exact r → Exact (Format.map f r)
  exact_optional {β : Type} {r : R β} : Exact r → Exact (Format.optional r)
  exact_list {β : Type} {r : R β} : Exact r → Exact (Format.list r)
  exact_record {σ : Type} {fields : List (Field R σ)} (start : σ) :
    (∀ f ∈ fields, Exact f.read) → Exact (Format.record start fields)
  exact_single : Exact Format.single
  exact_count : Exact Format.count
  exact_flag : Exact Format.flag
  exact_text : Exact Format.text
  exact_choice {β : Type} (choices : List (String × β)) : Exact (Format.choice choices)

end NestedLayout
