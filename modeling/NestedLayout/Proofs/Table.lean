import NestedLayout.Proofs.Fold
import NestedLayout.Table
import Mathlib.Data.List.Nodup
import Mathlib.Data.List.Sort

/-!
# Look-ups and entries of tables

Since the entries of a table stand in strictly increasing key order, a table holds an entry exactly
when it answers a look-up with it (`Table.mem_entries_iff`), no key occurs twice
(`Table.nodup_keys`), and tables with the same answers are the same (`Table.ext_get?`). The look-ups
after a change are restated with equality of keys in place of `compare`, the form in which the
layout proofs rewrite.
-/

set_option autoImplicit false

namespace NestedLayout.Table

variable {κ β : Type} [Ord κ]

theorem compare_eq_iff [Std.LawfulEqOrd κ] {k j : κ} : compare k j = .eq ↔ k = j :=
  ⟨Std.LawfulEqCmp.eq_of_compare, fun h => h ▸ Std.ReflCmp.compare_self⟩

theorem key_ne_of_lt [Std.LawfulEqOrd κ] {k j : κ} (h : compare k j = .lt) : k ≠ j := by
  intro he
  rw [compare_eq_iff.2 he] at h
  cases h

/-! ## Entries -/

theorem contains_iff {t : Table κ β} {k : κ} : t.contains k = true ↔ ∃ v, t.get? k = some v :=
  Option.isSome_iff_exists

theorem contains_of_get? {t : Table κ β} {k : κ} {v : β} (h : t.get? k = some v) :
    t.contains k = true := contains_iff.2 ⟨v, h⟩

theorem get?_eq_none_iff {t : Table κ β} {k : κ} : t.get? k = none ↔ t.contains k = false := by
  simp [contains]

theorem keys_map {γ : Type} (t : Table κ β) (f : κ → β → γ) : (t.map f).keys = t.keys := by
  simp [keys, map, Function.comp_def]

theorem length_keys (t : Table κ β) : t.keys.length = t.size := List.length_map _

theorem nodup_keys [Std.LawfulEqOrd κ] (t : Table κ β) : t.keys.Nodup :=
  List.pairwise_map.2 (t.sorted.imp key_ne_of_lt)

section
variable [Std.LawfulEqOrd κ] [DecidableEq κ]

theorem find_cons (k : κ) (e : κ × β) (l : List (κ × β)) :
    find k (e :: l) = if k = e.1 then some e.2 else find k l := by
  obtain ⟨k', v⟩ := e
  by_cases h : k = k'
  · simp only [find, compare_eq_iff.2 h, if_pos h]
  · rw [if_neg h, find]
    split
    · rename_i hc
      exact absurd (compare_eq_iff.1 hc) h
    · rfl

theorem find_eq_some_iff {k : κ} {v : β} {l : List (κ × β)}
    (hs : l.Pairwise fun a b => compare a.1 b.1 = .lt) : find k l = some v ↔ (k, v) ∈ l := by
  induction l with
  | nil => simp [find]
  | cons e l ih =>
    obtain ⟨k', v'⟩ := e
    obtain ⟨hlt, hs⟩ := List.pairwise_cons.1 hs
    rw [List.mem_cons, find_cons]
    by_cases hk : k = k'
    · subst hk
      have hn : (k, v) ∉ l := fun hm => key_ne_of_lt (hlt _ hm) rfl
      simp [hn, eq_comm]
    · simp [ih hs, hk]

/-- **A table holds what it answers.** -/
theorem mem_entries_iff {t : Table κ β} {k : κ} {v : β} :
    (k, v) ∈ t.entries ↔ t.get? k = some v :=
  (find_eq_some_iff t.sorted).symm

theorem mem_keys_iff {t : Table κ β} {k : κ} : k ∈ t.keys ↔ t.contains k = true := by
  simp [keys, contains_iff, mem_entries_iff]

end

section
variable [Std.TransOrd κ] [Std.LawfulEqOrd κ]

-- the order of entries is strict, so a list of entries has one order only
instance {β : Type} : Std.Irrefl fun a b : κ × β => compare a.1 b.1 = .lt :=
  ⟨fun _ h => key_ne_of_lt h rfl⟩

instance {β : Type} : Std.Antisymm fun a b : κ × β => compare a.1 b.1 = .lt :=
  ⟨fun _ _ h h' => absurd (Std.TransCmp.lt_trans h h') fun h => key_ne_of_lt h rfl⟩

/-- **A table is what it answers.** -/
theorem ext_get? [DecidableEq κ] {s t : Table κ β} (h : ∀ k, s.get? k = t.get? k) : s = t := by
  have he : s.entries = t.entries := s.sorted.eq_of_mem_iff t.sorted fun e => by
    rw [mem_entries_iff, mem_entries_iff, h]
  cases s
  cases t
  cases he
  rfl

/-- Tables that answer for the same keys list the same keys. -/
theorem keys_eq_of_contains [DecidableEq κ] {γ : Type} {s : Table κ β} {t : Table κ γ}
    (h : ∀ k, s.contains k = t.contains k) : s.keys = t.keys := by
  have hk : (s.map fun _ _ => ()) = t.map fun _ _ => () := ext_get? fun k => by
    have hc := h k
    rw [get?_map, get?_map]
    simp only [contains] at hc
    cases hs : s.get? k <;> cases ht : t.get? k <;> simp_all
  rw [← keys_map s fun _ _ => (), hk, keys_map]

end

theorem mem_values_iff [Std.LawfulEqOrd κ] [DecidableEq κ] {t : Table κ β} {v : β} :
    v ∈ t.values ↔ ∃ k, t.get? k = some v := by
  simp [values, mem_entries_iff]

theorem map_map {γ δ : Type} (t : Table κ β) (f : κ → β → γ) (g : κ → γ → δ) :
    (t.map f).map g = t.map fun k v => g k (f k v) := by
  simp [map, Function.comp_def]

theorem contains_map [Std.LawfulEqOrd κ] {γ : Type} (t : Table κ β) (f : κ → β → γ) (k : κ) :
    (t.map f).contains k = t.contains k := by
  rw [contains, contains, get?_map, Option.isSome_map]

/-! ## Changes -/

section
variable [Std.TransOrd κ] [Std.LawfulEqOrd κ]

/-- The look-up after an insertion, by equality of keys. -/
theorem get?_insert_eq [DecidableEq κ] (t : Table κ β) (k j : κ) (v : β) :
    (t.insert k v).get? j = if j = k then some v else t.get? j := by
  rw [get?_insert]
  simp only [compare_eq_iff]

@[simp] theorem get?_insert_self (t : Table κ β) (k : κ) (v : β) :
    (t.insert k v).get? k = some v := by
  rw [get?_insert, if_pos (compare_eq_iff.2 rfl)]

theorem get?_insert_ne (t : Table κ β) {k j : κ} (v : β) (h : j ≠ k) :
    (t.insert k v).get? j = t.get? j := by
  rw [get?_insert, if_neg (mt compare_eq_iff.1 h)]

theorem contains_insert_iff [DecidableEq κ] {t : Table κ β} {k j : κ} {v : β} :
    (t.insert k v).contains j = true ↔ j = k ∨ t.contains j = true := by
  rw [contains, contains, get?_insert_eq]
  split <;> simp_all

/-- A new value for a key that the table has makes no new key. -/
theorem contains_insert_of_contains [DecidableEq κ] {t : Table κ β} {k : κ} (v : β)
    (h : t.contains k = true) (j : κ) : (t.insert k v).contains j = t.contains j := by
  rw [Bool.eq_iff_iff, contains_insert_iff, or_iff_right_iff_imp]
  rintro rfl
  exact h

omit [Std.TransOrd κ] [Std.LawfulEqOrd κ] in
/-- **A fold whose steps only add keys** adds the keys of all its steps. -/
theorem contains_foldl_iff {γ : Type} {f : Table κ β → γ → Table κ β} {P : γ → κ → Prop}
    {l : List γ} (hf : ∀ x ∈ l, ∀ t k, (f t x).contains k = true ↔ t.contains k = true ∨ P x k)
    {t : Table κ β} {k : κ} :
    (l.foldl f t).contains k = true ↔ t.contains k = true ∨ ∃ x ∈ l, P x k := by
  induction l generalizing t with
  | nil => simp
  | cons x l ih =>
    obtain ⟨hx, hl⟩ := List.forall_mem_cons.1 hf
    rw [List.foldl_cons, ih hl, hx]
    simp only [List.mem_cons, exists_eq_or_imp, or_assoc]

theorem contains_ofList_iff [DecidableEq κ] {l : List (κ × β)} {k : κ} :
    (ofList l).contains k = true ↔ k ∈ l.map (·.1) := by
  have hstep : ∀ e ∈ l, ∀ (t : Table κ β) (j : κ),
      (t.insert e.1 e.2).contains j = true ↔ t.contains j = true ∨ j = e.1 := fun e _ t j => by
    rw [contains_insert_iff, or_comm]
  rw [ofList, contains_foldl_iff hstep]
  simp [contains, eq_comm]

/-- Insertions leave the look-up of a key alone that is not among theirs. -/
theorem get?_insertAll_of_not_mem [DecidableEq κ] {l : List (κ × β)} {k : κ}
    (h : k ∉ l.map (·.1)) (t : Table κ β) :
    (l.foldl (fun t e => t.insert e.1 e.2) t).get? k = t.get? k := by
  induction l generalizing t with
  | nil => rfl
  | cons e l ih =>
    rw [List.map_cons, List.mem_cons, not_or] at h
    rw [List.foldl_cons, ih h.2, get?_insert_ne _ _ h.1]

/-- Insertions with different keys can all be looked up. -/
theorem get?_insertAll_of_mem [DecidableEq κ] {l : List (κ × β)} {k : κ} {v : β}
    (hn : (l.map (·.1)).Nodup) (h : (k, v) ∈ l) (t : Table κ β) :
    (l.foldl (fun t e => t.insert e.1 e.2) t).get? k = some v := by
  induction l generalizing t with
  | nil => cases h
  | cons e l ih =>
    rw [List.map_cons, List.nodup_cons] at hn
    rw [List.foldl_cons]
    rcases List.mem_cons.1 h with rfl | h
    · rw [get?_insertAll_of_not_mem hn.1, get?_insert_self]
    · exact ih hn.2 h _

/-- A list with different keys is looked up in its table. -/
theorem get?_ofList_of_mem [DecidableEq κ] {l : List (κ × β)} {k : κ} {v : β}
    (hn : (l.map (·.1)).Nodup) (h : (k, v) ∈ l) : (ofList l).get? k = some v :=
  get?_insertAll_of_mem hn h empty

/-- A list with different keys has as many entries as its table. -/
theorem size_ofList [DecidableEq κ] {l : List (κ × β)} (hn : (l.map (·.1)).Nodup) :
    (ofList l).size = l.length := by
  have hperm : (ofList l).keys.Perm (l.map (·.1)) :=
    (List.perm_ext_iff_of_nodup (nodup_keys _) hn).2 fun k => by
      rw [mem_keys_iff, contains_ofList_iff]
  rw [← length_keys, hperm.length_eq, List.length_map]

/-- Insertions of all entries of a table put it over another one. -/
theorem get?_insertAll_entries [DecidableEq κ] (s t : Table κ β) (k : κ) :
    (s.entries.foldl (fun t e => t.insert e.1 e.2) t).get? k = (s.get? k).or (t.get? k) := by
  cases hk : s.get? k with
  | none =>
    refine get?_insertAll_of_not_mem (fun hm => ?_) t
    obtain ⟨⟨_, v⟩, he, rfl⟩ := List.mem_map.1 hm
    rw [mem_entries_iff.1 he] at hk
    cases hk
  | some v => exact get?_insertAll_of_mem s.nodup_keys (mem_entries_iff.2 hk) t

/-- A table is the table of its entries. -/
theorem ofList_entries [DecidableEq κ] (t : Table κ β) : ofList t.entries = t :=
  ext_get? fun k => by rw [ofList, get?_insertAll_entries, get?_empty, Option.or_none]

/-- **A table of a list** answers with entries of the list only. -/
theorem mem_of_get?_ofList [DecidableEq κ] {l : List (κ × β)} {k : κ} {v : β}
    (h : (ofList l).get? k = some v) : (k, v) ∈ l := by
  refine Fold.keeps (f := fun (t : Table κ β) (e : κ × β) => t.insert e.1 e.2) (b := empty)
    (fun done t => t.get? k = some v → (k, v) ∈ done) (fun h => ?_)
    (fun done e rest t _ hd h => ?_) h
  · cases (get?_empty k).symm.trans h
  · rw [get?_insert_eq] at h
    split at h
    · rename_i hk
      cases h
      rw [hk]
      exact List.mem_append_right _ (.head _)
    · exact List.mem_append_left _ (hd h)

end

/-- A change to one value leaves the other look-ups alone. -/
theorem get?_modify [Std.LawfulEqOrd κ] [DecidableEq κ] (t : Table κ β) (k j : κ) (f : β → β) :
    (t.modify k f).get? j = if j = k then (t.get? j).map f else t.get? j := by
  unfold modify
  rw [get?_map]
  by_cases h : j = k
  · rw [if_pos h, compare_eq_iff.2 h.symm]
  · rw [if_neg h]
    have hc : compare k j ≠ .eq := mt compare_eq_iff.1 (Ne.symm h)
    cases t.get? j with
    | none => rfl
    | some v => simp only [Option.map_some]

end NestedLayout.Table
