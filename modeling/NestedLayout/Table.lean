/-!
# Tables

`Table κ β` is a finite map from keys to values that lists its entries in key order, so that a
table is determined by what it holds. Ids are strings, ordered by their code points.

* **Order.** The entries stand in strictly increasing key order, so every walk over a table is in
  key order and no key occurs twice.
* **Changes.** `get?_insert`, `get?_erase` and `get?_map` say what a change does to the look-ups,
  and that it does nothing else.
-/

set_option autoImplicit false

namespace NestedLayout

/-- A finite map whose entries stand in strictly increasing key order. -/
structure Table (κ : Type) (β : Type) [Ord κ] where
  entries : List (κ × β)
  sorted : entries.Pairwise fun a b => compare a.1 b.1 = .lt

/-- A table whose keys are ids. -/
abbrev IdTable (β : Type) := Table String β

namespace Table

variable {κ β γ : Type} [Ord κ]

/-! ## Lists of entries -/

/-- The value of the first entry with this key. -/
def find (k : κ) : List (κ × β) → Option β
  | [] => none
  | (k', v) :: rest => match compare k k' with
    | .eq => some v
    | _ => find k rest

/-- Puts an entry where its key belongs, in place of an entry with the same key. -/
def put (k : κ) (v : β) : List (κ × β) → List (κ × β)
  | [] => [(k, v)]
  | (k', v') :: rest => match compare k k' with
    | .lt => (k, v) :: (k', v') :: rest
    | .eq => (k, v) :: rest
    | .gt => (k', v') :: put k v rest

theorem mem_of_mem_put {k : κ} {v : β} {l : List (κ × β)} {e : κ × β} (h : e ∈ put k v l) :
    e = (k, v) ∨ e ∈ l := by
  induction l with
  | nil => simpa [put] using h
  | cons head rest ih =>
    obtain ⟨k', v'⟩ := head
    unfold put at h
    split at h <;> grind

theorem put_sorted [Std.TransOrd κ] [Std.LawfulEqOrd κ] (k : κ) (v : β) {l : List (κ × β)}
    (h : l.Pairwise fun a b => compare a.1 b.1 = .lt) :
    (put k v l).Pairwise fun a b => compare a.1 b.1 = .lt := by
  induction l with
  | nil => simp [put]
  | cons head rest ih =>
    obtain ⟨k', v'⟩ := head
    obtain ⟨hlt, hrest⟩ := List.pairwise_cons.1 h
    unfold put
    split
    next hk =>
      refine List.pairwise_cons.2 ⟨fun e he => ?_, h⟩
      rcases List.mem_cons.1 he with rfl | he
      · exact hk
      · exact Std.TransCmp.lt_trans hk (hlt e he)
    next hk =>
      cases Std.LawfulEqCmp.eq_of_compare hk
      exact List.pairwise_cons.2 ⟨hlt, hrest⟩
    next hk =>
      refine List.pairwise_cons.2 ⟨fun e he => ?_, ih hrest⟩
      rcases mem_of_mem_put he with rfl | he
      · exact Std.OrientedCmp.gt_iff_lt.1 hk
      · exact hlt e he

theorem find_put [Std.LawfulEqOrd κ] (k j : κ) (v : β) (l : List (κ × β)) :
    find j (put k v l) = if compare j k = .eq then some v else find j l := by
  induction l with
  | nil =>
    simp only [put, find]
    split <;> simp_all
  | cons head rest ih =>
    obtain ⟨k', v'⟩ := head
    unfold put
    split
    next hk =>
      simp only [find]
      split <;> simp_all
    next hk =>
      cases Std.LawfulEqCmp.eq_of_compare hk
      simp only [find]
      split <;> simp_all
    next hk =>
      simp only [find, ih]
      split
      next hj =>
        cases Std.LawfulEqCmp.eq_of_compare hj
        have : compare j k ≠ .eq := fun h => by
          cases Std.LawfulEqCmp.eq_of_compare h
          have hself : compare k k = .eq := Std.ReflCmp.compare_self
          rw [hself] at hk
          exact absurd hk (by decide)
        simp [this]
      next => rfl

/-! ## Tables and their look-ups -/

/-- The table that holds nothing. -/
def empty : Table κ β := ⟨[], .nil⟩

instance : Inhabited (Table κ β) := ⟨empty⟩

/-- The value held for a key. -/
def get? (t : Table κ β) (k : κ) : Option β := find k t.entries

/-- Whether the table holds a value for the key. -/
def contains (t : Table κ β) (k : κ) : Bool := (t.get? k).isSome

/-- The keys in order. -/
def keys (t : Table κ β) : List κ := t.entries.map (·.1)

/-- The values in the order of their keys. -/
def values (t : Table κ β) : List β := t.entries.map (·.2)

/-- The number of entries. -/
def size (t : Table κ β) : Nat := t.entries.length

/-- Applies a function to every value. -/
def map (f : κ → β → γ) (t : Table κ β) : Table κ γ where
  entries := t.entries.map fun e => (e.1, f e.1 e.2)
  sorted := by
    rw [List.pairwise_map]
    exact t.sorted

/-- Removes the entry of a key. -/
def erase (t : Table κ β) (k : κ) : Table κ β where
  entries := t.entries.filter fun e => compare k e.1 != .eq
  sorted := t.sorted.filter _

/-- Applies a function to the value of one key. -/
def modify (t : Table κ β) (k : κ) (f : β → β) : Table κ β :=
  t.map fun k' v => match compare k k' with
    | .eq => f v
    | _ => v

/-- Holds `v` for `k`, whatever was held for it. -/
def insert [Std.TransOrd κ] [Std.LawfulEqOrd κ] (t : Table κ β) (k : κ) (v : β) : Table κ β where
  entries := put k v t.entries
  sorted := put_sorted k v t.sorted

/-- The table of a list of entries; of entries with one key the last counts. -/
def ofList [Std.TransOrd κ] [Std.LawfulEqOrd κ] (l : List (κ × β)) : Table κ β :=
  l.foldl (fun t e => t.insert e.1 e.2) empty

@[simp] theorem get?_empty (k : κ) : (empty : Table κ β).get? k = none := rfl

theorem get?_insert [Std.TransOrd κ] [Std.LawfulEqOrd κ] (t : Table κ β) (k j : κ) (v : β) :
    (t.insert k v).get? j = if compare j k = .eq then some v else t.get? j :=
  find_put k j v t.entries

theorem get?_map [Std.LawfulEqOrd κ] (f : κ → β → γ) (t : Table κ β) (k : κ) :
    (t.map f).get? k = (t.get? k).map (f k) := by
  simp only [get?, map]
  induction t.entries with
  | nil => rfl
  | cons head rest ih =>
    simp only [List.map_cons, find]
    split
    next hk =>
      cases Std.LawfulEqCmp.eq_of_compare hk
      rfl
    next => exact ih

theorem get?_erase [Std.LawfulEqOrd κ] (t : Table κ β) (k j : κ) :
    (t.erase k).get? j = if compare j k = .eq then none else t.get? j := by
  simp only [get?, erase]
  induction t.entries with
  | nil => simp [find]
  | cons head rest ih =>
    obtain ⟨k', v'⟩ := head
    rw [List.filter_cons]
    by_cases hk : compare k k' = .eq
    · cases Std.LawfulEqCmp.eq_of_compare hk
      simp only [hk, bne_self_eq_false, Bool.false_eq_true, if_false, ih, find]
      split <;> simp_all
    · rw [if_pos (by simpa using hk)]
      simp only [find, ih]
      split
      next hj =>
        cases Std.LawfulEqCmp.eq_of_compare hj
        have : compare j k ≠ .eq := fun h => hk (by
          cases Std.LawfulEqCmp.eq_of_compare h
          exact Std.ReflCmp.compare_self)
        simp [this]
      next => rfl

end Table

end NestedLayout
