import NestedLayout.Proofs.Json.Text
import NestedLayout.Proofs.Table

/-!
# Reading what was written

`Reader.ReadsAs r j v`: the reader takes the value `v` back from `j` as it is written, whatever
comes behind it. There is one lemma for each way to build a reader, and `ReadsAs.run` for a whole
text.

A record is read field by field: `FollowsFields` goes through the written fields in their order,
each with the field of the reader that it is for.
-/

set_option autoImplicit false

namespace NestedLayout.Json.Reader

variable {β γ σ : Type}

/-- The reader takes a value back from how it is written. -/
structure ReadsAs (r : Reader β) (j : Json) (v : β) : Prop where
  written : j.IsWritten
  reads : ∀ rest, r (j.tokensOf ++ rest) = .ok (v, rest)

/-- **A whole text** of a value is read as that value, with and without blanks. -/
theorem ReadsAs.run {r : Reader β} {j : Json} {v : β} (h : ReadsAs r j v) :
    run r j.compact = .ok v ∧ run r j.pretty = .ok v := by
  have hread := h.reads []
  rw [List.append_nil] at hread
  refine ⟨?_, ?_⟩
  · rw [Reader.run, compact, String.toList_ofList, h.written.compact.tokens, hread]
    rfl
  · rw [Reader.run, pretty, String.toList_ofList, (h.written.pretty 0).tokens, hread]
    rfl

/-! ## Single values -/

theorem ReadsAs.map {r : Reader β} {j : Json} {v : β} (h : ReadsAs r j v) (f : β → γ) :
    ReadsAs (Format.map f r) j (f v) :=
  ⟨h.written, fun rest => by
    simp only [Format.map, Reader.map, h.reads]
    rfl⟩

theorem ReadsAs.text (s : String) : ReadsAs Format.text (.text s) s :=
  ⟨.text s, fun _ => rfl⟩

theorem ReadsAs.optional_text (s : Option String) :
    ReadsAs (Format.optional Format.text) (ofOption .text s) s := by
  cases s with
  | none => exact ⟨.null, fun _ => rfl⟩
  | some s => exact ⟨.text s, fun _ => rfl⟩

theorem ReadsAs.choice {choices : List (String × β)} {name : String} {v : β}
    (h : choices.lookup name = some v) : ReadsAs (Format.choice choices) (.text name) v :=
  ⟨.text name, fun rest => by
    show (do return (← choose choices name, rest)) = _
    rw [choose, h]
    rfl⟩

/-! ## Lists -/

theorem nextItem_first {t : Token} (h : t.opens = true) (rest : List Token) :
    nextItem true (t :: rest) = .ok (some (t :: rest)) := by
  cases t <;> first | rfl | cases h

theorem nextItem_later {t : Token} (h : t.opens = true) (rest : List Token) :
    nextItem false (.comma :: t :: rest) = .ok (some (t :: rest)) := by
  cases t <;> first | rfl | cases h

section
variable {r : Reader β} {enc : β → Json}

/-- One item, and those after it. -/
theorem items_cons {first : Bool} {v : β} {vs : List β} {n : Nat} {ts rest rest' : List Token}
    (h : ReadsAs r (enc v) v) (hnext : nextItem first ts = .ok (some ((enc v).tokensOf ++ rest)))
    (hitems : items r n false rest = .ok (vs, rest')) :
    items r (n + 1) first ts = .ok (v :: vs, rest') := by
  simp only [items, hnext, bind, Except.bind, h.reads, hitems]
  rfl

/-- The items after the first. -/
theorem items_later {vs : List β} (h : ∀ v ∈ vs, ReadsAs r (enc v) v) {n : Nat}
    (hn : vs.length < n) (rest : List Token) :
    items r n false ((vs.flatMap fun v => .comma :: (enc v).tokensOf) ++ .closeList :: rest) =
      .ok (vs, rest) := by
  induction vs generalizing n with
  | nil =>
    obtain ⟨n, rfl⟩ := Nat.exists_eq_add_one_of_ne_zero (Nat.ne_zero_of_lt hn)
    rfl
  | cons v vs ih =>
    obtain ⟨hv, hvs⟩ := List.forall_mem_cons.1 h
    obtain ⟨n, rfl⟩ := Nat.exists_eq_add_one_of_ne_zero (Nat.ne_zero_of_lt hn)
    refine items_cons hv ?_ (ih hvs (Nat.lt_of_succ_lt_succ hn))
    obtain ⟨t, ts, hts, hopens⟩ := hv.written.opens
    rw [List.flatMap_cons, List.append_assoc, hts]
    exact nextItem_later hopens _

/-- The items of a list, up to its closing bracket. -/
theorem items_all {vs : List β} (h : ∀ v ∈ vs, ReadsAs r (enc v) v) {n : Nat}
    (hn : vs.length < n) (rest : List Token) :
    items r n true (itemTokens (vs.map enc) ++ .closeList :: rest) = .ok (vs, rest) := by
  obtain ⟨n, rfl⟩ := Nat.exists_eq_add_one_of_ne_zero (Nat.ne_zero_of_lt hn)
  cases vs with
  | nil => rfl
  | cons v vs =>
    obtain ⟨hv, hvs⟩ := List.forall_mem_cons.1 h
    obtain ⟨t, ts, hts, hopens⟩ := hv.written.opens
    rw [List.map_cons, itemTokens_cons, List.flatMap_map, List.append_assoc]
    refine items_cons hv ?_ (items_later hvs (Nat.lt_of_succ_lt_succ hn) rest)
    rw [hts]
    exact nextItem_first hopens _

/-- **Lists** are read item by item. -/
theorem ReadsAs.list {vs : List β} (h : ∀ v ∈ vs, ReadsAs r (enc v) v) :
    ReadsAs (Format.list r) (.list (vs.map enc)) vs := by
  have hwritten : ∀ j ∈ vs.map enc, j.IsWritten := fun j hj => by
    obtain ⟨v, hv, rfl⟩ := List.mem_map.1 hj
    exact (h v hv).written
  refine ⟨.list hwritten, fun rest => ?_⟩
  rw [tokensOf_list]
  refine items_all h ?_ rest
  have := length_le_itemTokens hwritten
  simp only [List.length_map, List.length_append, List.length_cons] at this ⊢
  omega

end

/-! ## Tables -/

theorem colon_cons (rest : List Token) : colon (.colon :: rest) = .ok rest := rfl

section
variable {r : Reader β} {enc : β → Json}

/-- One entry, and those after it. -/
theorem entries_cons {first : Bool} {acc t : IdTable β} {name : String} {v : β} {n : Nat}
    {ts rest rest' : List Token} (h : ReadsAs r (enc v) v)
    (hnext : nextName first ts = .ok (some (name, .colon :: (enc v).tokensOf ++ rest)))
    (hentries : entries r n false (acc.insert name v) rest = .ok (t, rest')) :
    entries r (n + 1) first acc ts = .ok (t, rest') := by
  simp only [entries, hnext, bind, Except.bind, List.cons_append, colon_cons, h.reads, hentries]

/-- The entries after the first. -/
theorem entries_later {es : List (String × β)} (h : ∀ e ∈ es, ReadsAs r (enc e.2) e.2) {n : Nat}
    (hn : es.length < n) (acc : IdTable β) (rest : List Token) :
    entries r n false acc ((es.flatMap fun e =>
        .comma :: .text (.ok e.1) :: .colon :: (enc e.2).tokensOf) ++ .closeRecord :: rest) =
      .ok (es.foldl (fun t e => t.insert e.1 e.2) acc, rest) := by
  induction es generalizing n acc with
  | nil =>
    obtain ⟨n, rfl⟩ := Nat.exists_eq_add_one_of_ne_zero (Nat.ne_zero_of_lt hn)
    rfl
  | cons e es ih =>
    obtain ⟨he, hes⟩ := List.forall_mem_cons.1 h
    obtain ⟨n, rfl⟩ := Nat.exists_eq_add_one_of_ne_zero (Nat.ne_zero_of_lt hn)
    refine entries_cons he ?_ (ih hes (Nat.lt_of_succ_lt_succ hn) _)
    rw [List.flatMap_cons, List.append_assoc]
    rfl

/-- The entries of a table, up to its closing bracket. -/
theorem entries_all {es : List (String × β)} (h : ∀ e ∈ es, ReadsAs r (enc e.2) e.2) {n : Nat}
    (hn : es.length < n) (rest : List Token) :
    entries r n true .empty
        (fieldTokens (es.map fun e => (e.1, enc e.2)) ++ .closeRecord :: rest) =
      .ok (.ofList es, rest) := by
  obtain ⟨n, rfl⟩ := Nat.exists_eq_add_one_of_ne_zero (Nat.ne_zero_of_lt hn)
  cases es with
  | nil => rfl
  | cons e es =>
    obtain ⟨he, hes⟩ := List.forall_mem_cons.1 h
    rw [List.map_cons, fieldTokens_cons, List.flatMap_map, List.append_assoc]
    exact entries_cons he rfl (entries_later hes (Nat.lt_of_succ_lt_succ hn) _ rest)

/-- **Tables** are read entry by entry. -/
theorem ReadsAs.table (h : ∀ v, ReadsAs r (enc v) v) (t : IdTable β) :
    ReadsAs (Format.table r) (ofTable enc t) t := by
  have hwritten : ∀ f ∈ t.entries.map fun e => (e.1, enc e.2), f.2.IsWritten := fun f hf => by
    obtain ⟨e, -, rfl⟩ := List.mem_map.1 hf
    exact (h e.2).written
  refine ⟨.record hwritten, fun rest => ?_⟩
  rw [ofTable, tokensOf_record]
  refine (entries_all (fun e _ => h e.2) ?_ rest).trans (by rw [Table.ofList_entries])
  have := length_le_fieldTokens (t.entries.map fun e => (e.1, enc e.2))
  simp only [List.length_map, List.length_append, List.length_cons] at this ⊢
  omega

end

/-! ## Records -/

/-- The written fields are fields of the reader, each for the first time, and with what was read
before they make up `v`; none that the reader asks for is missing. -/
inductive FollowsFields (fields : List (Field Reader σ)) :
    List Nat → σ → List (String × Json) → σ → Prop
  | done {seen : List Nat} {v : σ} (hcomplete : Field.complete fields seen = true) :
    FollowsFields fields seen v [] v
  | field {seen : List Nat} {acc v : σ} {name : String} {j : Json} {i : Nat}
    {f : Field Reader σ} {update : σ → σ} {written : List (String × Json)}
    (hindex : Field.index? fields name = some i) (hseen : seen.contains i = false)
    (hfield : fields[i]? = some f) (hread : ReadsAs f.read j update)
    (hrest : FollowsFields fields (i :: seen) (update acc) written v) :
    FollowsFields fields seen acc ((name, j) :: written) v

section
variable {fields : List (Field Reader σ)} {seen : List Nat} {acc v : σ}

theorem FollowsFields.written {written : List (String × Json)}
    (h : FollowsFields fields seen acc written v) : ∀ f ∈ written, f.2.IsWritten := by
  induction h with
  | done => simp
  | field _ _ _ hread _ ih => exact List.forall_mem_cons.2 ⟨hread.written, ih⟩

/-- After the last field. -/
theorem namedFields_nil {first : Bool} {n : Nat} {rest : List Token}
    (hnext : nextName first (.closeRecord :: rest) = .ok none)
    (hcomplete : Field.complete fields seen = true) :
    namedFields fields (n + 1) first seen v (.closeRecord :: rest) = .ok (v, rest) := by
  rw [namedFields, hnext]
  simp only [bind, Except.bind, hcomplete]
  rfl

/-- One field, and those after it. -/
theorem namedFields_cons {first : Bool} {name : String} {j : Json} {i : Nat} {f : Field Reader σ}
    {update : σ → σ} {n : Nat} {ts rest rest' : List Token}
    (hindex : Field.index? fields name = some i) (hseen : seen.contains i = false)
    (hfield : fields[i]? = some f) (hread : ReadsAs f.read j update)
    (hnext : nextName first ts = .ok (some (name, .colon :: j.tokensOf ++ rest)))
    (hfields : namedFields fields n false (i :: seen) (update acc) rest = .ok (v, rest')) :
    namedFields fields (n + 1) first seen acc ts = .ok (v, rest') := by
  simp only [namedFields, hnext, bind, Except.bind, hindex, hseen, Bool.false_eq_true, if_false,
    List.cons_append, colon_cons, hfield, hread.reads, hfields]

/-- The fields after the first. -/
theorem namedFields_later {written : List (String × Json)}
    (h : FollowsFields fields seen acc written v) {n : Nat} (hn : written.length < n)
    (rest : List Token) :
    namedFields fields n false seen acc ((written.flatMap fun f =>
        .comma :: .text (.ok f.1) :: .colon :: f.2.tokensOf) ++ .closeRecord :: rest) =
      .ok (v, rest) := by
  induction h generalizing n with
  | done hcomplete =>
    obtain ⟨n, rfl⟩ := Nat.exists_eq_add_one_of_ne_zero (Nat.ne_zero_of_lt hn)
    exact namedFields_nil rfl hcomplete
  | field hindex hseen hfield hread _ ih =>
    obtain ⟨n, rfl⟩ := Nat.exists_eq_add_one_of_ne_zero (Nat.ne_zero_of_lt hn)
    refine namedFields_cons hindex hseen hfield hread ?_ (ih (Nat.lt_of_succ_lt_succ hn))
    rw [List.flatMap_cons, List.append_assoc]
    rfl

/-- The fields of a record, up to its closing bracket. -/
theorem namedFields_all {written : List (String × Json)}
    (h : FollowsFields fields seen acc written v) {n : Nat} (hn : written.length < n)
    (rest : List Token) :
    namedFields fields n true seen acc (fieldTokens written ++ .closeRecord :: rest) =
      .ok (v, rest) := by
  obtain ⟨n, rfl⟩ := Nat.exists_eq_add_one_of_ne_zero (Nat.ne_zero_of_lt hn)
  cases h with
  | done hcomplete => exact namedFields_nil rfl hcomplete
  | field hindex hseen hfield hread hrest =>
    rw [fieldTokens_cons, List.append_assoc]
    exact namedFields_cons hindex hseen hfield hread rfl
      (namedFields_later hrest (Nat.lt_of_succ_lt_succ hn) rest)

/-- **Records** are read field by field. -/
theorem ReadsAs.record {start : σ} {written : List (String × Json)}
    (h : FollowsFields fields [] start written v) :
    ReadsAs (Format.record start fields) (.record written) v := by
  refine ⟨.record h.written, fun rest => ?_⟩
  rw [tokensOf_record]
  refine namedFields_all h ?_ rest
  have := length_le_fieldTokens written
  simp only [List.length_append, List.length_cons]
  omega

end

end NestedLayout.Json.Reader
