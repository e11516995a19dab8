import NestedLayout.Hierarchy.Extract
import NestedLayout.Proofs.Fold
import NestedLayout.Proofs.Hierarchy.WellFormed
import NestedLayout.Proofs.Table

/-!
# What the passes of the extraction find

Each pass of `Hierarchy.extract` is a fold that fails at the first fault. This file says for each of
them when it succeeds and what its table then holds:

* `listedOwners_ok_iff`, `owners_get?`: the area that lists each item;
* `parents_ok_iff`, `parents_get?`: the parent of each area, both by way of `insertAll_ok_iff`, the
  law of all passes that fill a table key by key.
-/

set_option autoImplicit false

namespace NestedLayout.Hierarchy

open Diagram (Area Lists Declares ParentIs)

/-! ## Passes that fill a table -/

section
variable {β γ ε : Type}

/-- Holds the value of each member of a list for its key, unless one of them has none. -/
def insertAll (key : γ → String) (value : γ → Except ε β) (l : List γ) : Except ε (IdTable β) :=
  l.foldlM (fun t x => do return t.insert (key x) (← value x)) .empty

/-- **A pass succeeds** when every member has a value. -/
theorem insertAll_ok_iff {key : γ → String} {value : γ → Except ε β} {l : List γ} :
    (∃ t, insertAll key value l = .ok t) ↔ ∀ x ∈ l, ∃ v, value x = .ok v := by
  refine ⟨?_, fun h => ?_⟩
  · rintro ⟨t, h⟩
    refine Fold.keepsM (fun done _ => ∀ x ∈ done, ∃ v, value x = .ok v) (by simp) ?_ h
    intro done x rest b b' _ hd hx y hy
    rcases List.mem_append.1 hy with hy | hy
    · exact hd y hy
    · cases List.mem_singleton.1 hy
      cases hv : value x with
      | ok v => exact ⟨v, rfl⟩
      | error e => rw [hv] at hx; cases hx
  · obtain ⟨t, ht, -⟩ := Fold.reaches (m := Except ε) (l := l) (b := (.empty : IdTable β))
      (f := fun t x => do return t.insert (key x) (← value x)) (fun _ _ => True) trivial
      (fun done x rest b hl _ => by
        obtain ⟨v, hv⟩ := h x (by rw [hl]; simp)
        exact ⟨b.insert (key x) v, by rw [hv]; rfl, trivial⟩)
    exact ⟨t, ht⟩

/-- **A pass that fails** does so at a member without a value. -/
theorem insertAll_eq_error {key : γ → String} {value : γ → Except ε β} {l : List γ} {e : ε}
    (h : insertAll key value l = .error e) : ∃ x ∈ l, value x = .error e := by
  obtain ⟨done, x, rest, t, hl, -, hx⟩ := Fold.failsM (fun _ _ => True) trivial
    (fun _ _ _ _ _ _ _ _ => trivial) h
  refine ⟨x, by simp [hl], ?_⟩
  cases hv : value x with
  | error e' => rw [hv] at hx; cases hx; rfl
  | ok v => rw [hv] at hx; cases hx

/-- **The table of a pass** holds for each key the value of its member. -/
theorem insertAll_get? {key : γ → String} {value : γ → Except ε β} {l : List γ} {t : IdTable β}
    (hnd : (l.map key).Nodup) (h : insertAll key value l = .ok t) {k : String} {v : β} :
    t.get? k = some v ↔ ∃ x ∈ l, key x = k ∧ value x = .ok v := by
  suffices hall : ∀ k v, t.get? k = some v ↔ ∃ x ∈ l, key x = k ∧ value x = .ok v from hall k v
  refine Fold.keepsM
    (fun done t => ∀ k v, t.get? k = some v ↔ ∃ x ∈ done, key x = k ∧ value x = .ok v)
    (by simp) ?_ h
  intro done x rest b b' hl hd hx k v
  cases hv : value x with
  | error e => rw [hv] at hx; cases hx
  | ok w =>
    rw [hv] at hx
    cases hx
    -- the key is new, so no earlier member is overwritten
    have hnew : ∀ y ∈ done, key y ≠ key x := by
      rw [hl, List.map_append, List.map_cons] at hnd
      intro y hy he
      exact List.disjoint_of_nodup_append hnd (List.mem_map_of_mem hy) (by rw [he]; simp)
    rw [Table.get?_insert_eq]
    split
    · rename_i hk
      subst hk
      refine ⟨fun he => ?_, ?_⟩
      · cases he
        exact ⟨x, by simp, rfl, hv⟩
      · rintro ⟨y, hy, hyk, hyv⟩
        rcases List.mem_append.1 hy with hy | hy
        · exact absurd hyk (hnew y hy)
        · cases List.mem_singleton.1 hy
          rw [hv] at hyv
          cases hyv
          rfl
    · rename_i hk
      rw [hd]
      refine ⟨?_, ?_⟩
      · rintro ⟨y, hy, h⟩
        exact ⟨y, List.mem_append_left _ hy, h⟩
      · rintro ⟨y, hy, hyk, hyv⟩
        rcases List.mem_append.1 hy with hy | hy
        · exact ⟨y, hy, hyk, hyv⟩
        · cases List.mem_singleton.1 hy
          exact absurd hyk.symm hk

end

/-! ## Owners -/

theorem mem_listings {d : Diagram} {area item : String} :
    (area, item) ∈ listings d ↔ Lists d area item := by
  simp only [listings, List.mem_flatMap, List.mem_map, Prod.mk.injEq, Diagram.Lists]
  refine ⟨?_, ?_⟩
  · rintro ⟨e, he, i, hi, rfl, rfl⟩
    exact ⟨e.2, Table.mem_entries_iff.1 he, hi⟩
  · rintro ⟨a, ha, hi⟩
    exact ⟨(area, a), Table.mem_entries_iff.2 ha, item, hi, rfl, rfl⟩

/-- What a walk over listings has checked and recorded. -/
structure Recorded (d : Diagram) (done : List (String × String)) (owners : IdTable String) :
    Prop where
  known : ∀ l ∈ done, d.areas.contains l.2 = true ∨ d.elements.contains l.2 = true
  noSelf : ∀ l ∈ done, l.2 ≠ l.1
  get? : ∀ item area, owners.get? item = some area ↔ (area, item) ∈ done

/-- **One listing**: recorded when the item is known, differs from the area and has no other
owner. -/
theorem recordOwner_ok_iff {d : Diagram} {done : List (String × String)} {owners : IdTable String}
    {area item : String} (h : Recorded d done owners) :
    (∃ owners', recordOwner d owners area item = .ok owners') ↔
      (d.areas.contains item = true ∨ d.elements.contains item = true) ∧ item ≠ area ∧
        ∀ owner, (owner, item) ∈ done → owner = area := by
  unfold recordOwner
  split
  · rename_i hn
    simp_all
  · rename_i hn
    have hk : d.areas.contains item = true ∨ d.elements.contains item = true := by
      cases ha : d.areas.contains item <;> simp_all
    split
    · rename_i hs
      simp [hs]
    · rename_i hs
      split
      · rename_i owner ho
        split
        · rename_i he
          refine iff_of_true ⟨_, rfl⟩ ⟨hk, hs, fun o hd => ?_⟩
          have := (h.get? item o).2 hd
          simp_all
        · rename_i he
          refine iff_of_false (by simp) fun hc => he (hc.2.2 owner ((h.get? item owner).1 ho))
      · rename_i ho
        refine iff_of_true ⟨_, rfl⟩ ⟨hk, hs, fun o hd => ?_⟩
        have := (h.get? item o).2 hd
        simp_all

theorem Recorded.record {d : Diagram} {done : List (String × String)}
    {owners owners' : IdTable String} {area item : String} (h : Recorded d done owners)
    (hr : recordOwner d owners area item = .ok owners') :
    Recorded d (done ++ [(area, item)]) owners' := by
  obtain ⟨hk, hs, hu⟩ := (recordOwner_ok_iff h).1 ⟨_, hr⟩
  refine ⟨fun l hl => ?_, fun l hl => ?_, fun i a => ?_⟩
  · rcases List.mem_append.1 hl with hl | hl
    · exact h.known l hl
    · cases List.mem_singleton.1 hl; exact hk
  · rcases List.mem_append.1 hl with hl | hl
    · exact h.noSelf l hl
    · cases List.mem_singleton.1 hl; exact hs
  · simp only [List.mem_append, List.mem_singleton, Prod.mk.injEq]
    have hn : (!d.areas.contains item && !d.elements.contains item) = false := by
      rcases hk with hk | hk <;> simp [hk]
    rw [recordOwner, hn, if_neg Bool.false_ne_true, if_neg hs] at hr
    split at hr
    · rename_i owner ho
      have hd := (h.get? item owner).1 ho
      rw [if_pos (hu owner hd)] at hr
      cases hr
      rw [h.get?]
      refine ⟨.inl, ?_⟩
      rintro (hd' | ⟨rfl, rfl⟩)
      · exact hd'
      · rw [← hu owner hd]; exact hd
    · rename_i ho
      cases hr
      rw [Table.get?_insert_eq]
      split
      · rename_i hi
        subst hi
        have hnone : (a, i) ∉ done := fun hd => by rw [(h.get? i a).2 hd] at ho; cases ho
        simp [hnone, eq_comm]
      · rename_i hi
        simp [h.get?, hi]

/-- **The owners that are recorded** are the areas that list the items. -/
theorem listedOwners_spec {d : Diagram} {owners : IdTable String}
    (h : listedOwners d = .ok owners) : Recorded d (listings d) owners :=
  Fold.keepsM (Recorded d) ⟨by simp, by simp, by simp⟩
    (fun _ _ _ _ _ _ hd hr => hd.record hr) h

/-- **Owners can be recorded** when every listed item is known, no area lists itself, and no item
is listed by two areas. -/
theorem listedOwners_ok_iff {d : Diagram} :
    (∃ owners, listedOwners d = .ok owners) ↔
      (∀ area item, Lists d area item →
        d.areas.contains item = true ∨ d.elements.contains item = true) ∧
      (∀ area, ¬ Lists d area area) ∧
      ∀ item a b, Lists d a item → Lists d b item → a = b := by
  refine ⟨?_, ?_⟩
  · rintro ⟨owners, h⟩
    have hs := listedOwners_spec h
    refine ⟨fun area item hl => hs.known _ (mem_listings.2 hl),
      fun area hl => hs.noSelf _ (mem_listings.2 hl) rfl, fun item a b ha hb => ?_⟩
    have h1 := (hs.get? item a).2 (mem_listings.2 ha)
    have h2 := (hs.get? item b).2 (mem_listings.2 hb)
    rw [h1] at h2
    cases h2
    rfl
  · rintro ⟨hk, hn, hu⟩
    obtain ⟨owners, h, -⟩ := Fold.reaches (m := Except DiagramError) (l := listings d)
      (b := (.empty : IdTable String)) (f := fun owners l => recordOwner d owners l.1 l.2)
      (Recorded d) ⟨by simp, by simp, by simp⟩
      (fun done l rest b hl hd => by
        have hm : ∀ x ∈ done ++ l :: rest, Lists d x.1 x.2 := fun x hx =>
          mem_listings.1 (hl ▸ hx)
        have hl' := hm l (by simp)
        obtain ⟨b', hb⟩ : ∃ b', recordOwner d b l.1 l.2 = .ok b' := (recordOwner_ok_iff hd).2
          ⟨hk _ _ hl', fun he => hn l.1 (he ▸ hl'),
            fun o ho => hu l.2 o l.1 (hm (o, l.2) (by simp [ho])) hl'⟩
        exact ⟨b', hb, hd.record hb⟩)
    exact ⟨owners, h⟩

theorem owners_get? {d : Diagram} {owners : IdTable String} (h : listedOwners d = .ok owners)
    {item area : String} : owners.get? item = some area ↔ Lists d area item := by
  rw [(listedOwners_spec h).get?, mem_listings]

theorem owners_none_iff {d : Diagram} {owners : IdTable String} (h : listedOwners d = .ok owners)
    {item : String} : owners.get? item = none ↔ ∀ area, ¬ Lists d area item := by
  simp [Option.eq_none_iff_forall_ne_some, owners_get? h]

/-! ## Parents and the areas of elements -/

theorem mem_inner {d : Diagram} {id : String} {area : Area} :
    (id, area) ∈ inner d ↔ d.areas.get? id = some area ∧ id ≠ d.root := by
  simp [inner, Table.mem_entries_iff]

theorem nodup_inner (d : Diagram) : ((inner d).map (·.1)).Nodup :=
  (Table.nodup_keys d.areas).sublist (List.filter_sublist.map _)

section
variable {d : Diagram} {owners : IdTable String} (ho : listedOwners d = .ok owners)
include ho

/-- **The parent of an area** is found when listing and declaration agree and one of them is
there. -/
theorem parentOf_eq_ok_iff {id parent : String} {area : Area} (ha : d.areas.get? id = some area) :
    parentOf d owners id area = .ok parent ↔
      ParentIs d id parent ∧ d.areas.contains parent = true ∧
        ∀ owner declared, Lists d owner id → Declares d id declared → owner = declared := by
  have hdecl : ∀ p, Declares d id p ↔ area.parent = some p := fun p => by
    simp [Declares, ha]
  have harea : ∀ {p}, Lists d p id → d.areas.contains p = true := fun ⟨_, hp, _⟩ =>
    Table.contains_of_get? hp
  simp only [ParentIs, hdecl]
  unfold parentOf
  cases hown : owners.get? id with
  | some owner =>
    have hl : ∀ a, Lists d a id ↔ a = owner := fun a => by
      rw [← owners_get? ho, hown, Option.some.injEq, eq_comm]
    have hc := harea ((hl owner).2 rfl)
    simp only [hl]
    cases hdp : area.parent with
    | some declared =>
      simp only [Option.some.injEq]
      split
      · rename_i he
        subst he
        simp only [Except.ok.injEq]
        refine ⟨fun h => ⟨.inl h.symm, h ▸ hc, fun _ _ h1 h2 => h1.trans h2⟩, ?_⟩
        rintro ⟨h | ⟨hne, -⟩, -⟩
        · exact h.symm
        · exact absurd rfl (hne owner)
      · rename_i he
        exact iff_of_false (by simp) fun h => he (h.2.2 _ _ rfl rfl)
    | none =>
      simp only [Except.ok.injEq]
      refine ⟨fun h => ⟨.inl h.symm, h ▸ hc, by simp⟩, ?_⟩
      rintro ⟨h | ⟨hne, -⟩, -⟩
      · exact h.symm
      · exact absurd rfl (hne owner)
  | none =>
    have hl : ∀ a, ¬ Lists d a id := (owners_none_iff ho).1 hown
    cases hdp : area.parent with
    | some declared =>
      simp only [hl, Option.some.injEq]
      split
      · rename_i hk
        simp only [Except.ok.injEq]
        refine ⟨fun h => ⟨.inr ⟨fun _ h => h, h⟩, h ▸ hk, fun _ _ h _ => h.elim⟩, ?_⟩
        rintro ⟨h | ⟨-, h⟩, -⟩
        · exact h.elim
        · exact h
      · rename_i hk
        refine iff_of_false (by simp) ?_
        rintro ⟨h | ⟨-, rfl⟩, hc, -⟩
        · exact h
        · exact hk hc
    | none => simp [hl]

omit ho in
theorem parents_eq : parents d owners =
    insertAll (·.1) (fun e : String × Area => parentOf d owners e.1 e.2) (inner d) := rfl

/-- **All areas but the root have a parent** when each is listed or declares a known area, without
conflict. -/
theorem parents_ok_iff :
    (∃ ps, parents d owners = .ok ps) ↔
      (∀ id, d.areas.contains id = true → id ≠ d.root →
        (∃ area, Lists d area id) ∨
          ∃ parent, Declares d id parent ∧ d.areas.contains parent = true) ∧
      ∀ id owner parent, id ≠ d.root → Lists d owner id → Declares d id parent →
        owner = parent := by
  rw [parents_eq, insertAll_ok_iff]
  refine ⟨fun h => ?_, ?_⟩
  · have key : ∀ {id area}, d.areas.get? id = some area → id ≠ d.root → ∃ parent,
        ParentIs d id parent ∧ d.areas.contains parent = true ∧
          ∀ owner declared, Lists d owner id → Declares d id declared → owner = declared :=
      fun {id area} ha hr => by
        obtain ⟨p, hp⟩ := h (id, area) (mem_inner.2 ⟨ha, hr⟩)
        exact ⟨p, (parentOf_eq_ok_iff ho ha).1 hp⟩
    refine ⟨fun id hc hr => ?_, fun id owner parent hr hl hd => ?_⟩
    · obtain ⟨area, ha⟩ := Table.contains_iff.1 hc
      obtain ⟨p, hl | ⟨-, hd⟩, hk, -⟩ := key ha hr
      · exact .inl ⟨p, hl⟩
      · exact .inr ⟨p, hd, hk⟩
    · have ⟨area, ha, _⟩ := hd
      obtain ⟨-, -, -, hag⟩ := key ha hr
      exact hag owner parent hl hd
  · rintro ⟨hp, hag⟩ ⟨id, area⟩ he
    obtain ⟨ha, hr⟩ := mem_inner.1 he
    have hag' : ∀ owner declared, Lists d owner id → Declares d id declared → owner = declared :=
      fun o p hl hd => hag id o p hr hl hd
    by_cases hl : ∃ a, Lists d a id
    · obtain ⟨a, hl⟩ := hl
      have ⟨_, hs, _⟩ := hl
      exact ⟨a, (parentOf_eq_ok_iff ho ha).2 ⟨.inl hl, Table.contains_of_get? hs, hag'⟩⟩
    · rcases hp id (Table.contains_of_get? ha) hr with hl' | ⟨p, hd, hk⟩
      · exact absurd hl' hl
      · exact ⟨p, (parentOf_eq_ok_iff ho ha).2
          ⟨.inr ⟨fun a h => hl ⟨a, h⟩, hd⟩, hk, hag'⟩⟩

/-- **The table of parents** holds the parents of the areas other than the root. -/
theorem parents_get? {ps : IdTable String} (hp : parents d owners = .ok ps) {id parent : String} :
    ps.get? id = some parent ↔
      d.areas.contains id = true ∧ id ≠ d.root ∧ ParentIs d id parent := by
  rw [parents_eq] at hp
  rw [insertAll_get? (nodup_inner d) hp]
  refine ⟨?_, ?_⟩
  · rintro ⟨⟨id, area⟩, he, rfl, hv⟩
    obtain ⟨ha, hr⟩ := mem_inner.1 he
    exact ⟨Table.contains_of_get? ha, hr, ((parentOf_eq_ok_iff ho ha).1 hv).1⟩
  · rintro ⟨hc, hr, hpar⟩
    obtain ⟨area, ha⟩ := Table.contains_iff.1 hc
    obtain ⟨p, hv⟩ := insertAll_ok_iff.1 ⟨ps, hp⟩ (id, area) (mem_inner.2 ⟨ha, hr⟩)
    refine ⟨(id, area), mem_inner.2 ⟨ha, hr⟩, rfl, ?_⟩
    obtain ⟨hp', -, -⟩ := (parentOf_eq_ok_iff ho ha).1 hv
    suffices p = parent by rw [← this]; exact hv
    rcases hp' with h1 | ⟨h1, ⟨a, ha', h1'⟩⟩ <;> rcases hpar with h2 | ⟨h2, ⟨b, hb', h2'⟩⟩
    · rw [← owners_get? ho] at h1 h2
      rw [h1] at h2
      exact Option.some.inj h2
    · exact absurd h1 (h2 _)
    · exact absurd h2 (h1 _)
    · rw [ha'] at hb'
      cases hb'
      rw [h1'] at h2'
      exact Option.some.inj h2'

theorem parents_known {ps : IdTable String} (hp : parents d owners = .ok ps) {id parent : String}
    (h : ps.get? id = some parent) : d.areas.contains parent = true := by
  rw [parents_eq] at hp
  obtain ⟨⟨id, area⟩, he, rfl, hv⟩ := (insertAll_get? (nodup_inner d) hp).1 h
  exact ((parentOf_eq_ok_iff ho (mem_inner.1 he).1).1 hv).2.1

end

/-- Looks the area of an element up. -/
def ownerOf (owners : IdTable String) (e : String) : Except DiagramError String :=
  match owners.get? e with
  | some owner => .ok owner
  | none => .error (.orphanElement e)

theorem ownerOf_eq_ok_iff {owners : IdTable String} {e area : String} :
    ownerOf owners e = .ok area ↔ owners.get? e = some area := by
  unfold ownerOf
  split <;> simp_all

theorem elementOwners_eq (d : Diagram) (owners : IdTable String) :
    elementOwners d owners = insertAll id (ownerOf owners) d.elements.keys := by
  unfold elementOwners insertAll
  congr 1
  funext t e
  unfold ownerOf
  cases owners.get? e <;> rfl

section
variable {d : Diagram} {owners : IdTable String} (ho : listedOwners d = .ok owners)
include ho

/-- **Every element has an area** when every element is listed. -/
theorem elementOwners_ok_iff :
    (∃ es, elementOwners d owners = .ok es) ↔
      ∀ e, d.elements.contains e = true → ∃ area, Lists d area e := by
  rw [elementOwners_eq, insertAll_ok_iff]
  simp only [Table.mem_keys_iff, ownerOf_eq_ok_iff, owners_get? ho]

theorem elementOwners_get? {es : IdTable String} (he : elementOwners d owners = .ok es)
    {e area : String} :
    es.get? e = some area ↔ d.elements.contains e = true ∧ Lists d area e := by
  rw [elementOwners_eq] at he
  rw [insertAll_get? (by simpa using Table.nodup_keys d.elements) he]
  simp [Table.mem_keys_iff, ownerOf_eq_ok_iff, owners_get? ho]

end

end NestedLayout.Hierarchy
