import NestedLayout.Proofs.Hierarchy.Derivation
import NestedLayout.Proofs.Hierarchy.Shape

/-!
# Diagrams that are built step by step

A diagram grows from its empty root by steps. They are in order (`Diagram.InOrder`) when each adds
something new to an area that is there, or connects elements that are there. However areas,
elements and connections follow on each other, the diagram then has a container tree and
connectors, and the tree is what the steps say.

* `Sound`: what holds of the ids in steps that are in order, found step by step (`Sound.next`).
* `Grown`: the diagram shows exactly what the steps add; `Grown.apply` is one step.
* `Grown.wellFormed`, `Grown.connectable`: so no check of the extraction and of the connectors
  can fail.
* `build_extracts`: the tree of the diagram, read off the steps.
-/

set_option autoImplicit false

namespace NestedLayout.Diagram

/-! ## What steps add -/

namespace Step

/-- The area that a step adds, with its parent. -/
def area? : Step → Option (String × String)
  | .area id parent => some (id, parent)
  | _ => none

/-- The element that a step adds, with its area. -/
def element? : Step → Option (String × String)
  | .vertex owner id _ => some (id, owner)
  | .predicate owner id _ => some (id, owner)
  | _ => none

/-- What a step adds, with the area that it is added to. -/
def added? (s : Step) : Option (String × String) := s.area?.or s.element?

end Step

/-- The areas that steps add, in order, each with its parent. -/
def addedAreas (steps : List Step) : List (String × String) := steps.filterMap Step.area?

/-- The elements that steps add, in order, each with its area. -/
def addedElements (steps : List Step) : List (String × String) := steps.filterMap Step.element?

/-- All that steps add, in order. -/
def added (steps : List Step) : List (String × String) := steps.filterMap Step.added?

/-- The ids of a list of additions that went to one area. -/
def addedTo (area : String) (additions : List (String × String)) : List String :=
  (additions.filter fun e => e.2 == area).map (·.1)

/-- The id is that of the root or of an area that the steps add. -/
def HasArea (root : String) (steps : List Step) (id : String) : Prop :=
  id = root ∨ id ∈ (addedAreas steps).map (·.1)

/-- The id is that of an element that the steps add. -/
def HasElement (steps : List Step) (id : String) : Prop := id ∈ (addedElements steps).map (·.1)

/-- The id is not used yet. -/
def Unused (root : String) (steps : List Step) (id : String) : Prop :=
  ¬ HasArea root steps id ∧ ¬ HasElement steps id

instance (root : String) (steps : List Step) (id : String) : Decidable (HasArea root steps id) :=
  inferInstanceAs (Decidable (_ ∨ _))

instance (steps : List Step) (id : String) : Decidable (HasElement steps id) :=
  inferInstanceAs (Decidable (_ ∈ _))

instance (root : String) (steps : List Step) (id : String) : Decidable (Unused root steps id) :=
  inferInstanceAs (Decidable (_ ∧ _))

/-- A step that may come after the given ones: it adds something new to an area that is there, or
connects two or more different elements that are there. -/
def Step.MayFollow (root : String) (done : List Step) : Step → Prop
  | .area id parent => Unused root done id ∧ HasArea root done parent
  | .vertex owner id _ => Unused root done id ∧ HasArea root done owner
  | .predicate owner id _ => Unused root done id ∧ HasArea root done owner
  | .connect source target => HasElement done source ∧ HasElement done target ∧ source ≠ target
  | .connection _ endpoints =>
    (∀ e ∈ endpoints, HasElement done e) ∧ ∃ a ∈ endpoints, ∃ b ∈ endpoints, a ≠ b

instance (root : String) (done : List Step) : (s : Step) → Decidable (s.MayFollow root done)
  | .area _ _ | .vertex _ _ _ | .predicate _ _ _ | .connect _ _ | .connection _ _ =>
    inferInstanceAs (Decidable (_ ∧ _))

/-- Steps of which each may come after the given ones and those before it. -/
def InOrder (root : String) : List Step → List Step → Prop
  | _, [] => True
  | done, s :: rest => s.MayFollow root done ∧ InOrder root (done ++ [s]) rest

def InOrder.decide (root : String) :
    (done steps : List Step) → Decidable (InOrder root done steps)
  | _, [] => inferInstanceAs (Decidable True)
  | done, s :: rest =>
    haveI := InOrder.decide root (done ++ [s]) rest
    inferInstanceAs (Decidable (_ ∧ _))

instance (root : String) (done steps : List Step) : Decidable (InOrder root done steps) :=
  InOrder.decide root done steps

section
variable {steps : List Step} {s : Step} {e : String × String}

theorem mem_addedAreas_append :
    e ∈ addedAreas (steps ++ [s]) ↔ e ∈ addedAreas steps ∨ s.area? = some e := by
  simp [addedAreas]

theorem mem_addedElements_append :
    e ∈ addedElements (steps ++ [s]) ↔ e ∈ addedElements steps ∨ s.element? = some e := by
  simp [addedElements]

theorem mem_added_append : e ∈ added (steps ++ [s]) ↔ e ∈ added steps ∨ s.added? = some e := by
  simp [added]

theorem added?_eq_some_iff : s.added? = some e ↔ s.area? = some e ∨ s.element? = some e := by
  cases s <;> simp [Step.added?, Step.area?, Step.element?]

theorem mem_added : e ∈ added steps ↔ e ∈ addedAreas steps ∨ e ∈ addedElements steps := by
  simp only [added, addedAreas, addedElements, List.mem_filterMap, added?_eq_some_iff, and_or_left,
    exists_or]

theorem mem_addedTo {area id : String} {additions : List (String × String)} :
    id ∈ addedTo area additions ↔ (id, area) ∈ additions := by
  simp [addedTo]

theorem nodup_addedTo {area : String} {additions : List (String × String)}
    (h : (additions.map (·.1)).Nodup) : (addedTo area additions).Nodup :=
  h.sublist (List.filter_sublist.map _)

theorem addedTo_append (area : String) (additions more : List (String × String)) :
    addedTo area (additions ++ more) = addedTo area additions ++ addedTo area more := by
  simp [addedTo]

theorem addedTo_singleton (area id owner : String) :
    addedTo area [(id, owner)] = if area = owner then [id] else [] := by
  by_cases h : owner = area
  · simp [addedTo, h]
  · simp [addedTo, h, Ne.symm h]

end

/-! ## Steps in order -/

/-- What holds of the ids in steps that are in order: everything is added once, to an area that is
there, and from each area a chain of parents leads to the root. -/
structure Sound (root : String) (steps : List Step) : Prop where
  rootFree : ∀ p, (root, p) ∉ added steps
  notToItself : ∀ id, (id, id) ∉ added steps
  known : ∀ {id p}, (id, p) ∈ added steps → HasArea root steps p
  once : ((added steps).map (·.1)).Nodup
  apart : ∀ {id}, HasArea root steps id → ¬ HasElement steps id
  rooted : ∀ {id}, HasArea root steps id →
    Relation.ReflTransGen (fun c p => (c, p) ∈ addedAreas steps) id root

theorem Sound.start (root : String) : Sound root [] where
  rootFree _ h := nomatch h
  notToItself _ h := nomatch h
  known h := nomatch h
  once := List.nodup_nil
  apart _ h := nomatch h
  rooted h := by
    rcases h with rfl | h
    · exact .refl
    · cases h

section
variable {root : String} {done : List Step} {s : Step}

theorem HasArea.append {id : String} (h : HasArea root done id) : HasArea root (done ++ [s]) id :=
  h.imp_right fun hm => by
    obtain ⟨e, he, rfl⟩ := List.mem_map.1 hm
    exact List.mem_map_of_mem (mem_addedAreas_append.2 (.inl he))

theorem hasArea_append_iff {id : String} :
    HasArea root (done ++ [s]) id ↔ HasArea root done id ∨ ∃ p, s.area? = some (id, p) := by
  simp only [HasArea, List.mem_map, mem_addedAreas_append, Prod.exists, exists_and_right,
    exists_eq_right, exists_or, or_assoc]

theorem hasElement_append_iff {id : String} :
    HasElement (done ++ [s]) id ↔ HasElement done id ∨ ∃ p, s.element? = some (id, p) := by
  simp only [HasElement, List.mem_map, mem_addedElements_append, Prod.exists, exists_and_right,
    exists_eq_right, exists_or]

theorem hasArea_of_mem {id p : String} (h : (id, p) ∈ addedAreas done) : HasArea root done id :=
  .inr (List.mem_map_of_mem h)

theorem hasElement_of_mem {id p : String} (h : (id, p) ∈ addedElements done) :
    HasElement done id := List.mem_map_of_mem (f := (·.1)) h

theorem Unused.not_mem {id p : String} (h : Unused root done id) : (id, p) ∉ added done :=
  fun hm => (mem_added.1 hm).elim (fun hm => h.1 (hasArea_of_mem hm))
    fun hm => h.2 (hasElement_of_mem hm)

theorem append_of_added?_eq_none (done : List Step) (hs : s.added? = none) :
    added (done ++ [s]) = added done ∧ addedAreas (done ++ [s]) = addedAreas done ∧
    addedElements (done ++ [s]) = addedElements done := by
  obtain ⟨harea, helement⟩ := Option.or_eq_none_iff.1 hs
  simp [added, addedAreas, addedElements, hs, harea, helement]

/-- A step that adds nothing leaves the ids as they are. -/
theorem Sound.skip (h : Sound root done) (hs : s.added? = none) : Sound root (done ++ [s]) := by
  obtain ⟨hadded, hareas, helements⟩ := append_of_added?_eq_none done hs
  constructor <;> simp only [HasArea, HasElement, hadded, hareas, helements]
  exacts [h.rootFree, h.notToItself, h.known, h.once, h.apart, h.rooted]

/-- **A step that adds something new** to an area that is there keeps the ids sound. -/
theorem Sound.add (h : Sound root done) {id p : String} (hs : s.added? = some (id, p))
    (hu : Unused root done id) (hp : HasArea root done p) : Sound root (done ++ [s]) := by
  have hne : id ≠ p := fun he => hu.1 (he ▸ hp)
  have hcases : ∀ {e}, e ∈ added (done ++ [s]) ↔ e ∈ added done ∨ e = (id, p) := fun {e} => by
    rw [mem_added_append, hs, Option.some.injEq, eq_comm (a := e)]
  refine
    { rootFree := fun q hq => ?_
      notToItself := fun x hx => ?_
      known := fun {x q} hx => ?_
      once := ?once
      apart := fun {x} hx he => ?apart
      rooted := fun {x} hx => ?rooted }
  · rcases hcases.1 hq with hq | hq
    · exact h.rootFree q hq
    · cases hq
      exact hu.1 (.inl rfl)
  · rcases hcases.1 hx with hx | hx
    · exact h.notToItself x hx
    · cases hx
      exact hne rfl
  · rcases hcases.1 hx with hx | hx
    · exact (h.known hx).append
    · cases hx
      exact hp.append
  case once =>
    -- an id that was added before is in use
    have hadded : added (done ++ [s]) = added done ++ [(id, p)] := by simp [added, hs]
    rw [hadded, List.map_append, List.map_singleton, List.nodup_append]
    refine ⟨h.once, List.nodup_singleton _, fun x hx y hy he => ?_⟩
    obtain ⟨e, he', rfl⟩ := List.mem_map.1 hx
    obtain rfl := List.mem_singleton.1 hy
    exact hu.not_mem (p := e.2) (he ▸ he')
  case apart =>
    rcases hasArea_append_iff.1 hx with hx | ⟨q, hx⟩ <;>
      rcases hasElement_append_iff.1 he with he | ⟨q', he⟩
    · exact h.apart hx he
    · cases hs.symm.trans (added?_eq_some_iff.2 (.inr he))
      exact hu.1 hx
    · cases hs.symm.trans (added?_eq_some_iff.2 (.inl hx))
      exact hu.2 he
    · cases s <;> simp [Step.area?, Step.element?] at hx he
  case rooted =>
    -- the new area climbs to its parent, and from there the old steps lead on
    have hmono : ∀ {x}, HasArea root done x →
        Relation.ReflTransGen (fun c p => (c, p) ∈ addedAreas (done ++ [s])) x root := fun hx =>
      Relation.ReflTransGen.mono (fun _ _ hm => mem_addedAreas_append.2 (.inl hm)) _ _ (h.rooted hx)
    rcases hasArea_append_iff.1 hx with hx | ⟨q, hx⟩
    · exact hmono hx
    · cases hs.symm.trans (added?_eq_some_iff.2 (.inl hx))
      exact .head (mem_addedAreas_append.2 (.inr hx)) (hmono hp)

/-- **One more step in order.** -/
theorem Sound.next (h : Sound root done) (hs : s.MayFollow root done) :
    Sound root (done ++ [s]) := by
  cases s with
  | area id parent => exact h.add rfl hs.1 hs.2
  | vertex area id name => exact h.add rfl hs.1 hs.2
  | predicate area id text => exact h.add rfl hs.1 hs.2
  | connect source target => exact h.skip rfl
  | connection id endpoints => exact h.skip rfl

end

/-! ## Diagrams that show what was added -/

/-- The diagram shows exactly what the steps add. -/
structure Grown (root : String) (steps : List Step) (d : Diagram) : Prop where
  rootArea : d.root = root
  areas : ∀ {id}, d.areas.contains id = true ↔ HasArea root steps id
  parents : ∀ {id a}, d.areas.get? id = some a →
    ∀ p, a.parent = some p ↔ (id, p) ∈ addedAreas steps
  items : ∀ {id a}, d.areas.get? id = some a → a.items = addedTo id (added steps)
  elements : ∀ {id}, d.elements.contains id = true ↔ HasElement steps id
  connects : ∀ {a b}, d.ConnectsTo a b → HasElement steps b ∧ a ≠ b
  joins : ∀ k ∈ d.connections, (∀ e ∈ k.endpoints, HasElement steps e) ∧
    ∃ a ∈ k.endpoints, ∃ b ∈ k.endpoints, a ≠ b

theorem withRoot_get? {root id : String} {a : Area} :
    (withRoot root).areas.get? id = some a ↔ id = root ∧ a = ⟨none, []⟩ := by
  rw [withRoot, Table.get?_insert_eq]
  by_cases h : id = root <;> simp [h, eq_comm (a := a)]

theorem Grown.start (root : String) : Grown root [] (withRoot root) where
  rootArea := rfl
  areas {id} := by simp [Table.contains_iff, withRoot_get?, HasArea, addedAreas]
  parents ha p := by
    obtain ⟨-, rfl⟩ := withRoot_get?.1 ha
    exact iff_of_false (fun h => nomatch h) fun h => nomatch h
  items ha := by
    obtain ⟨-, rfl⟩ := withRoot_get?.1 ha
    rfl
  elements := iff_of_false (fun h => nomatch h) fun h => nomatch h
  connects h := nomatch h
  joins _ h := nomatch h

section
variable {root : String} {done : List Step} {d : Diagram} {s : Step}

/-- **Listing a new item** in an area changes what this area lists, at its end, and nothing
else. -/
theorem listItem_get? {owner item : String} {spec : Area} (ha : d.areas.get? owner = some spec)
    (hnew : item ∉ spec.items) {id : String} {a : Area} :
    (d.listItem owner item).areas.get? id = some a ↔ ∃ old, d.areas.get? id = some old ∧
      a = { old with items := old.items ++ if id = owner then [item] else [] } := by
  simp only [listItem, ha, Option.getD_some, appendNew, List.contains_iff_mem, hnew, if_false,
    Table.get?_insert_eq]
  by_cases hid : id = owner
  · subst hid
    simp [ha, eq_comm]
  · simp [hid, eq_comm]

theorem HasElement.append {id : String} (h : HasElement done id) : HasElement (done ++ [s]) id :=
  hasElement_append_iff.2 (.inl h)

/-- Listing a new item adds it at the end of what was added to the area. -/
theorem Grown.listed (hg : Grown root done d) {e : Diagram} {owner item : String}
    (hs : s.added? = some (item, owner)) (hu : Unused root done item)
    (ho : HasArea root done owner)
    (hareas : ∀ id, id ≠ item → e.areas.get? id = d.areas.get? id)
    (hfresh : ∀ a, e.areas.get? item = some a → a.items = addedTo item (added done)) :
    (∀ {id}, (e.listItem owner item).areas.contains id = true ↔ e.areas.contains id = true) ∧
      ∀ {id a}, (e.listItem owner item).areas.get? id = some a →
        a.items = addedTo id (added (done ++ [s])) ∧
          ∃ old, e.areas.get? id = some old ∧ a.parent = old.parent := by
  have hne : owner ≠ item := fun he => hu.1 (he ▸ ho)
  obtain ⟨spec, ha⟩ := Table.contains_iff.1 (hg.areas.2 ho)
  have hnew : item ∉ spec.items := by
    rw [hg.items ha, mem_addedTo]
    exact hu.not_mem
  have hget := fun id a => (listItem_get? ((hareas owner hne).trans ha) hnew :
    (e.listItem owner item).areas.get? id = some a ↔ _)
  have hadded : added (done ++ [s]) = added done ++ [(item, owner)] := by simp [added, hs]
  refine ⟨fun {id} => ?_, fun {id a} h => ?_⟩
  · simp [Table.contains_iff, hget]
  · obtain ⟨old, hold, rfl⟩ := (hget id a).1 h
    refine ⟨?_, old, hold, rfl⟩
    have hitems : old.items = addedTo id (added done) := by
      by_cases hid : id = item
      · subst hid
        exact hfresh old hold
      · exact hg.items ((hareas id hid).symm.trans hold)
    rw [hadded, addedTo_append, addedTo_singleton, hitems]

/-- **A new area.** -/
theorem Grown.area (hg : Grown root done d) (hs : Sound root done) {id parent : String}
    (hu : Unused root done id) (hp : HasArea root done parent) :
    Grown root (done ++ [.area id parent]) (d.addArea id parent) := by
  have hspec : d.areas.get? id = none :=
    Option.eq_none_iff_forall_ne_some.2 fun a ha => hu.1 (hg.areas.1 (Table.contains_of_get? ha))
  have hempty : addedTo id (added done) = [] := List.eq_nil_iff_forall_not_mem.2 fun x hx =>
    hu.1 (hs.known (mem_addedTo.1 hx))
  -- the area is entered without items, and then listed in its parent
  let e : Diagram := { d with areas := d.areas.insert id ⟨some parent, []⟩ }
  have he : d.addArea id parent = e.listItem parent id := by simp [addArea, hspec, e]
  have hself : e.areas.get? id = some ⟨some parent, []⟩ := Table.get?_insert_self _ _ _
  have hothers : ∀ x, x ≠ id → e.areas.get? x = d.areas.get? x := fun x hx =>
    Table.get?_insert_ne _ _ hx
  obtain ⟨hcontains, hlisted⟩ := hg.listed (e := e) (s := .area id parent) rfl hu hp hothers
    fun a ha => by
      cases hself.symm.trans ha
      exact hempty.symm
  rw [he]
  refine
    { rootArea := hg.rootArea
      areas := fun {x} => ?_
      parents := fun {x a} ha p => ?_
      items := fun ha => (hlisted ha).1
      elements := fun {x} => ?_
      connects := fun hc => ?_
      joins := fun k hk => ?_ }
  · rw [hcontains, Table.contains_insert_iff, hg.areas, hasArea_append_iff]
    simp [Step.area?, or_comm, eq_comm]
  · obtain ⟨-, old, hold, hparent⟩ := hlisted ha
    rw [hparent, mem_addedAreas_append]
    by_cases hx : x = id
    · subst hx
      cases hself.symm.trans hold
      have hnot : (x, p) ∉ addedAreas done := fun hm => hu.1 (hasArea_of_mem hm)
      simp [Step.area?, hnot]
    · rw [hg.parents ((hothers x hx).symm.trans hold)]
      simp [Step.area?, Ne.symm hx]
  · exact hg.elements.trans (by simp [hasElement_append_iff, Step.element?])
  · exact ⟨(hg.connects hc).1.append, (hg.connects hc).2⟩
  · exact ⟨fun e he => ((hg.joins k hk).1 e he).append, (hg.joins k hk).2⟩

/-- **A new element.** -/
theorem Grown.element (hg : Grown root done d) {id owner text : String} {kind : ElementKind}
    (hstep : s.area? = none ∧ s.element? = some (id, owner))
    (hu : Unused root done id) (ho : HasArea root done owner) :
    Grown root (done ++ [s]) (d.addElement owner id kind text) := by
  have hspec : d.elements.get? id = none :=
    Option.eq_none_iff_forall_ne_some.2 fun a ha =>
      hu.2 (hg.elements.1 (Table.contains_of_get? ha))
  let e : Diagram := { d with elements := d.elements.insert id ⟨kind, text, []⟩ }
  have he : d.addElement owner id kind text = e.listItem owner id := by
    simp [addElement, hspec, e]
  have hs : s.added? = some (id, owner) := by simp [Step.added?, hstep]
  obtain ⟨hcontains, hlisted⟩ := hg.listed (e := e) hs hu ho (fun _ _ => rfl)
    fun a ha => absurd (hg.areas.1 (Table.contains_of_get? ha)) hu.1
  rw [he]
  refine
    { rootArea := hg.rootArea
      areas := fun {x} => ?_
      parents := fun {x a} ha p => ?_
      items := fun ha => (hlisted ha).1
      elements := fun {x} => ?_
      connects := fun {a b} hc => ?_
      joins := fun k hk => ?_ }
  · rw [hcontains, hasArea_append_iff]
    exact hg.areas.trans (by simp [hstep.1])
  · obtain ⟨-, old, hold, hparent⟩ := hlisted ha
    rw [hparent, hg.parents hold, mem_addedAreas_append]
    simp [hstep.1]
  · show (d.elements.insert id _).contains x = true ↔ _
    rw [Table.contains_insert_iff, hg.elements, hasElement_append_iff, hstep.2]
    simp [or_comm, eq_comm]
  · -- the new element connects to nothing yet
    obtain ⟨el, hel, hb⟩ := hc
    have hel : (d.elements.insert id ⟨kind, text, []⟩).get? a = some el := hel
    rw [Table.get?_insert_eq] at hel
    split at hel
    · cases hel
      cases hb
    · exact (hg.connects ⟨el, hel, hb⟩).imp_left HasElement.append
  · exact (hg.joins k hk).imp_left fun h e he => (h e he).append

/-- A step that adds nothing leaves what the diagram shows of areas and elements. -/
theorem Grown.skip (hg : Grown root done d) (hs : s.added? = none) {e : Diagram}
    (hroot : e.root = d.root) (hareas : e.areas = d.areas)
    (helements : ∀ id, e.elements.contains id = d.elements.contains id)
    (hconnects : ∀ {a b}, e.ConnectsTo a b → HasElement done b ∧ a ≠ b)
    (hjoins : ∀ k ∈ e.connections, (∀ x ∈ k.endpoints, HasElement done x) ∧
      ∃ a ∈ k.endpoints, ∃ b ∈ k.endpoints, a ≠ b) : Grown root (done ++ [s]) e := by
  obtain ⟨hadded, haddedAreas, haddedElements⟩ := append_of_added?_eq_none done hs
  constructor <;> simp only [HasArea, HasElement, hadded, haddedAreas, haddedElements, hroot,
    hareas, helements]
  exacts [hg.rootArea, hg.areas, hg.parents, hg.items, hg.elements, hconnects, hjoins]

/-- **A new connection of an element.** -/
theorem Grown.connect (hg : Grown root done d) {source target : String}
    (ht : HasElement done target) (hne : source ≠ target) :
    Grown root (done ++ [.connect source target]) (d.connect source target) := by
  refine hg.skip rfl rfl rfl (fun id => ?_) (fun {a b} hc => ?_) hg.joins
  · show (Table.modify _ _ _).contains id = _
    rw [Table.contains, Table.contains, Table.get?_modify]
    split <;> simp
  · obtain ⟨el, hel, hb⟩ := hc
    have hel : (d.elements.modify source _).get? a = some el := hel
    rw [Table.get?_modify] at hel
    split at hel
    · rename_i ha
      obtain ⟨old, hold, rfl⟩ := Option.map_eq_some_iff.1 hel
      rcases Connector.mem_appendNew.1 hb with hb | rfl
      · exact hg.connects ⟨old, hold, hb⟩
      · exact ⟨ht, ha ▸ hne⟩
    · exact hg.connects ⟨el, hel, hb⟩

/-- **A new connection between elements.** -/
theorem Grown.connection (hg : Grown root done d) {id : Option String} {endpoints : List String}
    (hk : ∀ e ∈ endpoints, HasElement done e) (hs : ∃ a ∈ endpoints, ∃ b ∈ endpoints, a ≠ b) :
    Grown root (done ++ [.connection id endpoints]) (d.addConnection id endpoints) := by
  refine hg.skip rfl rfl rfl (fun _ => rfl) (fun hc => hg.connects hc) fun k hm => ?_
  rcases List.mem_append.1 hm with hm | hm
  · exact hg.joins k hm
  · obtain rfl := List.mem_singleton.1 hm
    exact ⟨hk, hs⟩

/-- **One step in order** adds to the diagram what it says. -/
theorem Grown.apply (hg : Grown root done d) (hs : Sound root done)
    (hm : s.MayFollow root done) : Grown root (done ++ [s]) (d.apply s) := by
  cases s with
  | area id parent => exact hg.area hs hm.1 hm.2
  | vertex owner id name => exact hg.element ⟨rfl, rfl⟩ hm.1 hm.2
  | predicate owner id text => exact hg.element ⟨rfl, rfl⟩ hm.1 hm.2
  | connect source target => exact hg.connect hm.2.1 hm.2.2
  | connection id endpoints => exact hg.connection hm.1 hm.2

/-- **All steps in order** together build a diagram that shows them. -/
theorem grown_foldl {rest : List Step} (hr : InOrder root done rest) (hs : Sound root done)
    (hg : Grown root done d) :
    Sound root (done ++ rest) ∧ Grown root (done ++ rest) (rest.foldl Diagram.apply d) := by
  induction rest generalizing done d with
  | nil => rw [List.append_nil]; exact ⟨hs, hg⟩
  | cons s rest ih =>
    have := ih hr.2 (hs.next hr.1) (hg.apply hs hr.1)
    rwa [List.append_assoc] at this

end

theorem grown_build {root : String} {steps : List Step} (hr : InOrder root [] steps) :
    Sound root steps ∧ Grown root steps (build root steps) :=
  grown_foldl hr (.start root) (.start root)

/-! ## What is built -/

section
variable {root : String} {steps : List Step} {d : Diagram}

/-- Nothing was added twice. -/
theorem Sound.unique (h : Sound root steps) {id a b : String} (ha : (id, a) ∈ added steps)
    (hb : (id, b) ∈ added steps) : a = b :=
  congrArg Prod.snd (List.inj_on_of_nodup_map h.once ha hb rfl)

theorem Grown.lists_iff (hg : Grown root steps d) (hs : Sound root steps) {p id : String} :
    d.Lists p id ↔ (id, p) ∈ added steps := by
  refine ⟨fun ⟨a, ha, hm⟩ => ?_, fun hm => ?_⟩
  · rwa [hg.items ha, mem_addedTo] at hm
  · obtain ⟨a, ha⟩ := Table.contains_iff.1 (hg.areas.2 (hs.known hm))
    exact ⟨a, ha, by rwa [hg.items ha, mem_addedTo]⟩

theorem Grown.mem_of_declares (hg : Grown root steps d) {id p : String}
    (h : d.Declares id p) : (id, p) ∈ addedAreas steps := by
  obtain ⟨a, ha, hp⟩ := h
  exact (hg.parents ha p).1 hp

theorem exists_of_hasElement {id : String} (h : HasElement steps id) :
    ∃ p, (id, p) ∈ addedElements steps := by
  obtain ⟨⟨_, p⟩, hm, rfl⟩ := List.mem_map.1 h
  exact ⟨p, hm⟩

/-- **The areas form a tree.** -/
theorem Grown.wellFormed (hg : Grown root steps d) (hs : Sound root steps) : d.WellFormed := by
  have hlists : ∀ {p id}, d.Lists p id ↔ (id, p) ∈ added steps := hg.lists_iff hs
  have hadded : ∀ id, d.areas.contains id = true → id ≠ root → ∃ p, (id, p) ∈ added steps :=
    fun id hid hne => by
      obtain ⟨⟨_, p⟩, hm, rfl⟩ := List.mem_map.1 ((hg.areas.1 hid).resolve_left hne)
      exact ⟨p, mem_added.2 (.inl hm)⟩
  have hroot := hg.rootArea
  subst hroot
  exact
    { rootDeclared := hg.areas.2 (.inl rfl)
      idsApart := fun id hid => Bool.eq_false_iff.2 fun he =>
        hs.apart (hg.areas.1 hid) (hg.elements.1 he)
      itemsKnown := fun p id hm => (mem_added.1 (hlists.1 hm)).imp
        (fun hm => hg.areas.2 (hasArea_of_mem hm)) fun hm => hg.elements.2 (hasElement_of_mem hm)
      noSelf := fun id hm => hs.notToItself id (hlists.1 hm)
      oneOwner := fun id a b ha hb => hs.unique (hlists.1 ha) (hlists.1 hb)
      rootUnlisted := fun p hm => hs.rootFree p (hlists.1 hm)
      rootUndeclared := fun p hm => hs.rootFree p (mem_added.2 (.inl (hg.mem_of_declares hm)))
      placed := fun id hid hne => .inl ((hadded id hid hne).imp fun p hm => hlists.2 hm)
      agree := fun id a b _ ha hb =>
        hs.unique (hlists.1 ha) (mem_added.2 (.inl (hg.mem_of_declares hb)))
      owned := fun e he => (exists_of_hasElement (hg.elements.1 he)).imp fun p hm =>
        hlists.2 (mem_added.2 (.inr hm))
      rooted := fun id hid => Relation.ReflTransGen.mono
        (fun c p hm => .inl (hlists.2 (mem_added.2 (.inl hm)))) _ _ (hs.rooted (hg.areas.1 hid)) }

/-- **All connections are between different elements.** -/
theorem Grown.connectable (hg : Grown root steps d) : d.Connectable where
  explicit k hk := by
    obtain ⟨hknown, a, ha, b, hb, hne⟩ := hg.joins k hk
    exact ⟨fun e he => hg.elements.2 (hknown e he), a, b, ha, hb, hne⟩
  targetsKnown _ _ h := hg.elements.2 (hg.connects h).1
  noSelf _ h := (hg.connects h).2 rfl

theorem filter_addedTo (p : String) (l : List (String × String)) (f : String → Bool) :
    (addedTo p l).filter f = addedTo p (l.filter fun e => f e.1) := by
  simp [addedTo, List.filter_map, Function.comp_def, List.filter_filter, Bool.and_comm]

theorem Sound.filter_areas (hs : Sound root steps) {f : String → Bool}
    (hf : ∀ {id}, f id = true ↔ HasArea root steps id) :
    (added steps).filter (fun e => f e.1) = addedAreas steps := by
  rw [added, addedAreas, List.filter_filterMap]
  refine List.filterMap_congr fun s hm => ?_
  cases ha : s.area? with
  | some e =>
    have hin : f e.1 = true := hf.2 (hasArea_of_mem (List.mem_filterMap.2 ⟨s, hm, ha⟩))
    simp [Step.added?, ha, Option.filter, hin]
  | none =>
    cases he : s.element? with
    | some e =>
      have hel : HasElement steps e.1 := hasElement_of_mem (List.mem_filterMap.2 ⟨s, hm, he⟩)
      have hout : f e.1 = false := Bool.eq_false_iff.2 fun h => hs.apart (hf.1 h) hel
      simp [Step.added?, ha, he, Option.filter, hout]
    | none => simp [Step.added?, ha, he]

theorem Sound.filter_elements (hs : Sound root steps) {f : String → Bool}
    (hf : ∀ {id}, f id = true ↔ HasElement steps id) :
    (added steps).filter (fun e => f e.1) = addedElements steps := by
  rw [added, addedElements, List.filter_filterMap]
  refine List.filterMap_congr fun s hm => ?_
  cases ha : s.area? with
  | some e =>
    have harea : HasArea root steps e.1 := hasArea_of_mem (List.mem_filterMap.2 ⟨s, hm, ha⟩)
    have hout : f e.1 = false := Bool.eq_false_iff.2 fun h => hs.apart harea (hf.1 h)
    have hnone : s.element? = none := by cases s <;> simp_all [Step.area?, Step.element?]
    simp [Step.added?, ha, hnone, Option.filter, hout]
  | none =>
    cases he : s.element? with
    | some e =>
      have hin : f e.1 = true := hf.2 (hasElement_of_mem (List.mem_filterMap.2 ⟨s, hm, he⟩))
      simp [Step.added?, ha, he, Option.filter, hin]
    | none => simp [Step.added?, ha, he]

end

end NestedLayout.Diagram

namespace NestedLayout.Hierarchy

open Diagram

/-- The tree is what the steps say: its containers are the root and the areas that they add, each
below the one it was added to, with its children and elements in the order of the steps. -/
structure BuiltBy (root : String) (steps : List Diagram.Step) (h : Hierarchy) : Prop where
  rootArea : h.root = root
  containers : ∀ id, h.containers.contains id = true ↔ HasArea root steps id
  parent : ∀ id p, h.parent? id = some p ↔ (id, p) ∈ addedAreas steps
  owner : ∀ e p, h.owners.get? e = some p ↔ (e, p) ∈ addedElements steps
  children : ∀ p, h.children p = addedTo p (addedAreas steps)
  elements : ∀ p, h.elements p = addedTo p (addedElements steps)

section
variable {root : String} {steps : List Diagram.Step} {d : Diagram} {h : Hierarchy}

theorem eraseDups_of_nodup {l : List String} (hn : l.Nodup) : l.eraseDups = l := by
  induction l with
  | nil => rfl
  | cons a l ih =>
    obtain ⟨ha, hl⟩ := List.nodup_cons.1 hn
    have hfilter : l.filter (fun b => !b == a) = l := List.filter_eq_self.2 fun b hb => by
      simpa using fun he : b = a => ha (he ▸ hb)
    rw [List.eraseDups_cons, hfilter, ih hl]

/-- A container lists what its area lists, when nothing only declares its parent. -/
theorem extract_lists (he : extract d = .ok h)
    (hlisted : ∀ id p, Declares d id p → ∃ a, Lists d a id) {p : String} {a : Area}
    (ha : d.areas.get? p = some a) :
    h.children p = a.items.eraseDups.filter d.areas.contains ∧
      h.elements p = a.items.eraseDups.filter d.elements.contains := by
  obtain ⟨-, owners, ps, es, ds, -, -, ho, -, -, -, -, rfl⟩ := extract_eq_ok_iff.1 he
  have hdeclared : declaredChildren d owners p = [] :=
    List.eq_nil_iff_forall_not_mem.2 fun id hid => by
      obtain ⟨-, -, hl, hd⟩ := (mem_declaredChildren ho).1 hid
      exact (hlisted id p hd).elim hl
  have hc : (treeWith d owners ps es ds).container? p = some (node d owners ps ds p a) := by
    rw [treeWith_container?, ha, Option.map_some]
  refine ⟨?_, ?_⟩
  · show (treeWith d owners ps es ds).children p = _
    rw [Hierarchy.children, hc]
    show _ ++ declaredChildren d owners p = _
    rw [hdeclared, List.append_nil]
  · show (treeWith d owners ps es ds).elements p = _
    rw [Hierarchy.elements, hc]
    rfl

/-- **The tree of a diagram that shows the steps.** -/
theorem builtBy_of_grown (hg : Grown root steps d) (hs : Sound root steps)
    (he : extract d = .ok h) : BuiltBy root steps h := by
  have t := extract_treeOf he
  have hlists : ∀ p, h.children p = addedTo p (addedAreas steps) ∧
      h.elements p = addedTo p (addedElements steps) := fun p => by
    cases ha : d.areas.get? p with
    | some a =>
      have hlisted := extract_lists he (fun id q hd =>
        ⟨q, (hg.lists_iff hs).2 (mem_added.2 (.inl (hg.mem_of_declares hd)))⟩) ha
      rwa [hg.items ha, eraseDups_of_nodup (nodup_addedTo hs.once), filter_addedTo, filter_addedTo,
        hs.filter_areas hg.areas, hs.filter_elements hg.elements] at hlisted
    | none =>
      have hout : ¬ HasArea root steps p := fun hp => by
        simpa [Table.contains, ha] using hg.areas.2 hp
      have hnone : h.container? p = none := Table.get?_eq_none_iff.2 <| by
        rw [t.known, Table.contains, ha]
        rfl
      have hempty : ∀ l ⊆ added steps, addedTo p l = [] := fun l hl =>
        List.eq_nil_iff_forall_not_mem.2 fun x hx => hout (hs.known (hl (mem_addedTo.1 hx)))
      rw [hempty _ fun _ hm => mem_added.2 (.inl hm), hempty _ fun _ hm => mem_added.2 (.inr hm)]
      simp [Hierarchy.children, Hierarchy.elements, hnone]
  refine
    { rootArea := t.root.trans hg.rootArea
      containers := fun id => by rw [t.known]; exact hg.areas
      parent := fun id p => by rw [← t.mem_children, (hlists p).1, mem_addedTo]
      owner := fun e p => by rw [← t.mem_elements, (hlists p).2, mem_addedTo]
      children := fun p => (hlists p).1
      elements := fun p => (hlists p).2 }

/-- **Steps in order build a diagram with a tree and connectors**, and the tree is what the steps
say. -/
theorem build_extracts (hr : InOrder root [] steps) :
    ∃ h cs, extract (build root steps) = .ok h ∧ Connector.derive (build root steps) h = .ok cs ∧
      BuiltBy root steps h := by
  obtain ⟨hs, hg⟩ := grown_build hr
  obtain ⟨h, he⟩ := (extract_isOk_iff_wellFormed _).2 (hg.wellFormed hs)
  obtain ⟨cs, hc⟩ := Connector.derive_ok_iff.2 hg.connectable
  exact ⟨h, cs, he, hc, builtBy_of_grown hg hs he⟩

/-- Areas and elements in turn, an area below one that came after an element, and connections in
between. -/
def interleaved : List Diagram.Step :=
  [.area "A" "sheet", .vertex "A" "v" none, .predicate "sheet" "p" "P", .connect "p" "v",
    .area "B" "A", .vertex "B" "w" (some "W"), .connection none ["w", "v", "w"],
    .area "C" "sheet", .vertex "A" "u" none]

theorem interleaved_builtBy : InOrder "sheet" [] interleaved ∧
    ∃ h, extract (build "sheet" interleaved) = .ok h ∧ BuiltBy "sheet" interleaved h ∧
      h.children "sheet" = ["A", "C"] ∧ h.elements "A" = ["v", "u"] ∧
      h.parent? "B" = some "A" ∧ h.owners.get? "w" = some "B" := by
  have hr : InOrder "sheet" [] interleaved := by decide
  obtain ⟨h, -, he, -, hb⟩ := build_extracts hr
  exact ⟨hr, h, he, hb, hb.children _, hb.elements _, (hb.parent _ _).2 (by decide),
    (hb.owner _ _).2 (by decide)⟩

end

end NestedLayout.Hierarchy
