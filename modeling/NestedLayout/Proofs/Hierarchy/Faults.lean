import NestedLayout.Proofs.Hierarchy.Tree
import Mathlib.Data.List.Chain
import Mathlib.Data.List.TakeWhile

/-!
# Flaws of a diagram

When `Hierarchy.extract` returns no tree, it names one flaw of the diagram. `Diagram.Flaw` says
what each of these errors claims about the diagram, without any check.

* `extract_eq_error`: at which check or pass an extraction stops.
* `recordOwner_error`, `parentOf_error`, `ownerOf_error`: the flaws that single listings, areas and
  elements have.
* `climb_error`: a walk up that does not end has come back to a container, and the way between is a
  cycle of parents. It neither runs out of fuel nor comes to a container without a parent.
* `extract_error_genuine`: whatever the extraction reports is a flaw of the diagram.
-/

set_option autoImplicit false

namespace NestedLayout

namespace Diagram

/-- Ids of areas from one of them up to itself, each with the next one as its parent, and none of
them twice on the way. -/
structure Cyclic (d : Diagram) (ids : List String) : Prop where
  long : 2 ≤ ids.length
  closed : ids.head? = ids.getLast?
  simple : ids.dropLast.Nodup
  areas : ∀ id ∈ ids, d.areas.contains id = true
  parents : ids.IsChain d.ParentIs

/-- What is wrong with a diagram for which an error is reported. -/
inductive Flaw (d : Diagram) : DiagramError → Prop
  | missingRoot : d.areas.contains d.root = false → Flaw d (.missingRoot d.root)
  | rootHasParent {parent : String} : d.areas.contains d.root = true → d.ParentIs d.root parent →
      Flaw d (.rootHasParent d.root parent)
  | duplicateId {id : String} : d.areas.contains id = true → d.elements.contains id = true →
      Flaw d (.duplicateId id)
  | multipleOwners {item first second : String} : first ≠ second → d.Lists first item →
      d.Lists second item → Flaw d (.multipleOwners item first second)
  | unknownItem {area item : String} : d.Lists area item → d.areas.contains item = false →
      d.elements.contains item = false → Flaw d (.unknownItem area item)
  | unknownParent {area parent : String} : area ≠ d.root → (∀ a, ¬ d.Lists a area) →
      d.Declares area parent → d.areas.contains parent = false →
      Flaw d (.unknownParent area parent)
  | conflictingParent {area declared owner : String} : area ≠ d.root → d.Declares area declared →
      d.Lists owner area → declared ≠ owner → Flaw d (.conflictingParent area declared owner)
  | orphanContainer {area : String} : d.areas.contains area = true → area ≠ d.root →
      (∀ a, ¬ d.Lists a area) → (∀ parent, ¬ d.Declares area parent) →
      Flaw d (.orphanContainer area)
  | orphanElement {element : String} : d.elements.contains element = true →
      (∀ a, ¬ d.Lists a element) → Flaw d (.orphanElement element)
  | cycle {ids : List String} : d.Cyclic ids → Flaw d (.cycle ids)

end Diagram

namespace Hierarchy

open Diagram (Area Lists Declares ParentIs Cyclic Flaw)

variable {d : Diagram} {e : DiagramError}

/-! ## Where an extraction stops -/

/-- **A failed extraction**: the check or the pass at which it stops. -/
theorem extract_eq_error (h : extract d = .error e) :
    (d.areas.contains d.root = false ∧ e = .missingRoot d.root) ∨
    (∃ id, d.areas.keys.find? d.elements.contains = some id ∧ e = .duplicateId id) ∨
    listedOwners d = .error e ∨
    ∃ rootArea owners, d.areas.get? d.root = some rootArea ∧ listedOwners d = .ok owners ∧
      ((∃ parent, (owners.get? d.root).or rootArea.parent = some parent ∧
          e = .rootHasParent d.root parent) ∨
        parents d owners = .error e ∨ elementOwners d owners = .error e ∨
        ∃ ps, parents d owners = .ok ps ∧ depths d ps = .error e) := by
  simp only [extract, bind, Except.bind, pure, Except.pure] at h
  split at h
  · rename_i rootArea hr
    split at h
    · rename_i id hf
      cases h
      exact .inr (.inl ⟨id, hf, rfl⟩)
    · split at h
      · rename_i ho
        cases h
        exact .inr (.inr (.inl ho))
      · rename_i owners ho
        refine .inr (.inr (.inr ⟨rootArea, owners, hr, ho, ?_⟩))
        split at h
        · rename_i parent hp
          cases h
          exact .inl ⟨parent, hp, rfl⟩
        · split at h
          · rename_i hps
            cases h
            exact .inr (.inl hps)
          · rename_i ps hps
            split at h
            · rename_i hes
              cases h
              exact .inr (.inr (.inl hes))
            · split at h
              · rename_i hds
                cases h
                exact .inr (.inr (.inr ⟨ps, hps, hds⟩))
              · cases h
  · rename_i hr
    cases h
    exact .inl ⟨Table.get?_eq_none_iff.1 (Option.eq_none_iff_forall_ne_some.2 hr), rfl⟩

/-! ## Listings, parents and elements -/

/-- **A listing that is refused** names an unknown item, or the area itself, or an item of another
area. -/
theorem recordOwner_error {done : List (String × String)} {owners : IdTable String}
    {area item : String} (hd : Recorded d done owners) (hdone : ∀ l ∈ done, Lists d l.1 l.2)
    (hl : Lists d area item) (h : recordOwner d owners area item = .error e) : Flaw d e := by
  have hcontains : d.areas.contains area = true := by
    obtain ⟨a, ha, -⟩ := hl
    exact Table.contains_of_get? ha
  unfold recordOwner at h
  split at h
  · rename_i hn
    cases h
    rw [Bool.and_eq_true, Bool.not_eq_true', Bool.not_eq_true'] at hn
    exact .unknownItem hl hn.1 hn.2
  · split at h
    · rename_i hs
      cases h
      subst hs
      exact .cycle ⟨le_rfl, rfl, List.nodup_singleton _, by simpa using hcontains,
        .cons_cons (.inl hl) (.singleton _)⟩
    · split at h
      · rename_i owner ho
        split at h
        · cases h
        · rename_i hne
          cases h
          exact .multipleOwners hne (hdone _ ((hd.get? item owner).1 ho)) hl
      · cases h

theorem listedOwners_error (h : listedOwners d = .error e) : Flaw d e := by
  obtain ⟨done, l, rest, owners, hl, hd, hx⟩ := Fold.failsM (Recorded d) ⟨by simp, by simp, by simp⟩
    (fun _ _ _ _ _ _ hd hr => hd.record hr) h
  have hlists : ∀ l ∈ listings d, Lists d l.1 l.2 := fun l hl => mem_listings.1 hl
  rw [hl] at hlists
  exact recordOwner_error hd (fun l hm => hlists l (List.mem_append_left _ hm))
    (hlists l (by simp)) hx

section
variable {owners : IdTable String} (ho : listedOwners d = .ok owners)
include ho

/-- **An area whose parent is refused** is listed and declares another parent, or declares an
unknown one, or has none at all. -/
theorem parentOf_error {id : String} {area : Area} (ha : d.areas.get? id = some area)
    (hr : id ≠ d.root) (h : parentOf d owners id area = .error e) : Flaw d e := by
  unfold parentOf at h
  split at h
  · rename_i owner declared hown hdecl
    split at h
    · cases h
    · rename_i hne
      cases h
      exact .conflictingParent hr ⟨area, ha, hdecl⟩ ((owners_get? ho).1 hown) (Ne.symm hne)
  · cases h
  · rename_i declared hown hdecl
    split at h
    · cases h
    · rename_i hk
      cases h
      exact .unknownParent hr ((owners_none_iff ho).1 hown) ⟨area, ha, hdecl⟩
        (Bool.eq_false_iff.2 hk)
  · rename_i hown hdecl
    cases h
    refine .orphanContainer (Table.contains_of_get? ha) hr ((owners_none_iff ho).1 hown) ?_
    rintro parent ⟨a, ha', hp⟩
    cases ha.symm.trans ha'
    cases hdecl.symm.trans hp

theorem parents_error (h : parents d owners = .error e) : Flaw d e := by
  rw [parents_eq] at h
  obtain ⟨⟨id, area⟩, hm, hv⟩ := insertAll_eq_error h
  obtain ⟨ha, hr⟩ := mem_inner.1 hm
  exact parentOf_error ho ha hr hv

theorem elementOwners_error (h : elementOwners d owners = .error e) : Flaw d e := by
  rw [elementOwners_eq] at h
  obtain ⟨id, hm, hv⟩ := insertAll_eq_error h
  unfold ownerOf at hv
  split at hv
  · cases hv
  · rename_i hn
    cases hv
    exact .orphanElement (Table.mem_keys_iff.1 hm) ((owners_none_iff ho).1 hn)

end

/-! ## Cycles -/

section
variable {ps : IdTable String}

/-- The areas that a walk up has passed, and the one that it has come to: each has the next one as
its parent, and none was passed twice. -/
structure Trail (d : Diagram) (ps : IdTable String) (passed : List String) (id : String) :
    Prop where
  chain : (passed ++ [id]).IsChain fun c p => ps.get? c = some p
  simple : passed.Nodup
  areas : ∀ x ∈ passed ++ [id], d.areas.contains x = true

theorem Trail.start {id : String} (hid : d.areas.contains id = true) : Trail d ps [] id :=
  ⟨.singleton id, List.nodup_nil, by simpa using hid⟩

/-- A trail is no longer than the list of areas. -/
theorem Trail.length_le {passed : List String} {id : String} (ht : Trail d ps passed id) :
    passed.length ≤ d.areas.size := by
  rw [← Table.length_keys]
  refine (List.subperm_of_subset ht.simple fun x hx => ?_).length_le
  exact Table.mem_keys_iff.2 (ht.areas x (List.mem_append_left _ hx))

variable {owners : IdTable String} (ho : listedOwners d = .ok owners)
  (hps : parents d owners = .ok ps)
include ho hps

theorem Trail.up {passed : List String} {id parent : String} (ht : Trail d ps passed id)
    (hn : id ∉ passed) (hp : ps.get? id = some parent) : Trail d ps (passed ++ [id]) parent := by
  refine ⟨ht.chain.append (.singleton _) fun a ha b hb => ?_, ?_, fun x hx => ?_⟩
  · rw [List.getLast?_concat, Option.mem_some_iff] at ha
    rw [List.head?_singleton, Option.mem_some_iff] at hb
    rw [← ha, ← hb]
    exact hp
  · exact List.nodup_append.2 ⟨ht.simple, List.nodup_singleton _, fun a ha b hb => by
      rw [List.mem_singleton.1 hb]
      exact fun he => hn (he ▸ ha)⟩
  · rcases List.mem_append.1 hx with hx | hx
    · exact ht.areas x hx
    · rw [List.mem_singleton.1 hx]
      exact parents_known ho hps hp

/-- **A trail that comes back** to one of its areas ends in a cycle. -/
theorem Trail.cyclic {passed : List String} {id : String} (ht : Trail d ps passed id)
    (hm : id ∈ passed) : Cyclic d ((passed.dropWhile fun other => other != id) ++ [id]) := by
  have hsuffix := List.dropWhile_suffix (l := passed) fun other => other != id
  cases hw : passed.dropWhile fun other => other != id with
  | nil => simpa using List.dropWhile_eq_nil_iff.1 hw id hm
  | cons x rest =>
    have hx := List.head?_dropWhile_not (fun other => other != id) passed
    rw [hw] at hx hsuffix
    obtain rfl : x = id := by simpa using hx
    obtain ⟨front, hfront⟩ := hsuffix
    have hends : x :: rest ++ [x] <:+ passed ++ [x] := ⟨front, by rw [← hfront]; simp⟩
    refine ⟨by simp, ?_, ?_, fun y hy => ht.areas y (hends.subset hy), ?_⟩
    · rw [List.getLast?_concat]
      rfl
    · rw [List.dropLast_concat]
      exact ht.simple.sublist (hfront ▸ List.sublist_append_right front _)
    · refine (ht.chain.suffix hends).imp fun c p hp => ?_
      exact ((parents_get? ho hps).1 hp).2.2

/-- **A walk up that does not end** has found a cycle: the fuel is enough for all areas, and each of
them but the root has a parent. -/
theorem climb_error {ds : IdTable Nat} (htop : ds.get? d.root = some 0) {n : Nat}
    {passed : List String} {id : String} (ht : Trail d ps passed id)
    (hn : d.areas.size < n + passed.length) (h : climb ps ds n passed id = .error e) :
    ∃ ids, e = .cycle ids ∧ Cyclic d ids := by
  induction n generalizing passed id with
  | zero =>
    have := ht.length_le
    omega
  | succ n ih =>
    unfold climb at h
    split at h
    · cases h
    · rename_i hd
      split at h
      · rename_i hm
        cases h
        exact ⟨_, rfl, ht.cyclic ho hps (by simpa using hm)⟩
      · rename_i hm
        have hid := ht.areas id (by simp)
        have hr : id ≠ d.root := fun he => by
          rw [he, htop] at hd
          cases hd
        obtain ⟨parent, hp⟩ := exists_parent ho hps hid hr
        rw [hp] at h
        refine ih (ht.up ho hps (by simpa using hm) hp) ?_ h
        rw [List.length_append, List.length_singleton]
        omega

/-- **Depths are refused** for a cycle only. -/
theorem depths_error (h : depths d ps = .error e) : ∃ ids, e = .cycle ids ∧ Cyclic d ids := by
  obtain ⟨done, id, rest, ds, hl, hm, hx⟩ := Fold.failsM (MeasuredUpTo d.root ps) (.start _ _)
    (fun _ _ _ _ _ _ hm hok => hm.addDepth hok) h
  have hid : d.areas.contains id = true :=
    Table.mem_keys_iff.1 (hl ▸ List.mem_append_right _ (.head _))
  refine climb_error ho hps hm.top (.start hid) (n := d.areas.size + 1) (by simp) ?_
  unfold addDepth at hx
  cases hc : climb ps ds (d.areas.size + 1) [] id with
  | error e' => rw [hc] at hx; cases hx; rfl
  | ok found => rw [hc] at hx; cases hx

end

/-! ## Whatever is reported -/

/-- **An error of the extraction is a flaw of the diagram.** The walks that measure the depths stop
only at cycles: they never come to a container without a parent. -/
theorem extract_error_genuine (d : Diagram) :
    (∀ e, extract d = .error e → Flaw d e) ∧
    ∀ owners ps, listedOwners d = .ok owners → parents d owners = .ok ps →
      ∀ id, depths d ps ≠ .error (.orphanContainer id) := by
  refine ⟨fun e h => ?_, fun owners ps ho hps id h => ?_⟩
  · rcases extract_eq_error h with ⟨hr, rfl⟩ | ⟨id, hf, rfl⟩ | ho | ⟨rootArea, owners, hr, ho, h⟩
    · exact .missingRoot hr
    · exact .duplicateId (Table.mem_keys_iff.1 (List.mem_of_find?_eq_some hf))
        (List.find?_some hf)
    · exact listedOwners_error ho
    · rcases h with ⟨parent, hp, rfl⟩ | hps | hes | ⟨ps, hps, hds⟩
      · refine .rootHasParent (Table.contains_of_get? hr) ?_
        rcases Option.or_eq_some_iff.1 hp with hown | ⟨hnone, hdecl⟩
        · exact .inl ((owners_get? ho).1 hown)
        · exact .inr ⟨(owners_none_iff ho).1 hnone, rootArea, hr, hdecl⟩
      · exact parents_error ho hps
      · exact elementOwners_error ho hes
      · obtain ⟨ids, rfl, hc⟩ := depths_error ho hps hds
        exact .cycle hc
  · obtain ⟨ids, he, -⟩ := depths_error ho hps h
    cases he

/-- A walk from the first area runs into a cycle of three others, of which two are listed by their
parents and one declares its own. -/
def circling : Diagram where
  root := "root"
  areas := .ofList [("root", ⟨none, []⟩), ("A", ⟨none, []⟩), ("B", ⟨none, ["A", "D"]⟩),
    ("C", ⟨some "D", ["B"]⟩), ("D", ⟨none, []⟩)]
  elements := .empty
  connections := []

theorem circling_error_genuine :
    extract circling = .error (.cycle ["B", "C", "D", "B"]) ∧
      Flaw circling (.cycle ["B", "C", "D", "B"]) ∧
      ∃ owners ps, listedOwners circling = .ok owners ∧ parents circling owners = .ok ps ∧
        depths circling ps ≠ .error (.orphanContainer "A") := by
  obtain ⟨hfault, hdepths⟩ := extract_error_genuine circling
  exact ⟨rfl, hfault _ rfl, _, _, rfl, rfl, hdepths _ _ rfl rfl "A"⟩

end Hierarchy

end NestedLayout
