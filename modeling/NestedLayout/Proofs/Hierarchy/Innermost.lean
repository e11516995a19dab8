import NestedLayout.Proofs.Hierarchy.Derivation
import NestedLayout.Proofs.Hierarchy.Walk

/-!
# The innermost container around several

Of the containers around some others one is `Innermost`: it encloses them all, and whatever encloses
them all encloses it. A tree has at most one (`IsTree.innermost_unique`).

* `IsTree.innermost_lowestCommonAncestor`: the lowest common ancestor is the one around two
  containers. The walk up from the second comes to what is around both from the inside out.
* `IsTree.innermost_insert`: with one more container inside, the innermost one is the lowest common
  ancestor of that one and the one before. So a fold over any number of containers finds the one
  around them all (`IsTree.innermost_foldl`).
* `Connector.area_innermost`: the area of a connector is the innermost container around the owners
  of its endpoints.
-/

set_option autoImplicit false

namespace NestedLayout.Hierarchy

variable {h : Hierarchy}

/-- A container around all of some containers that is enclosed by whatever is around them all. -/
structure Innermost (h : Hierarchy) (inside : Set String) (a : String) : Prop where
  known : h.containers.contains a = true
  around : ∀ x ∈ inside, h.Encloses a x
  enclosed : ∀ b, (∀ x ∈ inside, h.Encloses b x) → h.Encloses b a
  deepest : ∀ b, (∀ x ∈ inside, h.Encloses b x) → h.depth b ≤ h.depth a

namespace IsTree

variable (t : h.IsTree)
include t

theorem encloses_antisymm {a b : String} (hab : h.Encloses a b) (hba : h.Encloses b a) : a = b :=
  t.eq_of_depth_eq hab (Nat.le_antisymm (t.depth_le hab) (t.depth_le hba))

theorem known_of_encloses {a b : String} (hab : h.Encloses a b)
    (hb : h.containers.contains b = true) : h.containers.contains a = true := by
  rcases Relation.ReflTransGen.cases_head hab with rfl | ⟨c, hp, -⟩
  · exact hb
  · exact t.parentKnown hp

/-! ## The walk up -/

/-- **The ancestors of a container** are itself and the containers around it. -/
theorem mem_ancestors_iff {id x : String} : x ∈ h.ancestors id ↔ h.Encloses x id := by
  refine ⟨encloses_of_mem_ancestors, fun hx => ?_⟩
  induction hx with
  | refl => exact .head _
  | tail _ hp ih => exact t.ancestors_of_parent hp ▸ .tail _ ih

/-- The walk up goes from the inside out. -/
theorem ancestors_pairwise {id : String} (hid : h.containers.contains id = true) :
    (h.ancestors id).Pairwise fun a b => h.Encloses b a := by
  have : IsTrans String fun a b => h.Encloses b a := ⟨fun _ _ _ hab hbc => hbc.trans hab⟩
  exact List.isChain_iff_pairwise.1
    ((t.ancestors_isChain hid).2.2.imp fun _ _ hp => Encloses.of_parent hp)

/-! ## Innermost containers -/

theorem innermost {inside : Set String} {a : String} (ha : h.containers.contains a = true)
    (haround : ∀ x ∈ inside, h.Encloses a x)
    (henclosed : ∀ b, (∀ x ∈ inside, h.Encloses b x) → h.Encloses b a) :
    h.Innermost inside a :=
  ⟨ha, haround, henclosed, fun b hb => t.depth_le (henclosed b hb)⟩

theorem innermost_singleton {a : String} (ha : h.containers.contains a = true) :
    h.Innermost {a} a :=
  t.innermost ha (fun x hx => by rw [Set.mem_singleton_iff.1 hx]; exact .refl a)
    fun _ hb => hb a rfl

/-- **There is one innermost container.** -/
theorem innermost_unique {inside : Set String} {a b : String} (ha : h.Innermost inside a)
    (hb : h.Innermost inside b) : a = b :=
  t.encloses_antisymm (hb.enclosed a ha.around) (ha.enclosed b hb.around)

/-- **The lowest common ancestor** of two containers is the innermost container around both. -/
theorem innermost_lowestCommonAncestor {a b : String} (ha : h.containers.contains a = true)
    (hb : h.containers.contains b = true) :
    h.Innermost {a, b} (h.lowestCommonAncestor a b) := by
  have hpair : ∀ {y}, (∀ x ∈ ({a, b} : Set String), h.Encloses y x) ↔
      h.Encloses y a ∧ h.Encloses y b := by simp
  have hcommon : ∀ {y}, (h.ancestors a).contains y = true ↔ h.Encloses y a := fun {y} => by
    rw [List.contains_iff_mem, t.mem_ancestors_iff]
  -- at the latest the walk comes to the root
  obtain ⟨x, hx⟩ := Option.isSome_iff_exists.1
    (List.find?_isSome.2 ⟨h.root, t.mem_ancestors_iff.2 (t.root_encloses hb),
      hcommon.2 (t.root_encloses ha)⟩)
  obtain ⟨hxa, before, after, hsplit, hbefore⟩ := List.find?_eq_some_iff_append.1 hx
  have hxb := t.mem_ancestors_iff.1 (List.mem_of_find?_eq_some hx)
  have hlowest : h.lowestCommonAncestor a b = x := by
    rw [lowestCommonAncestor, hx, Option.getD_some]
  rw [hlowest]
  refine t.innermost (t.known_of_encloses hxb hb) (hpair.2 ⟨hcommon.1 hxa, hxb⟩) fun y hy => ?_
  obtain ⟨hya, hyb⟩ := hpair.1 hy
  have hwalk := t.ancestors_pairwise hb
  have hmem := t.mem_ancestors_iff.2 hyb
  rw [hsplit] at hwalk hmem
  rcases List.mem_append.1 hmem with hy | hy
  · -- what comes before is not around `a`
    have hnot := hbefore y hy
    rw [hcommon.2 hya] at hnot
    cases hnot
  · rcases List.mem_cons.1 hy with rfl | hy
    · exact .refl y
    · exact (List.pairwise_cons.1 (List.pairwise_append.1 hwalk).2.1).1 y hy

theorem lowestCommonAncestor_comm {a b : String} (ha : h.containers.contains a = true)
    (hb : h.containers.contains b = true) :
    h.lowestCommonAncestor b a = h.lowestCommonAncestor a b :=
  t.innermost_unique (Set.pair_comm b a ▸ t.innermost_lowestCommonAncestor hb ha)
    (t.innermost_lowestCommonAncestor ha hb)

/-- **One more container inside** leads to the lowest common ancestor of it and the innermost
container so far. -/
theorem innermost_insert {inside : Set String} {a b : String} (ha : h.Innermost inside a)
    (hb : h.containers.contains b = true) :
    h.Innermost (insert b inside) (h.lowestCommonAncestor a b) := by
  have hlowest := t.innermost_lowestCommonAncestor ha.known hb
  have haround := hlowest.around
  simp only [Set.forall_mem_insert, Set.mem_singleton_iff, forall_eq] at haround
  refine t.innermost hlowest.known
    (Set.forall_mem_insert.2 ⟨haround.2, fun x hx => haround.1.trans (ha.around x hx)⟩)
    fun y hy => hlowest.enclosed y ?_
  obtain ⟨hyb, hy⟩ := Set.forall_mem_insert.1 hy
  simpa using ⟨ha.enclosed y hy, hyb⟩

/-- **Lowest common ancestors from left to right** lead to the innermost container around all. -/
theorem innermost_foldl {first : String} {rest : List String}
    (hknown : ∀ x ∈ first :: rest, h.containers.contains x = true) :
    h.Innermost {x | x ∈ first :: rest} (rest.foldl h.lowestCommonAncestor first) := by
  obtain ⟨hfirst, hrest⟩ := List.forall_mem_cons.1 hknown
  refine Fold.keeps (fun done a => h.Innermost {x | x ∈ first :: done} a)
    (by simpa using t.innermost_singleton hfirst) fun done b after a hs ha => ?_
  have hb : h.containers.contains b = true := hrest b (hs ▸ List.mem_append_right _ (.head _))
  have hinside : {x | x ∈ first :: (done ++ [b])} = insert b {x | x ∈ first :: done} := by
    ext x
    simp
    tauto
  exact hinside ▸ t.innermost_insert ha hb

end IsTree

end NestedLayout.Hierarchy

namespace NestedLayout.Connector

open Hierarchy (Innermost)

/-- The containers that own the elements. -/
def ownersOf (h : Hierarchy) (elements : List String) : Set String :=
  {x | ∃ e ∈ elements, h.owners.get? e = some x}

theorem enclosingArea_innermost {h : Hierarchy} (t : h.IsTree) {endpoints : List String}
    (hne : endpoints ≠ []) (howned : ∀ e ∈ endpoints, h.owners.contains e = true) :
    h.Innermost (ownersOf h endpoints) (enclosingArea h endpoints) := by
  have hmem : ∀ x, x ∈ endpoints.filterMap h.owners.get? ↔ x ∈ ownersOf h endpoints := fun x =>
    List.mem_filterMap
  have hknown : ∀ x ∈ endpoints.filterMap h.owners.get?, h.containers.contains x = true :=
    fun x hx => by
      obtain ⟨e, -, he⟩ := List.mem_filterMap.1 hx
      exact t.known_of_owner he
  unfold enclosingArea
  cases howners : endpoints.filterMap h.owners.get? with
  | nil =>
    obtain ⟨e, he⟩ := List.exists_mem_of_ne_nil endpoints hne
    obtain ⟨x, hx⟩ := Table.contains_iff.1 (howned e he)
    have hx := (hmem x).2 ⟨e, he, hx⟩
    rw [howners] at hx
    cases hx
  | cons first rest =>
    rw [howners] at hmem hknown
    have hinside : {x | x ∈ first :: rest} = ownersOf h endpoints := Set.ext hmem
    exact hinside ▸ t.innermost_foldl hknown

/-- **The area of a connector is the deepest container around its endpoints.** All endpoints have an
owner; the area is one of the containers around all these owners, and every other such container is
around the area. For any two containers the lowest common ancestor is likewise the deepest of the
containers that are or enclose both, whichever is given first. -/
theorem area_innermost {d : Diagram} {h : Hierarchy} (hh : Hierarchy.extract d = .ok h) :
    (∀ cs, derive d h = .ok cs → ∀ c ∈ cs,
      (∀ e ∈ c.endpoints, h.owners.contains e = true) ∧
        h.Innermost (ownersOf h c.endpoints) c.area) ∧
    ∀ a b, h.containers.contains a = true → h.containers.contains b = true →
      h.Innermost {a, b} (h.lowestCommonAncestor a b) ∧
        h.lowestCommonAncestor b a = h.lowestCommonAncestor a b := by
  have t := Hierarchy.extract_treeOf hh
  refine ⟨fun cs hc c hm => ?_, fun a b ha hb =>
    ⟨t.innermost_lowestCommonAncestor ha hb, t.lowestCommonAncestor_comm ha hb⟩⟩
  have hj := (derive_spec hc).joining c hm
  have howned : ∀ e ∈ c.endpoints, h.owners.contains e = true := fun e he =>
    (t.owned e).trans (hj.known e he)
  refine ⟨howned, ?_⟩
  rw [(derive_hubs_areas hc c hm).2]
  exact enclosingArea_innermost t.toIsTree (List.ne_nil_of_mem hj.hub) howned

/-- Two areas side by side in a third one, beside a fourth, with connectors between two, three and
four elements. -/
def crossing : Diagram :=
  .build "root" [.area "A" "root", .area "B" "A", .area "C" "A", .area "D" "root",
    .predicate "B" "p" "P", .vertex "C" "v" none, .vertex "A" "w" none, .vertex "D" "u" none,
    .connection (some "two") ["v", "p"], .connection (some "three") ["w", "v", "p"],
    .connection (some "four") ["p", "v", "w", "u"]]

theorem crossing_areas : ∃ h cs, Hierarchy.extract crossing = .ok h ∧
    derive crossing h = .ok cs ∧
    cs.map (fun c => (c.id, c.area)) = [("two", "A"), ("three", "A"), ("four", "root")] ∧
    (∀ c ∈ cs, h.Innermost (ownersOf h c.endpoints) c.area) ∧
    h.lowestCommonAncestor "B" "C" = "A" ∧ h.Innermost {"B", "C"} "A" := by
  obtain ⟨h, hh⟩ : ∃ h, Hierarchy.extract crossing = .ok h := ⟨_, rfl⟩
  obtain ⟨hareas, hlowest⟩ := area_innermost hh
  cases hh
  refine ⟨_, _, rfl, rfl, rfl, fun c hc => (hareas _ rfl c hc).2, rfl, ?_⟩
  exact (hlowest "B" "C" rfl rfl).1

end NestedLayout.Connector
