import NestedLayout.Proofs.Hierarchy.Tree

/-!
# Walks over a container tree

The bounded walks of `Hierarchy` visit what they should on a tree: a level bound of more than the
number of containers cuts nothing off.

* `Encloses`: the relation between a container and everything nested in it, itself included;
  `encloses_of_depth_le` makes the containers around one container a chain.
* `ancestors_of_parent`, `ancestors_isChain`: the walk up goes from parent to parent to the root.
* `mem_subtree`, `mem_preOrder`, `mem_postOrder`, `mem_subtreeElements`: what the walks visit.
* `preOrder_split`, `postOrder_split`: at each place of a walk, what was visited before and what
  comes later.
-/

set_option autoImplicit false

namespace NestedLayout.Hierarchy

variable {h : Hierarchy}

/-- The first container is the second one, or the second one is nested in it. -/
def Encloses (h : Hierarchy) : String → String → Prop :=
  Relation.ReflTransGen fun p c => h.parent? c = some p

theorem Encloses.refl (a : String) : h.Encloses a a := Relation.ReflTransGen.refl

theorem Encloses.trans {a b c : String} (hab : h.Encloses a b) (hbc : h.Encloses b c) :
    h.Encloses a c := Relation.ReflTransGen.trans hab hbc

theorem Encloses.of_parent {p c : String} (hp : h.parent? c = some p) : h.Encloses p c :=
  Relation.ReflTransGen.single hp

theorem known_of_parent {p c : String} (hp : h.parent? c = some p) :
    h.containers.contains c = true := by
  obtain ⟨n, hn, -⟩ := Option.bind_eq_some_iff.1 hp
  exact Table.contains_of_get? hn

theorem container?_parent {id : String} {c : Container} (hc : h.container? id = some c) :
    h.parent? id = c.parent := by
  rw [parent?, hc, Option.bind_some]

theorem container?_children {id : String} {c : Container} (hc : h.container? id = some c) :
    h.children id = c.children := by
  rw [children, hc, Option.map_some, Option.getD_some]

theorem container?_elements {id : String} {c : Container} (hc : h.container? id = some c) :
    h.elements id = c.elements := by
  rw [elements, hc, Option.map_some, Option.getD_some]

theorem Encloses.known {a b : String} (hab : h.Encloses a b)
    (ha : h.containers.contains a = true) : h.containers.contains b = true := by
  rcases Relation.ReflTransGen.cases_tail hab with rfl | ⟨p, -, hp⟩
  · exact ha
  · exact known_of_parent hp

theorem IsTree.known_of_owner (t : h.IsTree) {c e : String} (ho : h.owners.get? e = some c) :
    h.containers.contains c = true := by
  have he := t.mem_elements.2 ho
  cases hc : h.container? c with
  | none => simp [elements, hc] at he
  | some n => exact Table.contains_of_get? hc

theorem encloses_of_mem_chain {n : Nat} {id x : String} (hx : x ∈ h.chain n id) :
    h.Encloses x id := by
  induction n generalizing id with
  | zero => cases hx
  | succ n ih =>
    rcases List.mem_cons.1 hx with rfl | hx
    · exact .refl x
    · cases hp : h.parent? id with
      | none =>
        rw [hp] at hx
        cases hx
      | some p =>
        rw [hp] at hx
        exact (ih hx).trans (.of_parent hp)

theorem encloses_of_mem_ancestors {id x : String} (hx : x ∈ h.ancestors id) : h.Encloses x id :=
  encloses_of_mem_chain hx

theorem mem_above_iff_below {n : Nat} {id x : String} : x ∈ h.above n id ↔ x ∈ h.below n id := by
  induction n generalizing id with
  | zero => simp [above, below]
  | succ n ih => simp [above, below, List.mem_flatMap, ih, or_comm]

/-- What a walk from the outside in has done when it comes to a container. -/
structure InwardAt (h : Hierarchy) (done : List String) (id : String) : Prop where
  known : h.containers.contains id = true
  parentDone : ∀ {p}, h.parent? id = some p → p ∈ done
  notDone : id ∉ done
  childNotDone : ∀ {c}, h.parent? c = some id → c ∉ done

/-- A child of a container that is done is no child of the one at hand. -/
theorem InwardAt.notChild {done : List String} {id x p : String} (hat : InwardAt h done id)
    (t : h.IsTree) (hp : h.parent? x = some p) (hd : p ∈ done) : x ∉ h.children id := fun hx => by
  cases hp.symm.trans (t.mem_children.1 hx)
  exact hat.notDone hd

/-- What a walk from the inside out has done when it comes to a container. -/
structure OutwardAt (h : Hierarchy) (done : List String) (id : String) : Prop where
  known : h.containers.contains id = true
  nestedDone : ∀ {x}, h.Encloses id x → x ≠ id → x ∈ done
  aroundNotDone : ∀ {x}, h.Encloses x id → x ∉ done

namespace IsTree

variable (t : IsTree h)
include t

/-! ## Depths -/

theorem child_ne {p c : String} (hp : h.parent? c = some p) : c ≠ p := by
  rintro rfl
  have := t.depthChild hp
  omega

theorem depth_le {a b : String} (hab : h.Encloses a b) : h.depth a ≤ h.depth b := by
  induction hab with
  | refl => exact Nat.le_refl _
  | tail _ hp ih => have := t.depthChild hp; omega

theorem eq_of_depth_eq {a b : String} (hab : h.Encloses a b) (hd : h.depth a = h.depth b) :
    a = b := by
  rcases Relation.ReflTransGen.cases_tail hab with rfl | ⟨p, hap, hp⟩
  · rfl
  · have := t.depth_le hap
    have := t.depthChild hp
    omega

/-- Of two containers around a third one, the one that is not deeper encloses the other one. -/
theorem encloses_of_depth_le {a b x : String} (ha : h.Encloses a x) (hb : h.Encloses b x)
    (hd : h.depth a ≤ h.depth b) : h.Encloses a b := by
  induction hb with
  | refl => exact ha
  | @tail c x hbc hp ih =>
    rcases Relation.ReflTransGen.cases_tail ha with rfl | ⟨p, hap, hp'⟩
    · -- then `b` is not deeper than its own descendant's parent
      have := t.depth_le hbc
      have := t.depthChild hp
      omega
    · cases hp.symm.trans hp'
      exact ih hap

theorem eq_of_encloses {a b x : String} (ha : h.Encloses a x) (hb : h.Encloses b x)
    (hd : h.depth a = h.depth b) : a = b :=
  t.eq_of_depth_eq (t.encloses_of_depth_le ha hb hd.le) hd

theorem not_encloses_parent {p c : String} (hp : h.parent? c = some p) : ¬ h.Encloses c p := by
  intro hc
  have := t.depth_le hc
  have := t.depthChild hp
  omega

/-- Two children of one container share no descendant. -/
theorem siblings_disjoint {p a b x : String} (ha : h.parent? a = some p)
    (hb : h.parent? b = some p) (hax : h.Encloses a x) (hbx : h.Encloses b x) : a = b :=
  t.eq_of_encloses hax hbx ((t.depthChild ha).trans (t.depthChild hb).symm)

theorem root_encloses {id : String} (hid : h.containers.contains id = true) :
    h.Encloses h.root id := by
  generalize hn : h.depth id = n
  induction n generalizing id with
  | zero =>
    cases hp : h.parent? id with
    | none => rw [t.top hid hp]; exact .refl _
    | some p => have := t.depthChild hp; omega
  | succ n ih =>
    cases hp : h.parent? id with
    | none => rw [t.top hid hp]; exact .refl _
    | some p =>
      have hd := t.depthChild hp
      exact (ih (t.parentKnown hp) (by omega)).trans (.of_parent hp)

/-- Each level from the root down to a container has a container on it. -/
theorem exists_depth_eq {id : String} (hid : h.containers.contains id = true) :
    ∀ j ≤ h.depth id, ∃ x ∈ h.containers.keys, h.depth x = j := by
  generalize hn : h.depth id = n
  induction n generalizing id with
  | zero => exact fun j hj => ⟨id, Table.mem_keys_iff.2 hid, by omega⟩
  | succ n ih =>
    intro j hj
    rcases Nat.lt_or_ge n j with hlt | hle
    · exact ⟨id, Table.mem_keys_iff.2 hid, by omega⟩
    · cases hp : h.parent? id with
      | none => rw [t.top hid hp, t.depthRoot] at hn; omega
      | some p => exact ih (t.parentKnown hp) (by have := t.depthChild hp; omega) j hle

theorem depth_lt_size {id : String} (hid : h.containers.contains id = true) :
    h.depth id < h.size := by
  have := lt_length_of_levels (P := fun j x => h.depth x = j) (l := h.containers.keys)
    (fun _ _ _ hm hn => hm.symm.trans hn) (t.exists_depth_eq hid)
  rwa [Table.length_keys] at this

/-! ## The walk up -/

/-- The walk up ends at the root, so a longer bound changes nothing. -/
theorem chain_eq {n m : Nat} {id : String} (hn : h.depth id < n) (hm : h.depth id < m) :
    h.chain n id = h.chain m id := by
  induction n generalizing m id with
  | zero => omega
  | succ n ih =>
    obtain ⟨m, rfl⟩ : ∃ k, m = k + 1 := ⟨m - 1, by omega⟩
    rw [chain, chain]
    cases hp : h.parent? id with
    | none => rfl
    | some p =>
      have hd := t.depthChild hp
      exact congrArg _ (ih (by omega) (by omega))

theorem ancestors_root : h.ancestors h.root = [h.root] := by
  rw [ancestors, chain, t.rootTop]

/-- **The ancestors of a container** are itself and those of its parent. -/
theorem ancestors_of_parent {id p : String} (hp : h.parent? id = some p) :
    h.ancestors id = id :: h.ancestors p := by
  have hsize := t.depth_lt_size (t.parentKnown hp)
  rw [ancestors, chain, hp]
  exact congrArg _ (t.chain_eq hsize (by omega))

/-- **The chain of ancestors** goes from a container to its parent, and so on to the root. -/
theorem ancestors_isChain {id : String} (hid : h.containers.contains id = true) :
    (h.ancestors id).head? = some id ∧ (h.ancestors id).getLast? = some h.root ∧
      (h.ancestors id).IsChain fun c p => h.parent? c = some p := by
  generalize hn : h.depth id = n
  induction n generalizing id with
  | zero =>
    cases hp : h.parent? id with
    | none => rw [t.top hid hp, t.ancestors_root]; simp
    | some p => have := t.depthChild hp; omega
  | succ n ih =>
    cases hp : h.parent? id with
    | none => rw [t.top hid hp, t.depthRoot] at hn; omega
    | some p =>
      have hd := t.depthChild hp
      obtain ⟨hhead, hlast, hchain⟩ := ih (t.parentKnown hp) (by omega)
      obtain ⟨rest, hrest⟩ := List.head?_eq_some_iff.1 hhead
      rw [hrest] at hlast hchain
      rw [t.ancestors_of_parent hp, hrest]
      exact ⟨rfl, by rw [List.getLast?_cons, hlast, Option.getD_some], .cons_cons hp hchain⟩

/-- A container comes once in the chain of its ancestors. -/
theorem not_mem_of_prefix {id : String} {ids : List String}
    (hc : id :: ids <+: h.ancestors id) : id ∉ ids := fun hm => by
  cases hp : h.parent? id with
  | none =>
    rw [ancestors, chain, hp, List.cons_prefix_cons] at hc
    rw [List.prefix_nil.1 hc.2] at hm
    cases hm
  | some p =>
    rw [t.ancestors_of_parent hp, List.cons_prefix_cons] at hc
    exact t.not_encloses_parent hp (encloses_of_mem_ancestors (hc.2.subset hm))

/-! ## What the walks visit -/

theorem mem_below {n : Nat} {id x : String} :
    x ∈ h.below n id ↔ h.Encloses id x ∧ h.depth x < h.depth id + n := by
  induction n generalizing id with
  | zero =>
    refine iff_of_false (by simp [below]) fun ⟨he, hd⟩ => ?_
    have := t.depth_le he
    omega
  | succ n ih =>
    rw [below, List.mem_cons, List.mem_flatMap]
    refine ⟨?_, ?_⟩
    · rintro (rfl | ⟨c, hc, hx⟩)
      · exact ⟨.refl _, by omega⟩
      · have hp := t.mem_children.1 hc
        have hd := t.depthChild hp
        obtain ⟨he, hlt⟩ := ih.1 hx
        exact ⟨(Encloses.of_parent hp).trans he, by omega⟩
    · rintro ⟨he, hlt⟩
      rcases Relation.ReflTransGen.cases_head he with rfl | ⟨c, hp, hcx⟩
      · exact .inl rfl
      · have hd := t.depthChild hp
        exact .inr ⟨c, t.mem_children.2 hp, ih.2 ⟨hcx, by omega⟩⟩

/-- No chain of containers is longer than the walks reach. -/
theorem depth_lt_of_encloses {id x : String} (he : h.Encloses id x) :
    h.depth x < h.depth id + (h.size + 1) := by
  rcases Relation.ReflTransGen.cases_tail he with rfl | ⟨p, -, hp⟩
  · omega
  · have := t.depth_lt_size (known_of_parent hp)
    omega

/-- **A subtree** holds what its root encloses. -/
theorem mem_subtree {id x : String} : x ∈ h.subtree id ↔ h.Encloses id x :=
  t.mem_below.trans (and_iff_left_of_imp t.depth_lt_of_encloses)

theorem mem_preOrder {x : String} : x ∈ h.preOrder ↔ h.containers.contains x = true :=
  t.mem_subtree.trans ⟨fun he => he.known t.rootKnown, t.root_encloses⟩

theorem mem_postOrder {x : String} : x ∈ h.postOrder ↔ h.containers.contains x = true :=
  mem_above_iff_below.trans t.mem_preOrder

/-- **The elements of a subtree** are those whose container is in it. -/
theorem mem_subtreeElements {id e : String} :
    e ∈ h.subtreeElements id ↔ ∃ c, h.owners.get? e = some c ∧ h.Encloses id c := by
  simp only [subtreeElements, List.mem_flatMap, t.mem_subtree, t.mem_elements]
  exact ⟨fun ⟨c, he, ho⟩ => ⟨c, ho, he⟩, fun ⟨c, ho, he⟩ => ⟨c, he, ho⟩⟩

/-! ## The order of the walks -/

/-- A container is not among what is nested in its children. -/
theorem not_encloses_of_child {id c x : String} (hc : c ∈ h.children id) (hx : h.Encloses c x) :
    ¬ h.Encloses x id :=
  fun hxi => t.not_encloses_parent (t.mem_children.1 hc) (hx.trans hxi)

/-- What is nested in one child does not enclose what is nested in another one. -/
theorem not_encloses_across {id : String} {n : Nat} :
    (h.children id).Pairwise fun c c' => ∀ x ∈ h.below n c, ∀ y ∈ h.below n c',
      ¬ h.Encloses y x ∧ ¬ h.Encloses x y := by
  refine (t.nodupChildren id).imp_of_mem fun {c c'} hc hc' hne x hx y hy => ?_
  have hcx := (t.mem_below.1 hx).1
  have hcy := (t.mem_below.1 hy).1
  have hp := t.mem_children.1 hc
  have hp' := t.mem_children.1 hc'
  exact ⟨fun hyx => hne (t.siblings_disjoint hp hp' hcx (hcy.trans hyx)),
    fun hxy => hne (t.siblings_disjoint hp hp' (hcx.trans hxy) hcy)⟩

theorem below_pairwise (n : Nat) (id : String) :
    (h.below n id).Pairwise fun a b => ¬ h.Encloses b a := by
  induction n generalizing id with
  | zero => exact .nil
  | succ n ih =>
    rw [below, List.pairwise_cons, List.pairwise_flatMap]
    refine ⟨fun x hx => ?_, fun c _ => ih c, ?_⟩
    · obtain ⟨c, hc, hx⟩ := List.mem_flatMap.1 hx
      exact t.not_encloses_of_child hc (t.mem_below.1 hx).1
    · exact t.not_encloses_across.imp fun hcc x hx y hy => (hcc x hx y hy).1

theorem nodup_subtree (id : String) : (h.subtree id).Nodup :=
  (t.below_pairwise _ _).imp fun {a b} hne (he : a = b) => hne (he ▸ .refl a)

theorem nodup_preOrder : h.preOrder.Nodup := t.nodup_subtree _

/-- No element belongs to two containers of a subtree. -/
theorem nodup_subtreeElements (id : String) : (h.subtreeElements id).Nodup := by
  refine List.nodup_flatMap.2 ⟨fun p _ => t.nodupElements p, ?_⟩
  refine (t.nodup_subtree id).imp fun {p q} hne e hp hq => hne ?_
  exact Option.some.inj ((t.mem_elements.1 hp).symm.trans (t.mem_elements.1 hq))

theorem above_pairwise (n : Nat) (id : String) :
    (h.above n id).Pairwise fun a b => ¬ h.Encloses a b := by
  induction n generalizing id with
  | zero => exact .nil
  | succ n ih =>
    rw [above, List.pairwise_append, List.pairwise_flatMap]
    refine ⟨⟨fun c _ => ih c, ?_⟩, List.pairwise_singleton _ _, fun x hx y hy => ?_⟩
    · exact t.not_encloses_across.imp fun hcc x hx y hy =>
        (hcc x (mem_above_iff_below.1 hx) y (mem_above_iff_below.1 hy)).2
    · obtain ⟨c, hc, hx⟩ := List.mem_flatMap.1 hx
      rw [List.mem_singleton.1 hy]
      exact t.not_encloses_of_child hc (t.mem_below.1 (mem_above_iff_below.1 hx)).1

theorem nodup_postOrder : h.postOrder.Nodup :=
  (t.above_pairwise _ _).imp fun {a b} hne (he : a = b) => hne (he ▸ .refl a)

/-- A walk from the outside in comes to a container before all that is nested in it. -/
theorem not_mem_done_of_encloses {done rest : List String} {id x : String}
    (hs : h.preOrder = done ++ id :: rest) (hx : h.Encloses id x) : x ∉ done := fun hd => by
  have hpw := t.below_pairwise (h.size + 1) h.root
  rw [show h.below (h.size + 1) h.root = _ from hs, List.pairwise_append] at hpw
  exact hpw.2.2 x hd id (.head _) hx

/-- **A walk from the outside in** comes to a container after its parent and before its
children. -/
theorem preOrder_split {done rest : List String} {id : String}
    (hs : h.preOrder = done ++ id :: rest) : InwardAt h done id := by
  have hpw := t.below_pairwise (h.size + 1) h.root
  rw [show h.below (h.size + 1) h.root = _ from hs, List.pairwise_append] at hpw
  obtain ⟨-, hpw, -⟩ := hpw
  have hmem : ∀ {x}, h.containers.contains x = true ↔ x ∈ done ∨ x = id ∨ x ∈ rest := fun {x} => by
    rw [← t.mem_preOrder, hs]
    simp
  refine ⟨hmem.2 (.inr (.inl rfl)), fun {p} hp => ?_, t.not_mem_done_of_encloses hs (.refl id),
    fun {c} hc => t.not_mem_done_of_encloses hs (.of_parent hc)⟩
  rcases hmem.1 (t.parentKnown hp) with h' | rfl | h'
  · exact h'
  · exact absurd rfl (t.child_ne hp)
  · exact absurd (.of_parent hp) ((List.pairwise_cons.1 hpw).1 p h')

/-- **A walk from the inside out** comes to a container after all that is nested in it and before
all that is around it. -/
theorem postOrder_split {done rest : List String} {id : String}
    (hs : h.postOrder = done ++ id :: rest) : OutwardAt h done id := by
  have hpw := t.above_pairwise (h.size + 1) h.root
  rw [show h.above (h.size + 1) h.root = _ from hs, List.pairwise_append] at hpw
  obtain ⟨-, hpw, hcross⟩ := hpw
  have hmem : ∀ {x}, h.containers.contains x = true ↔ x ∈ done ∨ x = id ∨ x ∈ rest := fun {x} => by
    rw [← t.mem_postOrder, hs]
    simp
  have hid := hmem.2 (.inr (.inl rfl))
  refine ⟨hid, fun {x} hx hne => ?_, fun {x} hx hd => hcross x hd id (.head _) hx⟩
  rcases hmem.1 (hx.known hid) with h' | rfl | h'
  · exact h'
  · exact absurd rfl hne
  · exact absurd hx ((List.pairwise_cons.1 hpw).1 x h')

end IsTree

end NestedLayout.Hierarchy
