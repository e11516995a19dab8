import NestedLayout.Proofs.Hierarchy.Shape
import NestedLayout.Proofs.Space.Requirement

/-!
# Growth of requirements

A requirement that has to grow is recorded, and its ancestors are recomputed up to the first that
does not exceed what is recorded for it.

* `climb_climbed`, `propagate_propagated`: what one change does to a ledger, as a list of facts
  (`Climbed`, `Propagated`) from which the rest follows without the recursion.
* `Covers`: a container has what its contents ask for, up to the tolerance. `grow_covers`: a step of
  growth keeps that for all containers, also for those at which it stops and those beyond.
* `growth_covered`: so it holds throughout every sequence of steps.
-/

set_option autoImplicit false

namespace NestedLayout

open Scalar (epsilon)

/-! ## Sizes -/

namespace Requirement

/-- The second requirement is no smaller on either axis. -/
structure NoMoreThan (r r' : Requirement ℝ) : Prop where
  width : r.minWidth ≤ r'.minWidth
  height : r.minHeight ≤ r'.minHeight

/-- With one more footprint a requirement is no smaller than before. -/
theorem noMoreThan_grown {spacing : Spacing ℝ} (hg : 0 ≤ spacing.gap) (r : Requirement ℝ)
    (width : ℝ) {height : ℝ} (hh : 0 ≤ height) : r.NoMoreThan (r.grown spacing width height) := by
  constructor <;> simp only [grown, ofMinimum, Scalar.max_real]
  · exact le_max_left _ _
  · linarith

end Requirement

namespace SpaceLedger

/-! ## One change -/

section
variable {α : Type} [Scalar α] {l : SpaceLedger α} {h : Hierarchy} {extents : IdTable (Extent α)}

/-- What the walk up from a container does: it goes along the ancestors, records for each what its
children ask for, and stops before the first for which that is not more than what is recorded. -/
structure Climbed (l : SpaceLedger α) (h : Hierarchy) (extents : IdTable (Extent α)) (id : String)
    (out : SpaceLedger α × List String) : Prop where
  frame : out.1 = { l with requirements := out.1.requirements }
  chain : id :: out.2 <+: h.ancestors id
  unchanged : ∀ {x}, x ∉ out.2 → out.1.requirements.get? x = l.requirements.get? x
  recomputed : ∀ {x}, x ∈ out.2 →
    out.1.requirements.get? x = some (out.1.requirementOf h extents x)
  exceeded : ∀ {x}, x ∈ out.2 →
    exceeds (out.1.requirementOf h extents x) (l.requirements.get? x) = true
  stopped : ∀ {c x}, c ∈ id :: out.2 → h.parent? c = some x → x ∉ out.2 →
    exceeds (out.1.requirementOf h extents x) (out.1.requirements.get? x) = false

/-- A walk that stops at once. -/
theorem Climbed.stay {id : String}
    (hstop : ∀ {x}, h.parent? id = some x →
      exceeds (l.requirementOf h extents x) (l.requirements.get? x) = false) :
    Climbed l h extents id (l, []) where
  frame := rfl
  chain := List.cons_prefix_cons.2 ⟨rfl, List.nil_prefix⟩
  unchanged _ := rfl
  recomputed hx := absurd hx List.not_mem_nil
  exceeded hx := absurd hx List.not_mem_nil
  stopped hc hp _ := hstop (List.mem_singleton.1 hc ▸ hp)

/-- A walk that goes on from the parent. -/
theorem Climbed.up (t : h.IsTree) {id p : String} {out : SpaceLedger α × List String}
    (hp : h.parent? id = some p)
    (hexc : exceeds (l.requirementOf h extents p) (l.requirements.get? p) = true)
    (hc : Climbed (l.require p (l.requirementOf h extents p)) h extents p out) :
    Climbed l h extents id (out.1, p :: out.2) := by
  -- what follows on the walk encloses the parent, so it is neither the parent nor a child of it
  have hnot := t.not_mem_of_prefix hc.chain
  have hchild : ∀ c ∈ h.children p, c ∉ p :: out.2 := fun c hcp hm =>
    t.not_encloses_parent (t.mem_children.1 hcp)
      (Hierarchy.encloses_of_mem_ancestors (hc.chain.subset hm))
  have hold : ∀ {x}, x ∉ p :: out.2 → out.1.requirements.get? x = l.requirements.get? x :=
    fun {x} hx => by
      rw [List.mem_cons, not_or] at hx
      rw [hc.unchanged hx.2, get?_require, if_neg hx.1]
  have hspacing : out.1.spacing = l.spacing := by
    rw [hc.frame]
    rfl
  have hsame : out.1.requirementOf h extents p = l.requirementOf h extents p :=
    requirementOf_congr hspacing fun c hcp => hold (hchild c hcp)
  refine ⟨hc.frame, ?_, hold, fun {x} hx => ?_, fun {x} hx => ?_, fun {c x} hcm hcp hx => ?_⟩
  · rw [t.ancestors_of_parent hp]
    exact List.cons_prefix_cons.2 ⟨rfl, hc.chain⟩
  · rcases List.mem_cons.1 hx with rfl | hx
    · rw [hc.unchanged hnot, get?_require, if_pos rfl, hsame]
    · exact hc.recomputed hx
  · rcases List.mem_cons.1 hx with rfl | hx
    · rw [hsame]
      exact hexc
    · have hne : x ≠ p := fun he => hnot (he ▸ hx)
      have := hc.exceeded hx
      rwa [get?_require, if_neg hne] at this
  · rw [List.mem_cons, not_or] at hx
    rcases List.mem_cons.1 hcm with rfl | hcm
    · exact absurd (Option.some.inj (hcp.symm.trans hp)) hx.1
    · exact hc.stopped hcm hcp hx.2

/-- **The walk up** is as described when its bound is the depth of the container or more. -/
theorem climb_climbed (t : h.IsTree) {n : Nat} {id : String} (hn : h.depth id ≤ n) :
    Climbed l h extents id (climb h extents n l (h.parent? id)) := by
  induction n generalizing l id with
  | zero =>
    refine .stay fun {p} hp => ?_
    have := t.depthChild hp
    omega
  | succ n ih =>
    cases hp : h.parent? id with
    | none =>
      rw [climb.eq_2 _ _ _ _ (Nat.succ_ne_zero n)]
      exact .stay fun {p} hp' => nomatch hp.symm.trans hp'
    | some p =>
      have hd := t.depthChild hp
      rw [climb]
      split
      · rename_i hexc
        exact .up t hp hexc (ih (by omega))
      · rename_i hexc
        refine .stay fun {x} hx => ?_
        cases hp.symm.trans hx
        exact Bool.eq_false_iff.2 hexc

/-- What a new requirement of a container does to the ledger. -/
structure Propagated (l : SpaceLedger α) (h : Hierarchy) (extents : IdTable (Extent α))
    (id : String) (r : Requirement α) (out : SpaceLedger α × List String) : Prop where
  frame : out.1 = { l with requirements := out.1.requirements }
  chain : out.2 <+: h.ancestors id
  own : id ∈ out.2 ∧ out.1.requirements.get? id = some r
  unchanged : ∀ {x}, x ∉ out.2 → out.1.requirements.get? x = l.requirements.get? x
  recomputed : ∀ {x}, x ∈ out.2 → x ≠ id →
    out.1.requirements.get? x = some (out.1.requirementOf h extents x)
  exceeded : ∀ {x}, x ∈ out.2 → x ≠ id →
    exceeds (out.1.requirementOf h extents x) (l.requirements.get? x) = true
  stopped : ∀ {c x}, c ∈ out.2 → h.parent? c = some x → x ∉ out.2 →
    exceeds (out.1.requirementOf h extents x) (out.1.requirements.get? x) = false

theorem Propagated.spacing {id : String} {r : Requirement α} {out : SpaceLedger α × List String}
    (q : Propagated l h extents id r out) : out.1.spacing = l.spacing := by
  rw [q.frame]

/-- The walk comes to no child of the container. -/
theorem Propagated.child_not_mem (t : h.IsTree) {id : String} {r : Requirement α}
    {out : SpaceLedger α × List String} (q : Propagated l h extents id r out) {c : String}
    (hc : c ∈ h.children id) : c ∉ out.2 := fun hm =>
  t.not_encloses_parent (t.mem_children.1 hc)
    (Hierarchy.encloses_of_mem_ancestors (q.chain.subset hm))

/-- **A change goes up the chain of ancestors** as far as it makes them grow, and nowhere else. -/
theorem propagate_propagated (t : h.IsTree) (l : SpaceLedger α) (extents : IdTable (Extent α))
    {id : String} (r : Requirement α) (hid : h.containers.contains id = true) :
    Propagated l h extents id r (l.propagate h extents id r) := by
  have hd := t.depth_lt_size hid
  have hc : Climbed (l.require id r) h extents id
      (climb h extents (h.size + 1) (l.require id r) (h.parent? id)) := climb_climbed t (by omega)
  have hnot := t.not_mem_of_prefix hc.chain
  refine ⟨hc.frame, hc.chain, ⟨.head _, ?_⟩, fun {x} hx => ?_, fun {x} hx hne => ?_,
    fun {x} hx hne => ?_, fun {c x} hcm hp hx => ?_⟩
  · show (climb h extents (h.size + 1) (l.require id r) (h.parent? id)).1.requirements.get? id = _
    rw [hc.unchanged hnot, get?_require, if_pos rfl]
  · obtain ⟨hne, hx⟩ := not_or.1 (mt List.mem_cons.2 hx)
    exact (hc.unchanged hx).trans ((get?_require _ _ _ _).trans (if_neg hne))
  · exact hc.recomputed ((List.mem_cons.1 hx).resolve_left hne)
  · have := hc.exceeded ((List.mem_cons.1 hx).resolve_left hne)
    rwa [get?_require, if_neg hne] at this
  · exact hc.stopped hcm hp (not_or.1 (mt List.mem_cons.2 hx)).2

end

/-! ## Steps of growth -/

/-- A container that is asked for room for one more footprint. -/
structure Growth (α : Type) where
  container : String
  width : α
  height : α

section
variable {α : Type} [Scalar α]

/-- One step of growth; with the ids of all containers whose requirement was recorded anew. -/
def grow (l : SpaceLedger α) (h : Hierarchy) (extents : IdTable (Extent α)) (g : Growth α) :
    SpaceLedger α × List String :=
  match l.grownRequirement? g.container g.width g.height with
  | some r => l.propagate h extents g.container r
  | none => (l, [])

/-- Steps of growth one after the other. -/
def growAll (l : SpaceLedger α) (h : Hierarchy) (extents : IdTable (Extent α))
    (steps : List (Growth α)) : SpaceLedger α :=
  steps.foldl (fun l g => (l.grow h extents g).1) l

end

/-- A step for a container of the tree with a footprint that has a size. -/
structure Growth.Proper (h : Hierarchy) (g : Growth ℝ) : Prop where
  known : h.containers.contains g.container = true
  width : 0 ≤ g.width
  height : 0 ≤ g.height

/-- A container is recorded with as much as its elements and the recorded requirements of its
children ask for, up to the tolerance. -/
def Covers (l : SpaceLedger ℝ) (h : Hierarchy) (extents : IdTable (Extent ℝ)) (id : String) :
    Prop :=
  ∃ r, l.requirements.get? id = some r ∧
    (l.requirementOf h extents id).minWidth - epsilon ≤ r.minWidth ∧
    (l.requirementOf h extents id).minHeight - epsilon ≤ r.minHeight

theorem exceeds_eq_false_iff {r : Requirement ℝ} {o : Option (Requirement ℝ)} :
    exceeds r o = false ↔ ∃ old, o = some old ∧
      r.minWidth - epsilon ≤ old.minWidth ∧ r.minHeight - epsilon ≤ old.minHeight := by
  cases o with
  | none => simp [exceeds]
  | some old =>
    simp [exceeds]

section
variable {l : SpaceLedger ℝ} {h : Hierarchy} {extents : IdTable (Extent ℝ)}

theorem covers_iff {id : String} : l.Covers h extents id ↔
    exceeds (l.requirementOf h extents id) (l.requirements.get? id) = false :=
  exceeds_eq_false_iff.symm

theorem covers_of_eq {id : String}
    (hr : l.requirements.get? id = some (l.requirementOf h extents id)) :
    l.Covers h extents id := by
  have := Scalar.epsilon_pos
  exact ⟨_, hr, by linarith, by linarith⟩

/-- A step of growth for a container with a requirement. -/
theorem grow_eq {g : Growth ℝ} {r : Requirement ℝ}
    (hr : l.requirements.get? g.container = some r) :
    l.grow h extents g =
      l.propagate h extents g.container (r.grown l.spacing g.width g.height) := by
  simp only [grow, grownRequirement?, hr, Option.map_some]

/-- What a step does for a container with a requirement. -/
theorem grow_propagated (t : h.IsTree) {g : Growth ℝ}
    (hid : h.containers.contains g.container = true) {r : Requirement ℝ}
    (hr : l.requirements.get? g.container = some r) :
    Propagated l h extents g.container (r.grown l.spacing g.width g.height)
      (l.grow h extents g) := by
  rw [grow_eq hr]
  exact propagate_propagated t l extents _ hid

/-- **A step of growth keeps every container covered.** The container itself has more than before,
those that were recomputed have exactly what they ask for, the walk stopped at one that is covered,
and nothing changed for all others. -/
theorem grow_covers (t : h.IsTree) (hg : 0 ≤ l.spacing.gap)
    (hl : ∀ id, h.containers.contains id = true → l.Covers h extents id) {g : Growth ℝ}
    (hp : g.Proper h) :
    ∀ id, h.containers.contains id = true → (l.grow h extents g).1.Covers h extents id := by
  obtain ⟨r, hr, hw, hh⟩ := hl _ hp.known
  have q : Propagated l h extents _ _ _ := grow_propagated t hp.known hr
  generalize l.grow h extents g = out at q ⊢
  intro id hid
  -- what a container asks for changes with its children only
  have hsame : (∀ c ∈ h.children id, c ∉ out.2) →
      out.1.requirementOf h extents id = l.requirementOf h extents id := fun hc =>
    requirementOf_congr q.spacing fun c hcm => q.unchanged (hc c hcm)
  by_cases hne : id = g.container
  · subst hne
    have hgrown := Requirement.noMoreThan_grown hg r g.width hp.height
    refine ⟨_, q.own.2, ?_⟩
    rw [hsame fun c hc => q.child_not_mem t hc]
    exact ⟨hw.trans hgrown.width, hh.trans hgrown.height⟩
  by_cases hm : id ∈ out.2
  · exact covers_of_eq (q.recomputed hm hne)
  by_cases hchild : ∃ c ∈ h.children id, c ∈ out.2
  · obtain ⟨c, hcm, hc⟩ := hchild
    exact covers_iff.2 (q.stopped hc (t.mem_children.1 hcm) hm)
  · have hchild : ∀ c ∈ h.children id, c ∉ out.2 := fun c hcm hc => hchild ⟨c, hcm, hc⟩
    rw [covers_iff, hsame hchild, q.unchanged hm]
    exact covers_iff.1 (hl id hid)

theorem grow_spacing (t : h.IsTree) {g : Growth ℝ} (hp : g.Proper h) :
    (l.grow h extents g).1.spacing = l.spacing := by
  unfold grow
  split
  · exact (propagate_propagated t l extents _ hp.known).spacing
  · rfl

theorem growAll_concat (steps : List (Growth ℝ)) (g : Growth ℝ) :
    l.growAll h extents (steps ++ [g]) = ((l.growAll h extents steps).grow h extents g).1 := by
  rw [growAll, List.foldl_append]
  rfl

/-- **Steps of growth keep every container covered**, and the settings of the ledger. -/
theorem growAll_covers (t : h.IsTree) (hg : 0 ≤ l.spacing.gap)
    (hl : ∀ id, h.containers.contains id = true → l.Covers h extents id) {steps : List (Growth ℝ)}
    (hs : ∀ g ∈ steps, g.Proper h) :
    (l.growAll h extents steps).spacing = l.spacing ∧
      ∀ id, h.containers.contains id = true → (l.growAll h extents steps).Covers h extents id := by
  refine Fold.keeps (fun _ (l' : SpaceLedger ℝ) => l'.spacing = l.spacing ∧
    ∀ id, h.containers.contains id = true → l'.Covers h extents id) ⟨rfl, hl⟩
    fun done g rest l' hsplit ⟨hspacing, hl'⟩ => ?_
  have hp : g.Proper h := hs g (by simp [hsplit])
  exact ⟨(grow_spacing t hp).trans hspacing, grow_covers t (hspacing ▸ hg) hl' hp⟩

theorem calculate_covers (t : h.IsTree) (l : SpaceLedger ℝ) (extents : IdTable (Extent ℝ))
    {id : String} (hid : h.containers.contains id = true) :
    (l.calculate h extents).Covers h extents id :=
  covers_of_eq ((calculate_required t l extents).required id (t.mem_postOrder.2 hid))

end

/-- **Stopping early is sound.** After any number of steps every container has as much as its
elements and its children ask for, up to the tolerance. Each step records requirements for a
non-empty beginning of the chain from its container to the root, and changes nothing else. (With a
gap below zero, which no settings have, a step might ask for less than before.) -/
theorem growth_covered {d : Diagram} {h : Hierarchy} (he : Hierarchy.extract d = .ok h)
    (l : SpaceLedger ℝ) (extents : IdTable (Extent ℝ)) (hg : 0 ≤ l.spacing.gap)
    {steps : List (Growth ℝ)} (hs : ∀ g ∈ steps, g.Proper h) :
    (∀ done, done <+: steps → ∀ id, h.containers.contains id = true →
      ((l.calculate h extents).growAll h extents done).Covers h extents id) ∧
    ∀ done g rest, steps = done ++ g :: rest →
      ∃ r l' ids, ((l.calculate h extents).growAll h extents done).grownRequirement?
          g.container g.width g.height = some r ∧
        ((l.calculate h extents).growAll h extents done).propagate h extents g.container r =
          (l', ids) ∧
        l' = (l.calculate h extents).growAll h extents (done ++ [g]) ∧
        ids ≠ [] ∧ ids <+: h.ancestors g.container ∧
        (∀ x ∉ ids, l'.requirements.get? x =
          ((l.calculate h extents).growAll h extents done).requirements.get? x) ∧
        l' = { (l.calculate h extents).growAll h extents done with
          requirements := l'.requirements } ∧
        (h.ancestors g.container).getLast? = some h.root ∧
        (h.ancestors g.container).IsChain fun c p => h.parent? c = some p := by
  have t := (Hierarchy.extract_treeOf he).toIsTree
  have hspacing := (calculate_required t l extents).spacing
  have hcov : ∀ done, done <+: steps → ∀ id, h.containers.contains id = true →
      ((l.calculate h extents).growAll h extents done).Covers h extents id := fun done hd =>
    (growAll_covers t (hspacing ▸ hg) (fun id hid => calculate_covers t l extents hid)
      fun g hgm => hs g (hd.subset hgm)).2
  refine ⟨hcov, fun done g rest hsplit => ?_⟩
  have hp : g.Proper h := hs g (by simp [hsplit])
  obtain ⟨r, hr, -, -⟩ := hcov done ⟨_, hsplit.symm⟩ _ hp.known
  rw [growAll_concat, grow_eq hr]
  simp only [grownRequirement?, hr, Option.map_some]
  have q := propagate_propagated t ((l.calculate h extents).growAll h extents done) extents
    (r.grown ((l.calculate h extents).growAll h extents done).spacing g.width g.height) hp.known
  exact ⟨_, _, _, rfl, rfl, rfl, List.ne_nil_of_mem q.own.1, q.chain, fun x hx => q.unchanged hx,
    q.frame, (t.ancestors_isChain hp.known).2⟩

/-- An area grows, then one in it. -/
theorem scattered_covered :
    let start := SpaceLedger.new (.standard : LayoutSettings ℝ).spacing
    let steps : List (Growth ℝ) := [⟨"C", 5, 40⟩, ⟨"B", 300, 0⟩]
    ∃ h, Hierarchy.extract Hierarchy.scattered = .ok h ∧
      (∀ id, h.containers.contains id = true →
        ((start.calculate h .empty).growAll h .empty steps).Covers h .empty id) ∧
      ∃ r ids, (((start.calculate h .empty).growAll h .empty [⟨"C", 5, 40⟩]).propagate h .empty
          "B" r).2 = ids ∧ ids ≠ [] ∧ ids <+: ["B", "C", "root"] := by
  intro start steps
  obtain ⟨h, he⟩ : ∃ h, Hierarchy.extract Hierarchy.scattered = .ok h := ⟨_, rfl⟩
  have hg : 0 ≤ start.spacing.gap := by norm_num [start, SpaceLedger.new, LayoutSettings.standard]
  have hall : (∀ g ∈ steps, g.Proper h) → _ := growth_covered he start .empty hg
  cases he
  obtain ⟨hcov, hstep⟩ := hall fun g hgm => by
    simp only [steps, List.mem_cons, List.not_mem_nil, or_false] at hgm
    rcases hgm with rfl | rfl <;> exact ⟨rfl, by norm_num, by norm_num⟩
  obtain ⟨r, l', ids, -, hl', -, hne, hchain, -⟩ := hstep [⟨"C", 5, 40⟩] ⟨"B", 300, 0⟩ [] rfl
  exact ⟨_, rfl, hcov steps (List.prefix_refl _), r, ids, by rw [hl'], hne, hchain⟩

end SpaceLedger

end NestedLayout
