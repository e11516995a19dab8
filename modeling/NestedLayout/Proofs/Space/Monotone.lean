import NestedLayout.Proofs.Space.Larger

/-!
# When growth lasts

A walk up recomputes a container from its children as soon as that exceeds what is recorded for it
on one axis, and then replaces both sizes. What the container itself was asked to make room for
before is lost with it.

* `Propagated.lasts`: as long as the steps within a container come inside out (`InsideOut`), no
  container in it shrinks.
* `growth_lasts`: so a container shrinks only if it, or one in it, grew before one nested deeper;
  it is then not the one that the step is for, and grows on its other axis.
* `sheet_shrinks`: a container that does shrink.
-/

set_option autoImplicit false

namespace NestedLayout

open Scalar (epsilon)

/-- Gap and growth that take no room away. -/
structure Spacing.Growing (s : Spacing ℝ) : Prop where
  gap : 0 ≤ s.gap
  width : 0 ≤ s.growthWidth
  height : 0 ≤ s.growthHeight

/-! ## The order of requirements -/

namespace Requirement

theorem NoMoreThan.refl (r : Requirement ℝ) : r.NoMoreThan r := ⟨le_rfl, le_rfl⟩

theorem NoMoreThan.trans {r s u : Requirement ℝ} (h : r.NoMoreThan s) (h' : s.NoMoreThan u) :
    r.NoMoreThan u :=
  ⟨h.width.trans h'.width, h.height.trans h'.height⟩

theorem NoMoreThan.preferred {spacing : Spacing ℝ} {r r' : Requirement ℝ}
    (hg : spacing.Growing) (h : r.NoMoreThan r') (hr : r.Scaled spacing)
    (hr' : r'.Scaled spacing) :
    r.preferredWidth ≤ r'.preferredWidth ∧ r.preferredHeight ≤ r'.preferredHeight := by
  have := hg.width
  have := hg.height
  rw [hr.width, hr.height, hr'.width, hr'.height]
  exact ⟨mul_le_mul_of_nonneg_right h.width (by linarith),
    mul_le_mul_of_nonneg_right h.height (by linarith)⟩

end Requirement

namespace SpaceLedger

variable {l : SpaceLedger ℝ} {h : Hierarchy} {extents : IdTable (Extent ℝ)}

/-! ## Growth from the inside out -/

/-- Within a container the steps come inside out: none is for a container before one for another
that is nested in it. -/
def InsideOut (h : Hierarchy) (x : String) (steps : List (Growth ℝ)) : Prop :=
  steps.Pairwise fun a b =>
    h.Encloses x a.container → h.Encloses a.container b.container → a.container = b.container

/-- What holds in a container while the steps in it come inside out, where those given are the
containers that they were for: every other one is recorded with no more than its children ask for
now. -/
structure Fresh (l : SpaceLedger ℝ) (h : Hierarchy) (extents : IdTable (Extent ℝ)) (x : String)
    (asked : List String) : Prop where
  scaled : ∀ {y}, h.containers.contains y = true →
    ∃ r, l.requirements.get? y = some r ∧ r.Scaled l.spacing
  fresh : ∀ {y r}, h.Encloses x y → y ∉ asked → l.requirements.get? y = some r →
    r.NoMoreThan (l.requirementOf h extents y)

theorem calculate_fresh (t : h.IsTree) (l : SpaceLedger ℝ) (extents : IdTable (Extent ℝ))
    {x : String} (hx : h.containers.contains x = true) :
    Fresh (l.calculate h extents) h extents x [] := by
  have hreq : ∀ {y}, h.containers.contains y = true → (l.calculate h extents).requirements.get? y =
      some ((l.calculate h extents).requirementOf h extents y) := fun {y} hy =>
    (calculate_required t l extents).required y (t.mem_postOrder.2 hy)
  refine ⟨fun {y} hy => ⟨_, hreq hy, Requirement.scaled_ofMinimum _ _ _ _ _⟩,
    fun {y r} hy _ hr => ?_⟩
  obtain rfl : r = _ := Option.some.inj (hr.symm.trans (hreq (hy.known hx)))
  exact .refl _

/-- After a change the recorded sizes are still scaled. -/
theorem Propagated.scaled {id : String} {r : Requirement ℝ} {out : SpaceLedger ℝ × List String}
    (q : Propagated l h extents id r out) (hr : r.Scaled l.spacing)
    (hl : ∀ {y}, h.containers.contains y = true →
      ∃ r, l.requirements.get? y = some r ∧ r.Scaled l.spacing) {y : String}
    (hy : h.containers.contains y = true) :
    ∃ r, out.1.requirements.get? y = some r ∧ r.Scaled out.1.spacing := by
  rw [q.spacing]
  by_cases hne : y = id
  · exact ⟨r, hne ▸ q.own.2, hr⟩
  by_cases hm : y ∈ out.2
  · refine ⟨_, q.recomputed hm hne, ?_⟩
    rw [← q.spacing]
    exact Requirement.scaled_ofMinimum _ _ _ _ _
  · rw [q.unchanged hm]
    exact hl hy

/-- Where no child has shrunk the container asks for no less. -/
theorem requirementOf_mono {l' : SpaceLedger ℝ} (t : h.IsTree) (hs : l'.spacing = l.spacing)
    (hg : l.spacing.Growing)
    (hl : ∀ {y}, h.containers.contains y = true →
      ∃ r, l.requirements.get? y = some r ∧ r.Scaled l.spacing)
    (hl' : ∀ {y}, h.containers.contains y = true →
      ∃ r, l'.requirements.get? y = some r ∧ r.Scaled l'.spacing) {y : String}
    (hc : ∀ c ∈ h.children y, ∀ {r r'}, l.requirements.get? c = some r →
      l'.requirements.get? c = some r' → r.NoMoreThan r') :
    (l.requirementOf h extents y).NoMoreThan (l'.requirementOf h extents y) := by
  rw [requirementOf, requirementOf, hs]
  refine Requirement.compute_mono hg.gap (.refl _) (ElementsGrow.refl extents) _ fun c hcm => ?_
  have hknown := Hierarchy.known_of_parent (t.mem_children.1 hcm)
  obtain ⟨r, hr, hrs⟩ := hl hknown
  obtain ⟨r', hr', hrs'⟩ := hl' hknown
  exact ⟨r, r', hr, hr', (hc c hcm hr hr').preferred hg hrs (hs ▸ hrs')⟩

/-- **A change within a container shrinks nothing in it** when it is for one that is not nested in
any that was asked before. By induction up the chain: what a container is recorded with its
children asked for at some time, and by now they ask for more. -/
theorem Propagated.lasts (t : h.IsTree) {id x : String} {r : Requirement ℝ}
    {out : SpaceLedger ℝ × List String} {asked : List String}
    (q : Propagated l h extents id r out) (hg : l.spacing.Growing)
    (hl : Fresh l h extents x asked) (hr : r.Scaled l.spacing)
    (hold : ∀ {o}, l.requirements.get? id = some o → o.NoMoreThan r)
    (hasked : ∀ y ∈ asked, h.Encloses x y → h.Encloses y id → y = id) {y : String}
    (hxy : h.Encloses x y) {o n : Requirement ℝ} (ho : l.requirements.get? y = some o)
    (hn : out.1.requirements.get? y = some n) : o.NoMoreThan n := by
  have hstay : ∀ {y o n}, y ∉ out.2 → l.requirements.get? y = some o →
      out.1.requirements.get? y = some n → o.NoMoreThan n := fun {y o n} hm ho hn => by
    rw [q.unchanged hm] at hn
    cases ho.symm.trans hn
    exact .refl o
  by_cases hm : y ∈ out.2
  swap
  · exact hstay hm ho hn
  have hup := Hierarchy.encloses_of_mem_ancestors (q.chain.subset hm)
  clear hm
  induction hup using Relation.ReflTransGen.head_induction_on generalizing o n with
  | refl =>
    cases q.own.2.symm.trans hn
    exact hold ho
  | @head y z hp hz ih =>
    by_cases hm : y ∈ out.2
    swap
    · exact hstay hm ho hn
    have hne : y ≠ id := by
      rintro rfl
      exact t.not_encloses_parent hp hz
    cases (q.recomputed hm hne).symm.trans hn
    have hask : y ∉ asked := fun hy =>
      hne (hasked y hy hxy ((Hierarchy.Encloses.of_parent hp).trans hz))
    refine (hl.fresh hxy hask ho).trans ?_
    refine requirementOf_mono t q.spacing hg hl.scaled (q.scaled hr hl.scaled) fun c hc => ?_
    intro r₁ r₂ hr₁ hr₂
    by_cases hcm : c ∈ out.2
    · -- the only child on the way is the one that the walk came from
      obtain rfl : c = z := t.siblings_disjoint (t.mem_children.1 hc) hp
        (Hierarchy.encloses_of_mem_ancestors (q.chain.subset hcm)) hz
      exact ih (hxy.trans (.of_parent hp)) hr₁ hr₂
    · exact hstay hcm hr₁ hr₂

/-- **A change within a container leaves it fresh**, but for the one that it is for. -/
theorem Propagated.fresh (t : h.IsTree) {id x : String} {r : Requirement ℝ}
    {out : SpaceLedger ℝ × List String} {asked : List String}
    (q : Propagated l h extents id r out) (hg : l.spacing.Growing)
    (hl : Fresh l h extents x asked) (hr : r.Scaled l.spacing)
    (hold : ∀ {o}, l.requirements.get? id = some o → o.NoMoreThan r)
    (hasked : ∀ y ∈ asked, h.Encloses x y → h.Encloses y id → y = id) :
    Fresh out.1 h extents x (asked ++ [id]) := by
  refine ⟨q.scaled hr hl.scaled, fun {y n} hxy hy hn => ?_⟩
  rw [List.mem_append, List.mem_singleton, not_or] at hy
  by_cases hm : y ∈ out.2
  · cases (q.recomputed hm hy.2).symm.trans hn
    exact .refl _
  · rw [q.unchanged hm] at hn
    refine (hl.fresh hxy hy.1 hn).trans ?_
    exact requirementOf_mono t q.spacing hg hl.scaled (q.scaled hr hl.scaled) fun c hc _ _ =>
      q.lasts t hg hl hr hold hasked (hxy.trans (.of_parent (t.mem_children.1 hc)))

/-! ## Steps of growth -/

theorem InsideOut.asked {x : String} {done rest : List (Growth ℝ)} {g : Growth ℝ}
    (hio : InsideOut h x (done ++ g :: rest)) :
    ∀ y ∈ done.map (·.container), h.Encloses x y → h.Encloses y g.container →
      y = g.container := by
  intro y hy
  obtain ⟨a, ha, rfl⟩ := List.mem_map.1 hy
  exact (List.pairwise_append.1 hio).2.2 a ha g (.head _)

/-- **Steps that come inside out within a container leave it fresh.** -/
theorem growAll_fresh (t : h.IsTree) {x : String} (hg : l.spacing.Growing)
    (hl : Fresh l h extents x []) {steps : List (Growth ℝ)} (hs : ∀ g ∈ steps, g.Proper h)
    (hio : InsideOut h x steps) :
    (l.growAll h extents steps).spacing = l.spacing ∧
      Fresh (l.growAll h extents steps) h extents x (steps.map (·.container)) := by
  refine Fold.keeps (fun (done : List (Growth ℝ)) (l' : SpaceLedger ℝ) => l'.spacing = l.spacing ∧
    Fresh l' h extents x (done.map (·.container))) ⟨rfl, hl⟩
    fun done g rest l' hsplit ⟨hspacing, hl'⟩ => ?_
  have hp : g.Proper h := hs g (by simp [hsplit])
  have hg' : l'.spacing.Growing := hspacing ▸ hg
  rw [hsplit] at hio
  obtain ⟨r, hr, -⟩ := hl'.scaled hp.known
  have q : Propagated l' h extents _ _ _ := grow_propagated t hp.known hr
  refine ⟨q.spacing.trans hspacing, ?_⟩
  rw [List.map_append]
  refine q.fresh t hg' hl' (Requirement.scaled_ofMinimum _ _ _ _ _) (fun ho => ?_) hio.asked
  cases hr.symm.trans ho
  exact r.noMoreThan_grown hg'.gap g.width hp.height

/-- **Growth lasts where it comes inside out.** A step shrinks the requirement of a container only
if before, and within that container, one had grown that encloses another that grows later or now.
The container that shrinks is not the one that the step is for but one around it, and on its other
axis it grows by more than the tolerance. -/
theorem growth_lasts {d : Diagram} (he : Hierarchy.extract d = .ok h) (l : SpaceLedger ℝ)
    (extents : IdTable (Extent ℝ)) (hg : l.spacing.Growing) (done : List (Growth ℝ))
    (g : Growth ℝ) (hs : ∀ s ∈ done ++ [g], s.Proper h) {x : String}
    (hx : h.containers.contains x = true) :
    ∃ old new,
      ((l.calculate h extents).growAll h extents done).requirements.get? x = some old ∧
      ((l.calculate h extents).growAll h extents (done ++ [g])).requirements.get? x = some new ∧
      (InsideOut h x (done ++ [g]) → old.NoMoreThan new) ∧
      (¬ old.NoMoreThan new → x ≠ g.container ∧ h.Encloses x g.container ∧
        (old.minWidth + epsilon < new.minWidth ∨ old.minHeight + epsilon < new.minHeight)) := by
  have t := (Hierarchy.extract_treeOf he).toIsTree
  have hspacing := (calculate_required t l extents).spacing
  have hdone : ∀ s ∈ done, s.Proper h := fun s hm => hs s (List.mem_append_left _ hm)
  have hp : g.Proper h := hs g (by simp)
  obtain ⟨hsame, hcov⟩ := growAll_covers t (hspacing ▸ hg.gap)
    (fun id hid => calculate_covers t l extents hid) hdone
  have hfresh : InsideOut h x done →
      Fresh ((l.calculate h extents).growAll h extents done) h extents x (done.map (·.container)) :=
    fun hio => (growAll_fresh t (hspacing ▸ hg) (calculate_fresh t l extents hx) hdone hio).2
  rw [growAll_concat]
  generalize (l.calculate h extents).growAll h extents done = l₁ at hsame hcov hfresh
  have hg₁ : l₁.spacing.Growing := hsame ▸ hspacing ▸ hg
  obtain ⟨r, hr, -⟩ := hcov _ hp.known
  obtain ⟨old, hold, -⟩ := hcov _ hx
  obtain ⟨new, hnew, -⟩ := grow_covers t hg₁.gap hcov hp x hx
  have q : Propagated l₁ h extents _ _ _ := grow_propagated t hp.known hr
  have hle := r.noMoreThan_grown hg₁.gap g.width hp.height
  refine ⟨old, new, hold, hnew, fun hio => ?_, fun hnot => ?_⟩
  · exact q.lasts t hg₁ (hfresh (List.pairwise_append.1 hio).1)
      (Requirement.scaled_ofMinimum _ _ _ _ _)
      (fun ho => by cases hr.symm.trans ho; exact hle) hio.asked (.refl x) hold hnew
  · have hne : x ≠ g.container := by
      rintro rfl
      cases hr.symm.trans hold
      cases q.own.2.symm.trans hnew
      exact hnot hle
    have hm : x ∈ (l₁.grow h extents g).2 := by
      by_contra hm
      rw [q.unchanged hm] at hnew
      cases hold.symm.trans hnew
      exact hnot (.refl old)
    refine ⟨hne, Hierarchy.encloses_of_mem_ancestors (q.chain.subset hm), ?_⟩
    have hexc := q.exceeded hm hne
    cases (q.recomputed hm hne).symm.trans hnew
    rw [hold] at hexc
    simpa [exceeds] using hexc

/-! ## Outside before inside -/

/-- A sheet with an empty area. -/
def hollow : Diagram where
  root := "sheet"
  areas := .ofList [("sheet", ⟨none, ["A"]⟩), ("A", ⟨none, []⟩)]
  elements := .ofList []
  connections := []

def hollowTree : Hierarchy where
  root := "sheet"
  containers := .ofList [("sheet", ⟨"sheet", none, ["A"], [], 0⟩),
    ("A", ⟨"A", some "sheet", [], [], 1⟩)]
  owners := .ofList []

theorem extract_hollow : Hierarchy.extract hollow = .ok hollowTree := rfl

/-- The ledger for the least containers without padding, gap and growth. -/
noncomputable def bareLedger : SpaceLedger ℝ := .new ⟨0, 0, 1, 1, 0, 0⟩

theorem bareLedger_growing : bareLedger.spacing.Growing := ⟨le_rfl, le_rfl, le_rfl⟩

/-- The area grows, then the sheet. -/
theorem hollow_lasts :
    (∀ s ∈ ([⟨"A", 5, 0⟩, ⟨"sheet", 0, 10⟩] : List (Growth ℝ)), s.Proper hollowTree) ∧
    ∃ old new,
      ((bareLedger.calculate hollowTree .empty).growAll hollowTree .empty
        [⟨"A", 5, 0⟩]).requirements.get? "sheet" = some old ∧
      ((bareLedger.calculate hollowTree .empty).growAll hollowTree .empty
        [⟨"A", 5, 0⟩, ⟨"sheet", 0, 10⟩]).requirements.get? "sheet" = some new ∧
      old.NoMoreThan new := by
  have hs : ∀ s ∈ ([⟨"A", 5, 0⟩, ⟨"sheet", 0, 10⟩] : List (Growth ℝ)), s.Proper hollowTree := by
    simp only [List.forall_mem_cons]
    refine ⟨?_, ?_, by simp⟩ <;> constructor <;> first | rfl | norm_num
  have t := (Hierarchy.extract_treeOf extract_hollow).toIsTree
  have hnot : ¬ hollowTree.Encloses "A" "sheet" := t.not_encloses_parent rfl
  obtain ⟨old, new, hold, hnew, hlasts, -⟩ := growth_lasts extract_hollow bareLedger .empty
    bareLedger_growing [⟨"A", 5, 0⟩] ⟨"sheet", 0, 10⟩ hs (x := "sheet") rfl
  exact ⟨hs, old, new, hold, hnew, hlasts (List.pairwise_pair.2 fun _ hA => absurd hA hnot)⟩

theorem bare_requirement {l : SpaceLedger ℝ} (hs : l.spacing = bareLedger.spacing) :
    l.requirementOf hollowTree .empty "A" = ⟨1, 1, 1, 1, [], []⟩ := by
  rw [requirementOf, hs, show hollowTree.elements "A" = [] from rfl,
    show hollowTree.children "A" = [] from rfl, Requirement.compute,
    Requirement.elementFootprint_nil]
  norm_num [bareLedger, new, Requirement.childrenFootprint, gridShape_zero,
    Requirement.contentSize, Requirement.ofMinimum]

theorem bare_around {l : SpaceLedger ℝ} (hs : l.spacing = bareLedger.spacing) {r : Requirement ℝ}
    (hr : l.requirements.get? "A" = some r) (hw : 1 ≤ r.preferredWidth)
    (hh : 1 ≤ r.preferredHeight) :
    (l.requirementOf hollowTree .empty "sheet").minWidth = r.preferredWidth ∧
      (l.requirementOf hollowTree .empty "sheet").minHeight = r.preferredHeight := by
  have hpos : 0 < r.preferredWidth := by linarith
  rw [requirementOf, hs, show hollowTree.elements "sheet" = [] from rfl,
    show hollowTree.children "sheet" = ["A"] from rfl, Requirement.compute,
    Requirement.elementFootprint_nil,
    Requirement.childrenFootprint_one hr hpos.le (zero_le_one.trans hh)]
  norm_num [bareLedger, new, Requirement.contentSize, Requirement.ofMinimum, hpos, hw, hh]

/-- **A sheet that made room for a high footprint loses it** when the area in it becomes wider. -/
theorem sheet_shrinks :
    (∀ s ∈ ([⟨"sheet", 0, 10⟩, ⟨"A", 5, 0⟩] : List (Growth ℝ)), s.Proper hollowTree) ∧
    ∃ old new,
      ((bareLedger.calculate hollowTree .empty).growAll hollowTree .empty
        [⟨"sheet", 0, 10⟩]).requirements.get? "sheet" = some old ∧
      ((bareLedger.calculate hollowTree .empty).growAll hollowTree .empty
        [⟨"sheet", 0, 10⟩, ⟨"A", 5, 0⟩]).requirements.get? "sheet" = some new ∧
      old.minHeight = 11 ∧ new.minHeight = 1 := by
  have t := (Hierarchy.extract_treeOf extract_hollow).toIsTree
  have hchild : "A" ∈ hollowTree.children "sheet" := .head _
  have hcalc := calculate_required t bareLedger .empty
  have hA := hcalc.required "A" (t.mem_postOrder.2 rfl)
  have hS := hcalc.required "sheet" (t.mem_postOrder.2 rfl)
  rw [bare_requirement hcalc.spacing] at hA
  obtain ⟨hw, hh⟩ := bare_around hcalc.spacing hA le_rfl le_rfl
  generalize (bareLedger.calculate hollowTree .empty).requirementOf hollowTree .empty "sheet" = r
    at hS hw hh
  refine ⟨?_, ?_⟩
  · simp only [List.forall_mem_cons]
    refine ⟨?_, ?_, by simp⟩ <;> constructor <;> first | rfl | norm_num
  simp only [growAll, List.foldl_cons, List.foldl_nil]
  generalize bareLedger.calculate hollowTree .empty = start at hcalc hA hS
  -- the sheet makes room for ten pixels more, the area stays as it is
  have q₁ : Propagated start hollowTree .empty _ _
    (start.grow hollowTree .empty ⟨"sheet", 0, 10⟩) := grow_propagated t rfl hS
  generalize start.grow hollowTree .empty ⟨"sheet", 0, 10⟩ = out₁ at q₁ ⊢
  have hs₁ : out₁.1.spacing = bareLedger.spacing := q₁.spacing.trans hcalc.spacing
  have hA₁ := (q₁.unchanged (q₁.child_not_mem t hchild)).trans hA
  have hS₁ := q₁.own.2
  rw [hcalc.spacing] at hS₁
  -- the area becomes wider, and the sheet is computed from it
  have q₂ : Propagated out₁.1 hollowTree .empty _ _
    (out₁.1.grow hollowTree .empty ⟨"A", 5, 0⟩) := grow_propagated t rfl hA₁
  generalize out₁.1.grow hollowTree .empty ⟨"A", 5, 0⟩ = out₂ at q₂ ⊢
  have hs₂ : out₂.1.spacing = bareLedger.spacing := q₂.spacing.trans hs₁
  have hA₂ := q₂.own.2
  rw [hs₁] at hA₂
  norm_num [Requirement.grown, Requirement.ofMinimum, bareLedger, new] at hA₂ hS₁
  obtain ⟨hw₂, hh₂⟩ := bare_around hs₂ hA₂ (by norm_num) le_rfl
  have hm : "sheet" ∈ out₂.2 := by
    by_contra hm
    have hstop := q₂.stopped q₂.own.1 (show hollowTree.parent? "A" = some "sheet" from rfl) hm
    rw [q₂.unchanged hm, hS₁] at hstop
    obtain ⟨old, hold, hwide, -⟩ := exceeds_eq_false_iff.1 hstop
    cases hold
    norm_num [hw₂, hw, Scalar.epsilon] at hwide
  refine ⟨_, _, hS₁, q₂.recomputed hm (by decide), ?_, hh₂⟩
  norm_num [hh]

end SpaceLedger

end NestedLayout
