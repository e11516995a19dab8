import NestedLayout.Proofs.Sizing.Cells

/-!
# The plan of proportional sizing

`Roomy` is what the walk from the outside in keeps: every container that has a box has room in it,
children lie in the region that their parent keeps for them, and siblings are apart.

* `sizeContainer_spec`: what one step does (`Settled`); it never breaks down.
* `Roomy.step`: a step keeps the invariant.
* `plan_spec`: the plan exists and is roomy for the whole tree.
-/

set_option autoImplicit false

namespace NestedLayout.Proportional

open Requirement Hierarchy

/-- Boxes of which those of the children of finished containers are in place. -/
structure Roomy (request : SizingRequest ℝ) (scale : WorldScale ℝ) (done : List String)
    (boxes : Boxes ℝ) : Prop where
  known : ∀ {id box}, boxes.get? id = some box →
    request.hierarchy.containers.contains id = true
  root : ∃ box, boxes.get? request.hierarchy.root = some box
  child : ∀ {p c}, p ∈ done → request.hierarchy.parent? c = some p → ∃ box, boxes.get? c = some box
  room : ∀ {id box}, boxes.get? id = some box → HasRoom scale (request.requirement id) box
  nested : ∀ {p c pbox box}, p ∈ done → request.hierarchy.parent? c = some p →
    boxes.get? p = some pbox → boxes.get? c = some box →
    ∃ region, ChildrenRoom request scale p pbox region ∧ box.Within region
  apart : ∀ {p a b abox bbox}, p ∈ done → request.hierarchy.parent? a = some p →
    request.hierarchy.parent? b = some p → a ≠ b → boxes.get? a = some abox →
    boxes.get? b = some bbox → abox.intersects bbox = false

theorem Roomy.congr {request : SizingRequest ℝ} {scale : WorldScale ℝ} {done : List String}
    {boxes boxes' : Boxes ℝ} (hr : Roomy request scale done boxes)
    (hb : ∀ id, boxes'.get? id = boxes.get? id) : Roomy request scale done boxes' := by
  constructor <;> simp only [hb]
  exacts [hr.known, hr.root, hr.child, hr.room, hr.nested, hr.apart]

/-- What sizing one container does to the boxes. -/
structure Settled (request : SizingRequest ℝ) (scale : WorldScale ℝ) (id : String) (own : Rect ℝ)
    (boxes boxes' : Boxes ℝ) : Prop where
  own : ∃ own', boxes'.get? id = some own' ∧ own'.Within own ∧
    HasRoom scale (request.requirement id) own' ∧
    ∀ {c}, c ∈ request.hierarchy.children id → ∃ box region, boxes'.get? c = some box ∧
      ChildrenRoom request scale id own' region ∧ box.Within region ∧
      HasRoom scale (request.requirement c) box
  apart : ∀ {a b abox bbox}, a ∈ request.hierarchy.children id →
    b ∈ request.hierarchy.children id → a ≠ b → boxes'.get? a = some abox →
    boxes'.get? b = some bbox → abox.intersects bbox = false
  other : ∀ {k}, k ≠ id → k ∉ request.hierarchy.children id → boxes'.get? k = boxes.get? k

section
variable {request : SizingRequest ℝ} (hq : request.Proper) {scale : WorldScale ℝ}
  (hs : scale.Proper) {id : String} {c : Container} {own : Rect ℝ} {p : Progress ℝ}
  (hc : request.hierarchy.container? id = some c) (hown : p.boxes.get? id = some own)
  (hroom : HasRoom scale (request.requirement id) own)
include hq hs hc hown hroom

/-- A container shrinks inside its box and keeps its room. -/
theorem shrinkOwn_spec :
    ∃ p' own', shrinkOwn request scale p id c own = some (p', own') ∧ own'.Within own ∧
      HasRoom scale (request.requirement id) own' ∧ p'.boxes.get? id = some own' ∧
      ∀ {k}, k ≠ id → p'.boxes.get? k = p.boxes.get? k := by
  have hmin : 1 ≤ (request.requirement id).minWidth ∧ 1 ≤ (request.requirement id).minHeight :=
    hq.required.one_le_min id
  have hreq : request.ledger.requirements.get? id = some (request.requirement id) :=
    hq.required.required (Table.contains_of_get? hc)
  unfold shrinkOwn
  cases c.parent with
  | none => exact ⟨p, own, rfl, .refl _, hroom, hown, fun _ => rfl⟩
  | some parent =>
    obtain ⟨reduced, hr, hwithin, hroom'⟩ :=
      shrinkToContent_spec hs hmin.1 hmin.2 hroom request.settings.sizing
    simp only [hreq, hr, Option.bind_eq_bind, Option.bind_some]
    split
    · exact ⟨p, own, rfl, .refl _, hroom, hown, fun _ => rfl⟩
    · exact ⟨_, reduced, rfl, hwithin, hroom', Table.get?_insert_self _ _ _,
        fun hk => Table.get?_insert_ne _ _ hk⟩

/-- **One step of the plan** succeeds, settles the container and gives its children their cells. -/
theorem sizeContainer_spec :
    ∃ p', sizeContainer request scale p id = some p' ∧
      Settled request scale id own p.boxes p'.boxes := by
  obtain ⟨p₁, own', hshrink, hwithin, hroom', hself, hother⟩ := shrinkOwn_spec hq hs hc hown hroom
  have hchildren := container?_children hc
  have hnc : ∀ {k}, k ∈ request.hierarchy.children id → k ≠ id := fun hk =>
    hq.tree.child_ne (hq.tree.mem_children.1 hk)
  simp only [sizeContainer, hc, hown, hshrink, Option.bind_eq_bind, Option.bind_some, ← hchildren]
  split
  · rename_i hempty
    have hnil : request.hierarchy.children id = [] := List.isEmpty_iff.1 hempty
    refine ⟨p₁, rfl, ⟨own', hself, hwithin, hroom', fun h => ?_⟩, fun h => ?_,
      fun hk _ => hother hk⟩
    · rw [hnil] at h
      cases h
    · rw [hnil] at h
      cases h
  · rename_i hne
    have hne : request.hierarchy.children id ≠ [] := by simpa using hne
    have hregion := childrenRegion_spec hq hs hroom' hc hne
    have hcells := childCells_spec hq hs hne hregion.width hregion.height
    generalize childCells request (request.hierarchy.children id)
      (childrenRegion request c own' scale) scale = cells at hcells ⊢
    have hnodup : (cells.map (·.1)).Nodup := hcells.ids ▸ hq.tree.nodupChildren id
    have hcell : ∀ {k}, k ∈ request.hierarchy.children id → ∃ box, (k, box) ∈ cells ∧
        (cells.foldl (fun t e => t.insert e.1 e.2) p₁.boxes).get? k = some box := by
      intro k hk
      rw [← hcells.ids] at hk
      obtain ⟨⟨k', box⟩, he, rfl⟩ := List.mem_map.1 hk
      exact ⟨box, he, Table.get?_insertAll_of_mem hnodup he _⟩
    have hrest : ∀ {k}, k ∉ request.hierarchy.children id →
        (cells.foldl (fun t e => t.insert e.1 e.2) p₁.boxes).get? k = p₁.boxes.get? k :=
      fun hk => Table.get?_insertAll_of_not_mem (hcells.ids ▸ hk) _
    have hid : id ∉ request.hierarchy.children id := fun h => hnc h rfl
    refine ⟨{ p₁ with boxes := cells.foldl (fun t e => t.insert e.1 e.2) p₁.boxes }, rfl,
      ⟨own', (hrest hid).trans hself, hwithin, hroom', fun {k} hk => ?_⟩,
      fun {a b _ _} ha hb hab hga hgb => ?_, fun {k} hk hk' => (hrest hk').trans (hother hk)⟩
    · obtain ⟨box, he, hbox⟩ := hcell hk
      have hwithin := hcells.within _ he
      have hroom := hcells.room _ he
      exact ⟨box, _, hbox, hregion, hwithin, hroom⟩
    · obtain ⟨box, he, hbox⟩ := hcell ha
      obtain ⟨box', he', hbox'⟩ := hcell hb
      obtain rfl := Option.some.inj (hbox.symm.trans hga)
      obtain rfl := Option.some.inj (hbox'.symm.trans hgb)
      have : Std.Symm fun a b : String × Rect ℝ => a.2.intersects b.2 = false :=
        ⟨fun a b h => by rwa [Rect.intersects_comm]⟩
      exact hcells.apart.forall he he' fun h => hab (congrArg Prod.fst h)

end

/-! ## The walk from the outside in -/

section
variable {request : SizingRequest ℝ} {scale : WorldScale ℝ} {done : List String} {id : String}
  {own : Rect ℝ} {boxes boxes' : Boxes ℝ}

section
variable (t : request.hierarchy.IsTree) (hat : InwardAt request.hierarchy done id)
  (hst : Settled request scale id own boxes boxes')
include t hat hst

/-- The boxes that are done are as they were. -/
theorem Settled.done_eq {p : String} (hd : p ∈ done) : boxes'.get? p = boxes.get? p :=
  hst.other (fun he => hat.notDone (he ▸ hd)) fun hm =>
    hat.childNotDone (t.mem_children.1 hm) hd

/-- The boxes in those that are done only become smaller. -/
theorem Settled.within_old (hown : boxes.get? id = some own) {x p : String} {box' : Rect ℝ}
    (hp : request.hierarchy.parent? x = some p) (hd : p ∈ done) (hx : boxes'.get? x = some box') :
    ∃ box, boxes.get? x = some box ∧ box'.Within box := by
  obtain ⟨own', hself, hwithin, -⟩ := hst.own
  by_cases hxi : x = id
  · subst hxi
    cases hself.symm.trans hx
    exact ⟨own, hown, hwithin⟩
  · exact ⟨box', (hst.other hxi (hat.notChild t hp hd)).symm.trans hx, .refl _⟩

omit t hat in
/-- Every box has room: that of the container at hand, those of its children, and the others. -/
theorem Settled.room (hr : ∀ {k box}, boxes.get? k = some box →
      HasRoom scale (request.requirement k) box) {k : String} {box : Rect ℝ}
    (hk : boxes'.get? k = some box) : HasRoom scale (request.requirement k) box := by
  obtain ⟨own', hself, -, hroom, hchild⟩ := hst.own
  by_cases hki : k = id
  · subst hki
    cases hself.symm.trans hk
    exact hroom
  · by_cases hkc : k ∈ request.hierarchy.children id
    · obtain ⟨box', -, hbox, -, -, hroom'⟩ := hchild hkc
      cases hbox.symm.trans hk
      exact hroom'
    · exact hr ((hst.other hki hkc).symm.trans hk)

end

/-- **A step keeps the boxes roomy**: the container only becomes smaller, and nothing that is done
has one of its children. -/
theorem Roomy.step (t : request.hierarchy.IsTree) (hr : Roomy request scale done boxes)
    (hat : InwardAt request.hierarchy done id) (hown : boxes.get? id = some own)
    (hst : Settled request scale id own boxes boxes') :
    Roomy request scale (done ++ [id]) boxes' := by
  obtain ⟨own', hself, -, -, hchild⟩ := hst.own
  refine
    { known := fun {k box} hk => ?known
      root := ?root
      child := fun {p c} hp hc => ?child
      room := hst.room hr.room
      nested := fun {p c pbox box} hp hc hpb hb => ?nested
      apart := fun {p a b abox bbox} hp ha hb hab hga hgb => ?apart }
  case known =>
    by_cases hki : k = id
    · exact hki ▸ hat.known
    · by_cases hkc : k ∈ request.hierarchy.children id
      · exact known_of_parent (t.mem_children.1 hkc)
      · exact hr.known ((hst.other hki hkc).symm.trans hk)
  case root =>
    by_cases hri : request.hierarchy.root = id
    · exact ⟨own', hri ▸ hself⟩
    · obtain ⟨box, hbox⟩ := hr.root
      refine ⟨box, (hst.other hri fun hm => ?_).trans hbox⟩
      have := t.mem_children.1 hm
      rw [t.rootTop] at this
      cases this
  case child =>
    rcases List.mem_append.1 hp with hp | hp
    · obtain ⟨box, hbox⟩ := hr.child hp hc
      by_cases hci : c = id
      · exact ⟨own', hci ▸ hself⟩
      · exact ⟨box, (hst.other hci (hat.notChild t hc hp)).trans hbox⟩
    · cases List.mem_singleton.1 hp
      obtain ⟨box, -, hbox, -⟩ := hchild (t.mem_children.2 hc)
      exact ⟨box, hbox⟩
  case nested =>
    rcases List.mem_append.1 hp with hp | hp
    · obtain ⟨box₀, hbox₀, hsub⟩ := hst.within_old t hat hown hc hp hb
      have hpb₀ := (hst.done_eq t hat hp).symm.trans hpb
      obtain ⟨region, hregion, hin⟩ := hr.nested hp hc hpb₀ hbox₀
      exact ⟨region, hregion, hsub.trans hin⟩
    · cases List.mem_singleton.1 hp
      obtain ⟨box', region, hbox, hregion, hin, -⟩ := hchild (t.mem_children.2 hc)
      cases hbox.symm.trans hb
      cases hself.symm.trans hpb
      exact ⟨region, hregion, hin⟩
  case apart =>
    rcases List.mem_append.1 hp with hp | hp
    · obtain ⟨abox₀, ha₀, hsubA⟩ := hst.within_old t hat hown ha hp hga
      obtain ⟨bbox₀, hb₀, hsubB⟩ := hst.within_old t hat hown hb hp hgb
      exact Rect.intersects_mono hsubA hsubB (hr.apart hp ha hb hab ha₀ hb₀)
    · cases List.mem_singleton.1 hp
      exact hst.apart (t.mem_children.2 ha) (t.mem_children.2 hb) hab hga hgb

end

/-! ## The whole plan -/

section
variable {request : SizingRequest ℝ}

theorem plan_scale {p : SizingPlan ℝ} (h : plan request = some p) :
    p.scale = request.workingScale := by
  obtain ⟨progress, -, he⟩ := Option.bind_eq_some_iff.1 h
  cases he
  rfl

theorem workingScale_proper (request : SizingRequest ℝ) : request.workingScale.Proper := by
  unfold SizingRequest.workingScale
  split
  · exact WorldScale.of_proper _ _
  · exact WorldScale.of_proper _ _

variable (hq : request.Proper)
include hq

/-- The unit square measures at least what the root prefers. -/
theorem unit_room :
    HasRoom request.workingScale (request.requirement request.hierarchy.root) .unit := by
  have hreq : request.ledger.requirements.get? request.hierarchy.root =
      some (request.requirement request.hierarchy.root) := hq.required.required hq.tree.rootKnown
  obtain ⟨hw, hh⟩ : (request.requirement request.hierarchy.root).minWidth ≤
        (request.requirement request.hierarchy.root).preferredWidth ∧
      (request.requirement request.hierarchy.root).minHeight ≤
        (request.requirement request.hierarchy.root).preferredHeight :=
    hq.required.min_le_preferred _
  simp only [SizingRequest.workingScale, hreq, WorldScale.of, Scalar.max_real, Scalar.atLeast_real]
  refine ⟨?_, ?_⟩
  · rw [Rect.unit_eq, Rect.width_eq, sub_zero, one_mul]
    exact hw.trans ((le_max_right _ _).trans (le_max_left _ _))
  · rw [Rect.unit_eq, Rect.height_eq, sub_zero, one_mul]
    exact hh.trans ((le_max_right _ _).trans (le_max_left _ _))

theorem Roomy.start :
    Roomy request request.workingScale [] (Table.empty.insert request.hierarchy.root .unit) := by
  have honly : ∀ {k box}, (Table.empty.insert request.hierarchy.root (Rect.unit : Rect ℝ)).get? k =
      some box → k = request.hierarchy.root ∧ box = .unit := by
    intro k box hk
    rw [Table.get?_insert_eq] at hk
    split at hk
    · rename_i he
      exact ⟨he, (Option.some.inj hk).symm⟩
    · cases hk
  refine
    { known := fun {k box} hk => ?_
      root := ⟨.unit, Table.get?_insert_self _ _ _⟩
      child := fun hp => absurd hp List.not_mem_nil
      room := fun {k box} hk => ?_
      nested := fun hp => absurd hp List.not_mem_nil
      apart := fun hp => absurd hp List.not_mem_nil }
  · rw [(honly hk).1]
    exact hq.tree.rootKnown
  · obtain ⟨rfl, rfl⟩ := honly hk
    exact unit_room hq

/-- Where the walk comes next, there is a box, and sizing the container keeps the boxes roomy. -/
theorem Roomy.next {done rest : List String} {id : String} {p : Progress ℝ}
    (hsplit : request.hierarchy.preOrder = done ++ id :: rest)
    (hr : Roomy request request.workingScale done p.boxes) :
    ∃ p', sizeContainer request request.workingScale p id = some p' ∧
      Roomy request request.workingScale (done ++ [id]) p'.boxes := by
  have hat := hq.tree.preOrder_split hsplit
  obtain ⟨c, hc⟩ := Table.contains_iff.1 hat.known
  obtain ⟨own, hown⟩ : ∃ own, p.boxes.get? id = some own := by
    cases hpar : request.hierarchy.parent? id with
    | none => rw [hq.tree.top hat.known hpar]; exact hr.root
    | some q => exact hr.child (hat.parentDone hpar) hpar
  obtain ⟨p', hp', hst⟩ :=
    sizeContainer_spec hq (workingScale_proper request) hc hown (hr.room hown)
  exact ⟨p', hp', hr.step hq.tree hat hown hst⟩

/-- **Proportional sizing never breaks down**, and every container of its plan has room. -/
theorem plan_spec :
    ∃ p, plan request = some p ∧ p.scale = request.workingScale ∧ p.hints = .empty ∧
      Roomy request request.workingScale request.hierarchy.preOrder p.boxes := by
  obtain ⟨p, hp, hroomy⟩ := Fold.reaches (m := Option) (l := request.hierarchy.preOrder)
    (b := (⟨Table.empty.insert request.hierarchy.root .unit, 0⟩ : Progress ℝ))
    (fun done p => Roomy request request.workingScale done p.boxes) (Roomy.start hq)
    fun _ _ _ _ hsplit hr => hr.next hq hsplit
  refine ⟨⟨p.boxes, request.workingScale, .empty, .proportional, p.shrunk⟩, ?_, rfl, rfl, hroomy⟩
  rw [plan, hp]
  rfl

/-- Without nesting the unit square alone is such a plan. -/
theorem directPlan_roomy (hn : request.hierarchy.hasNesting = false) :
    Roomy request request.workingScale request.hierarchy.preOrder request.directPlan.boxes := by
  have hsize : request.hierarchy.size ≤ 1 := by simpa [hasNesting] using hn
  have hnone : ∀ {c p}, request.hierarchy.parent? c ≠ some p := fun {c p} hp => by
    have := hq.tree.depth_lt_size (known_of_parent hp)
    have := hq.tree.depthChild hp
    omega
  have hr := Roomy.start hq
  exact
    { known := hr.known
      root := hr.root
      child := fun _ hp => absurd hp hnone
      room := hr.room
      nested := fun _ hp => absurd hp hnone
      apart := fun _ hp => absurd hp hnone }

end

end NestedLayout.Proportional
