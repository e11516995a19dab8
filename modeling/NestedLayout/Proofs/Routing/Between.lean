import NestedLayout.Proofs.Exact.Rect
import NestedLayout.Proofs.Routing.Hook
import NestedLayout.Routing.Route

/-!
# Paths stay between their hooks

Hooks lie on the bodies of their elements, and a path never leaves a rectangle that holds its hooks:
its legs bend at points between their ends, and simplification only drops points.

* `Polyline.simplify_subset`: what is left of a path was on it.
* `Route.path_holds`: a rectangle that holds the hooks of a connector holds its path.
* `HookTable.assign_onBodies`: every assigned hook is on one side of the body of its endpoint, so a
  body with an extent holds it (`Hook.on_holds`).
-/

set_option autoImplicit false

namespace NestedLayout

/-! ## Simplification -/

namespace Polyline

variable {α : Type} [Scalar α]

/-- Without repeated points there are no new ones. -/
theorem dedupFrom_sublist (last : Point α) (path : List (Point α)) :
    (dedupFrom last path).Sublist (last :: path) := by
  fun_induction dedupFrom last path with
  | case1 => exact .refl _
  | case2 last p _ => exact .cons _ (.refl _)
  | case3 => exact .refl _
  | case4 last p q rest _ ih => exact ih.trans ((List.sublist_cons_self p _).cons_cons last)
  | case5 last p q rest _ ih => exact ih.cons_cons last

theorem dedup_subset (path : List (Point α)) : dedup path ⊆ path := by
  unfold dedup
  split
  · exact List.Subset.refl _
  · rename_i p rest
    have hfrom := (dedupFrom_sublist p rest).subset
    split
    · rename_i q hq
      rw [hq] at hfrom
      exact List.cons_subset.2 ⟨hfrom (.head _),
        List.cons_subset.2 ⟨List.getLast_mem _, List.nil_subset _⟩⟩
    · exact hfrom

theorem sweepFrom_sublist (pinned : List (Point α)) (prev : Point α) (path : List (Point α)) :
    (sweepFrom pinned prev path).Sublist path := by
  fun_induction sweepFrom pinned prev path with
  | case1 => exact .refl _
  | case2 => exact .refl _
  | case3 prev p q rest _ ih => exact ih.cons p
  | case4 prev p q rest _ ih => exact ih.cons_cons p

/-- A sweep only takes points away. -/
theorem sweep_sublist (pinned path : List (Point α)) : (sweep pinned path).Sublist path := by
  cases path with
  | nil => exact .refl _
  | cons p rest => exact (sweepFrom_sublist pinned p rest).cons_cons p

theorem settle_sublist (pinned path : List (Point α)) : (settle pinned path).Sublist path := by
  fun_induction settle pinned path with
  | case1 => exact .refl _
  | case2 path =>
    rename_i ih
    exact ih.trans (sweep_sublist pinned path)
  | case3 path => exact sweep_sublist pinned path

/-- **Simplification only drops points.** -/
theorem simplify_subset (path pinned : List (Point α)) : simplify path pinned ⊆ path := by
  unfold simplify
  split
  · exact List.Subset.refl _
  · exact List.Subset.trans (settle_sublist pinned _).subset (dedup_subset path)

end Polyline

/-! ## Legs -/

namespace Route

section
variable {r : Rect ℝ} {a b : Point ℝ} (ha : r.Holds a) (hb : r.Holds b)
include ha hb

theorem throughMiddle_holds : ∀ p ∈ throughMiddle a b, r.Holds p := by
  have hx : r.left ≤ (a.x + b.x) / 2.0 ∧ (a.x + b.x) / 2.0 ≤ r.right := by
    rw [Scalar.two_real]
    constructor <;> linarith [ha.left, ha.right, hb.left, hb.right]
  have hy : r.top ≤ (a.y + b.y) / 2.0 ∧ (a.y + b.y) / 2.0 ≤ r.bottom := by
    rw [Scalar.two_real]
    constructor <;> linarith [ha.top, ha.bottom, hb.top, hb.bottom]
  unfold throughMiddle
  split
  · simp only [List.forall_mem_cons, List.not_mem_nil, false_implies, implies_true, and_true]
    exact ⟨ha, ⟨hx.1, ha.top, hx.2, ha.bottom⟩, ⟨hx.1, hb.top, hx.2, hb.bottom⟩, hb⟩
  · simp only [List.forall_mem_cons, List.not_mem_nil, false_implies, implies_true, and_true]
    exact ⟨ha, ⟨ha.left, hy.1, ha.right, hy.2⟩, ⟨hb.left, hy.1, hb.right, hy.2⟩, hb⟩

theorem aroundCorner_holds : ∀ p ∈ aroundCorner a b, r.Holds p := by
  unfold aroundCorner
  split
  · simp only [List.forall_mem_cons, List.not_mem_nil, false_implies, implies_true, and_true]
    exact ⟨ha, ⟨hb.left, ha.top, hb.right, ha.bottom⟩, hb⟩
  · simp only [List.forall_mem_cons, List.not_mem_nil, false_implies, implies_true, and_true]
    exact ⟨ha, ⟨ha.left, hb.top, ha.right, hb.bottom⟩, hb⟩

theorem straight_holds : ∀ p ∈ [a, b], r.Holds p := by
  simpa using ⟨ha, hb⟩

/-- **A leg stays between its ends.** -/
theorem orthogonal_holds (side : Side) : ∀ p ∈ orthogonal a b side, r.Holds p := by
  unfold orthogonal
  split
  · exact straight_holds ha hb
  · split
    · exact throughMiddle_holds ha hb
    · exact aroundCorner_holds ha hb

theorem chainLeg_holds (style : RouteStyle) : ∀ p ∈ chainLeg style a b, r.Holds p := by
  unfold chainLeg
  split
  · exact straight_holds ha hb
  · split
    · exact straight_holds ha hb
    · exact throughMiddle_holds ha hb

end

/-! ## Paths -/

section
variable {r : Rect ℝ}

theorem joinLegs_holds {legs : List (List (Point ℝ))} (h : ∀ leg ∈ legs, ∀ p ∈ leg, r.Holds p) :
    ∀ p ∈ joinLegs legs, r.Holds p := by
  cases legs with
  | nil => simp [joinLegs]
  | cons leg legs =>
    obtain ⟨hleg, hlegs⟩ := List.forall_mem_cons.1 h
    refine Fold.keeps (fun _ (path : List (Point ℝ)) => ∀ p ∈ path, r.Holds p) hleg
      fun done next rest path hs hpath p hp => ?_
    rcases List.mem_append.1 hp with hp | hp
    · exact hpath p hp
    · exact hlegs next (hs ▸ List.mem_append_right _ (.head _)) p (List.mem_of_mem_drop hp)

theorem chain_holds {hub : Hook ℝ} {others : List (Hook ℝ)} (hhub : r.Holds hub.point)
    (hothers : ∀ hook ∈ others, r.Holds hook.point) (style : RouteStyle) :
    ∀ p ∈ chain style hub others, r.Holds p := by
  have hpoints : ∀ p ∈ hub.point :: others.map (·.point), r.Holds p :=
    List.forall_mem_cons.2 ⟨hhub, List.forall_mem_map.2 hothers⟩
  refine joinLegs_holds fun leg hleg => ?_
  obtain ⟨ends, hends, rfl⟩ := List.mem_map.1 hleg
  obtain ⟨hfirst, hlast⟩ := List.of_mem_zip hends
  exact chainLeg_holds (hpoints _ hfirst) (hpoints _ (List.mem_of_mem_tail hlast)) style

variable {c : Connector} {hooks : HookTable ℝ}

/-- **A polyline stays between the hooks** that it comes to. -/
theorem polyline_holds {placements : Placements ℝ}
    (h : ∀ {id hook}, id = c.hub ∨ id ∈ c.others → HookTable.hook? hooks c id = some hook →
      r.Holds hook.point) (style : RouteStyle) :
    ∀ p ∈ polyline c hooks placements style, r.Holds p := by
  have hperm := c.othersByAngle_perm placements
  unfold polyline
  split
  · simp
  · rename_i hub hhub
    have hhub := h (.inl rfl) hhub
    split
    · rename_i other hother
      have hmem : other ∈ c.others := hperm.mem_iff.1 (hother ▸ .head _)
      split
      · simp
      · rename_i stop hstop
        exact straight_holds hhub (h (.inr hmem) hstop)
      · rename_i stop hstop
        exact orthogonal_holds hhub (h (.inr hmem) hstop) stop.side
    · refine chain_holds hhub (fun hook hm => ?_) style
      obtain ⟨id, hid, hhook⟩ := List.mem_filterMap.1 hm
      exact h (.inr (hperm.mem_iff.1 hid)) hhook

/-- **A path stays between the hooks** of its connector. -/
theorem path_holds
    (h : ∀ {id hook}, HookTable.hook? hooks c id = some hook → r.Holds hook.point)
    (placements : Placements ℝ) (style : RouteStyle) :
    ∀ p ∈ path c hooks placements style, r.Holds p := fun p hp =>
  polyline_holds (fun _ => h) style p (Polyline.simplify_subset _ _ hp)

end

end Route

/-! ## Hooks -/

/-- A body with an extent on both axes holds its hooks. -/
theorem Hook.on_holds {body : Rect ℝ} (hw : Scalar.epsilon < body.width)
    (hh : Scalar.epsilon < body.height) (side : Side) (ring : ℝ × ℝ) :
    body.Holds (Hook.on body side ring).point := by
  have hsolid : body.isDegenerate = false := by simp [Rect.isDegenerate, hw, hh]
  have hacross : body.left < body.right := sub_pos.1 (Scalar.epsilon_pos.trans hw)
  have hdown : body.top < body.bottom := sub_pos.1 (Scalar.epsilon_pos.trans hh)
  rw [Hook.on, hsolid]
  cases side <;> constructor <;>
    simp only [Bool.false_eq_true, if_false, Side.pointOn, Rect.center_x, Rect.center_y] <;>
    linarith

namespace HookTable

variable {α : Type} [Scalar α] {placements : Placements α} {ring : α × α}

/-- Every hook is on a side of the body of its endpoint. -/
def OnBodies (placements : Placements α) (ring : α × α) (hooks : HookTable α) : Prop :=
  ∀ {k hook}, hooks.get? k = some hook →
    ∃ side, hook = .on (Placement.bodyOf placements k.endpoint) side ring

theorem OnBodies.insert {hooks : HookTable α} (h : OnBodies placements ring hooks)
    (connector id : String) (side : Side) :
    OnBodies placements ring
      (hooks.insert ⟨connector, id⟩ (.on (Placement.bodyOf placements id) side ring)) := by
  intro k hook hk
  rw [Table.get?_insert_eq] at hk
  split at hk
  · rename_i he
    cases hk
    subst he
    exact ⟨side, rfl⟩
  · exact h hk

theorem assign_onBodies (cs : List Connector) (placements : Placements α) (ring : α × α) :
    OnBodies placements ring (assign cs placements ring) := by
  refine Fold.keeps (fun _ hooks => OnBodies placements ring hooks)
    (fun {k hook} hk => by cases (Table.get?_empty k).symm.trans hk) fun _ hub _ hooks _ h => ?_
  refine Fold.keeps (fun _ hooks => OnBodies placements ring hooks) h fun _ spoke _ hooks _ h => ?_
  exact Fold.keeps (fun _ hooks => OnBodies placements ring hooks) (h.insert _ _ _)
    fun _ id _ hooks _ h => h.insert _ _ _

end HookTable

end NestedLayout
