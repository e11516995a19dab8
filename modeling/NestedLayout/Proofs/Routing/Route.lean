import NestedLayout.Proofs.Routing.Stops

/-!
# Every connector has a path

* `Polyline.simplify_ne_nil`: a path does not disappear when its idle points are dropped.
* `Route.path_ne_nil`: a connector with a hook at each of its endpoints has a path.
-/

set_option autoImplicit false

namespace NestedLayout

variable {α : Type} [Scalar α]

/-! ## Simplification -/

namespace Polyline

theorem dedupFrom_ne_nil (last : Point α) (path : List (Point α)) : dedupFrom last path ≠ [] := by
  fun_induction dedupFrom last path <;> simp_all

theorem dedup_ne_nil {path : List (Point α)} (h : path ≠ []) : dedup path ≠ [] := by
  cases path with
  | nil => exact absurd rfl h
  | cons p rest =>
    rw [dedup]
    split
    · simp
    · exact dedupFrom_ne_nil p rest

theorem sweep_ne_nil (pinned : List (Point α)) {path : List (Point α)} (h : path ≠ []) :
    sweep pinned path ≠ [] := by
  cases path with
  | nil => exact absurd rfl h
  | cons p rest => simp [sweep]

theorem settle_ne_nil (pinned : List (Point α)) {path : List (Point α)} (h : path ≠ []) :
    settle pinned path ≠ [] := by
  fun_induction settle pinned path with
  | case1 path _ => exact h
  | case2 path _ next _ ih => exact ih (sweep_ne_nil pinned h)
  | case3 path _ next _ => exact sweep_ne_nil pinned h

/-- **A path does not disappear** by simplification. -/
theorem simplify_ne_nil {path : List (Point α)} (pinned : List (Point α)) (h : path ≠ []) :
    simplify path pinned ≠ [] := by
  unfold simplify
  split
  · exact h
  · exact settle_ne_nil pinned (dedup_ne_nil h)

end Polyline

/-! ## Polylines through hooks -/

namespace Route

variable {c : Connector} {hooks : HookTable α} (placements : Placements α) (style : RouteStyle)

/-- **A connector with all its hooks has a path.** -/
theorem path_ne_nil {d : Diagram} (hj : c.Joining d)
    (hhooks : ∀ k : HookKey, k.OfConnector c → hooks.contains k = true) :
    path c hooks placements style ≠ [] := by
  obtain ⟨hub, stops, -, -, -, hvisits⟩ := polyline_visits placements style
    (hhooks _ ⟨rfl, hj.hub⟩) (fun e he => hhooks _ ⟨rfl, (Connector.mem_others.1 he).1⟩)
    hj.others_ne_nil
  exact Polyline.simplify_ne_nil _ hvisits.ne_nil

end Route

end NestedLayout
