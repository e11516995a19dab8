import NestedLayout.Proofs.Routing.Route

/-!
# Where paths start and stop

A path runs from the hook at the hub to the hook at the last of the other endpoints.

* `Polyline.simplify_runs`: dropping idle points keeps the last point of a path as it is. The first
  one is replaced by the last when the whole path shrinks to it, so it stays near.
* `Route.polyline_runs`: the polyline of a connector with all its hooks runs from hook to hook.
* `Route.path_attached`: its path is attached to its hooks (`Route.Attached`).
-/

set_option autoImplicit false

namespace NestedLayout

variable {α : Type} [Scalar α]

/-- The points agree: they are the same, or within the tolerance of each other. -/
def Point.Meets (p q : Point α) : Prop := p = q ∨ p.near q = true

theorem Point.Meets.refl (p : Point α) : p.Meets p := .inl rfl

namespace Polyline

/-! ## Simplification -/

section
variable {path : List (Point α)} {a b : Point α}

/-- Without repeated points a path still stops where it did. It still starts where it did, or it has
shrunk to its last point. -/
theorem dedupFrom_runs (h : Runs (a :: path) a b) : Runs (dedupFrom a path) a b ∨
    dedupFrom a path = [b] ∧ a.near b = true := by
  obtain ⟨inner, hinner⟩ := h
  obtain rfl : path = inner ++ [b] := by simpa using hinner
  clear hinner
  induction inner generalizing a with
  | nil =>
    by_cases hnear : a.near b = true
    · exact .inr ⟨by simp [dedupFrom, hnear], hnear⟩
    · exact .inl (by simpa [dedupFrom, hnear] using Runs.leg a b)
  | cons p inner ih =>
    obtain ⟨q, rest, hq⟩ : ∃ q rest, inner ++ [b] = q :: rest := by
      cases inner <;> simp
    rw [List.cons_append, hq, dedupFrom, ← hq]
    by_cases hnear : a.near p = true
    · rw [if_pos hnear]
      exact ih
    · rw [if_neg hnear]
      refine .inl ?_
      rcases ih (a := p) with hruns | ⟨hone, -⟩
      · exact hruns.cons a
      · rw [hone]
        exact .leg a b

theorem dedup_runs (h : Runs path a b) :
    ∃ start, a.Meets start ∧ Runs (dedup path) start b := by
  obtain ⟨inner, rfl⟩ := h
  have hruns : Runs (a :: (inner ++ [b])) a b := ⟨inner, rfl⟩
  rw [dedup]
  rcases dedupFrom_runs hruns with hruns | ⟨hone, hnear⟩
  · refine ⟨a, .refl a, ?_⟩
    obtain ⟨inner', h'⟩ := hruns
    rw [h']
    cases inner' with
    | nil => exact .leg a b
    | cons p rest => exact ⟨p :: rest, rfl⟩
  · refine ⟨b, .inr hnear, ?_⟩
    rw [hone]
    exact ⟨[], by simp⟩

theorem sweepFrom_last (pinned : List (Point α)) (prev : Point α) (inner : List (Point α))
    (b : Point α) : ∃ inner', sweepFrom pinned prev (inner ++ [b]) = inner' ++ [b] := by
  induction inner generalizing prev with
  | nil => exact ⟨[], rfl⟩
  | cons p inner ih =>
    obtain ⟨q, rest, hq⟩ : ∃ q rest, inner ++ [b] = q :: rest := by
      cases inner <;> simp
    rw [List.cons_append, hq, sweepFrom, ← hq]
    split
    · exact ih prev
    · obtain ⟨inner', h'⟩ := ih p
      exact ⟨p :: inner', by rw [h']; rfl⟩

theorem sweep_runs (pinned : List (Point α)) (h : Runs path a b) :
    Runs (sweep pinned path) a b := by
  obtain ⟨inner, rfl⟩ := h
  obtain ⟨inner', h'⟩ := sweepFrom_last pinned a inner b
  exact ⟨inner', by rw [sweep, h']⟩

theorem settle_runs (pinned : List (Point α)) (h : Runs path a b) :
    Runs (settle pinned path) a b := by
  fun_induction settle pinned path with
  | case1 path _ => exact h
  | case2 path _ next _ ih => exact ih (sweep_runs pinned h)
  | case3 path _ next _ => exact sweep_runs pinned h

/-- **Simplification keeps the ends of a path**: the last point as it is, the first one unless the
whole path is near it. -/
theorem simplify_runs (pinned : List (Point α)) (h : Runs path a b) :
    ∃ start, a.Meets start ∧ Runs (simplify path pinned) start b := by
  unfold simplify
  split
  · exact ⟨a, .refl a, h⟩
  · obtain ⟨start, hstart, hruns⟩ := dedup_runs h
    exact ⟨start, hstart, settle_runs pinned hruns⟩

end

end Polyline

/-! ## Polylines -/

namespace Route

open Polyline (Runs)

variable {c : Connector} {hooks : HookTable α} (placements : Placements α) (style : RouteStyle)

/-- **The polyline of a connector runs from hook to hook**: from its hub to the last of its other
endpoints by angle. -/
theorem polyline_runs (hhub : hooks.contains ⟨c.id, c.hub⟩ = true)
    (hothers : ∀ e ∈ c.others, hooks.contains ⟨c.id, e⟩ = true) (hne : c.others ≠ []) :
    ∃ hub id stop, HookTable.hook? hooks c c.hub = some hub ∧
      ((c.othersByAngle placements).map (·.2)).getLast? = some id ∧
      HookTable.hook? hooks c id = some stop ∧
      Runs (polyline c hooks placements style) hub.point stop.point := by
  obtain ⟨hub, stops, hh, hne, hstops, hvisits⟩ := polyline_visits placements style hhub hothers hne
  obtain ⟨inner, stop, rfl⟩ := (List.eq_nil_or_concat stops).resolve_left hne
  rw [List.concat_eq_append, List.map_append, List.map_singleton] at hstops hvisits
  -- the last stop is the hook of the last endpoint
  obtain ⟨first, last, hsplit, -, hlast⟩ := List.map_eq_append_iff.1 hstops
  obtain ⟨seen, rfl, hseen⟩ := List.map_eq_singleton_iff.1 hlast
  refine ⟨hub, seen.2, stop, hh, ?_, hseen, hvisits.runs⟩
  rw [hsplit, List.map_append, List.map_singleton, List.getLast?_concat]

/-! ## Paths -/

/-- A path is attached to the hooks of a connector: it starts at the hook of the hub and stops at
the hook of the last other endpoint by angle. -/
structure Attached (c : Connector) (hooks : HookTable α) (placements : Placements α)
    (path : List (Point α)) : Prop where
  start : ∃ hub p, HookTable.hook? hooks c c.hub = some hub ∧ path.head? = some p ∧
    hub.point.Meets p
  stop : ∃ id hook p, ((c.othersByAngle placements).map (·.2)).getLast? = some id ∧
    HookTable.hook? hooks c id = some hook ∧ path.getLast? = some p ∧ hook.point.Meets p

/-- **The path of a connector with all its hooks is attached to them.** -/
theorem path_attached {d : Diagram} (hj : c.Joining d)
    (hhooks : ∀ k : HookKey, k.OfConnector c → hooks.contains k = true) :
    Attached c hooks placements (path c hooks placements style) := by
  obtain ⟨hub, id, stop, hhub, hid, hstop, hruns⟩ := polyline_runs placements style
    (hhooks _ ⟨rfl, hj.hub⟩) (fun e he => hhooks _ ⟨rfl, (Connector.mem_others.1 he).1⟩)
    hj.others_ne_nil
  obtain ⟨p, hp, hpath⟩ := Polyline.simplify_runs (pins c hooks) hruns
  exact ⟨⟨hub, p, hhub, hpath.head?, hp⟩, id, stop, stop.point, hid, hstop, hpath.getLast?,
    .refl _⟩

end Route

end NestedLayout
