import NestedLayout.Proofs.Routing.Between
import NestedLayout.Proofs.Routing.Stops

/-!
# Polylines through hooks

With the hooks that `HookTable.assign` makes for it, a connector has a polyline through all of them.

* `Route.Threads`: a path that comes to the hooks of a connector one after the other and stays in
  the box around them.
* `Route.assigned_threads`: so does the polyline of every connector with two or more different
  endpoints and its hub among them, wherever these stand and whatever other connectors there are.
-/

set_option autoImplicit false

namespace NestedLayout.Route

open Polyline (Visits)

/-- The pins of a connector are the points of its hooks. -/
theorem mem_pins_iff {α : Type} {c : Connector} {hooks : HookTable α} {p : Point α} :
    p ∈ pins c hooks ↔ ∃ id ∈ c.endpoints, ∃ hook, HookTable.hook? hooks c id = some hook ∧
      hook.point = p := by
  simp [pins, List.mem_filterMap]

/-- The path starts at the hook of the hub and comes to the hooks of the other endpoints, in the
order of their angles, the last one at its end, with at most two more points between a hook and the
next. It stays in the smallest rectangle around the hooks of the connector. -/
structure Threads (c : Connector) (hooks : HookTable ℝ) (placements : Placements ℝ)
    (path : List (Point ℝ)) : Prop where
  visits : ∃ (hub : Hook ℝ) (stops : List (Hook ℝ)),
    HookTable.hook? hooks c c.hub = some hub ∧
    (c.othersByAngle placements).map (fun seen => HookTable.hook? hooks c seen.2) =
      stops.map some ∧
    Visits path (hub.point :: stops.map (·.point))
  between : ∃ box, Rect.ofPoints? (pins c hooks) = some box ∧ ∀ p ∈ path, box.Holds p

/-- The polyline of a connector with all its hooks threads them. -/
theorem polyline_threads {c : Connector} {hooks : HookTable ℝ}
    (hhooked : ∀ e ∈ c.endpoints, hooks.contains ⟨c.id, e⟩ = true) (hhub : c.hub ∈ c.endpoints)
    (hne : c.others ≠ []) (placements : Placements ℝ) (style : RouteStyle) :
    Threads c hooks placements (polyline c hooks placements style) := by
  have hothers : ∀ {e}, e ∈ c.others → e ∈ c.endpoints := fun he => (Connector.mem_others.1 he).1
  obtain ⟨hub, stops, hh, -, hstops, hvisits⟩ := polyline_visits placements style
    (hhooked _ hhub) (fun e he => hhooked e (hothers he)) hne
  have hpin : hub.point ∈ pins c hooks := mem_pins_iff.2 ⟨c.hub, hhub, hub, hh, rfl⟩
  obtain ⟨box, hbox⟩ : ∃ box, Rect.ofPoints? (pins c hooks) = some box := by
    cases hpins : pins c hooks with
    | nil =>
      rw [hpins] at hpin
      cases hpin
    | cons p rest => exact ⟨_, rfl⟩
  refine ⟨⟨hub, stops, hh, hstops, hvisits⟩, box, hbox, polyline_holds (fun hid hhook => ?_) style⟩
  exact Rect.ofPoints?_holds hbox _
    (mem_pins_iff.2 ⟨_, hid.elim (fun he => he ▸ hhub) hothers, _, hhook, rfl⟩)

/-- **The polyline of a connector threads its hooks**, for every connector of two or more different
endpoints with its hub among them, whatever the other connectors are and wherever the elements
stand. -/
theorem assigned_threads {cs : List Connector} {c : Connector} (hc : c ∈ cs)
    (hdistinct : c.endpoints.Nodup) (hseveral : 2 ≤ c.endpoints.length)
    (hhub : c.hub ∈ c.endpoints) (placements : Placements ℝ) (ring : ℝ × ℝ) (style : RouteStyle) :
    Threads c (.assign cs placements ring) placements
      (polyline c (.assign cs placements ring) placements style) := by
  have hhooked : ∀ e ∈ c.endpoints,
      (HookTable.assign cs placements ring).contains ⟨c.id, e⟩ = true := fun e he =>
    HookTable.contains_assign_iff_hookedBy.2 ⟨c, hc, rfl, .inr he⟩
  exact polyline_threads hhooked hhub (Connector.others_ne_nil hdistinct hseveral) placements style

/-- A connector of three endpoints beside another one at its hub. -/
def fork : Connector := ⟨"fork", ["v", "p", "w"], "p", "sheet"⟩

/-- The hub and one of the others have bodies; the last one was not placed. -/
def forked : Placements ℝ :=
  .ofList [("p", ⟨⟨0.1, 0.1, 0.2, 0.2⟩, ⟨0.1, 0.1, 0.2, 0.2⟩, false⟩),
    ("v", ⟨⟨0.7, 0.2, 0.8, 0.3⟩, ⟨0.7, 0.2, 0.8, 0.3⟩, false⟩)]

theorem fork_threads : fork ∈ [⟨"twig", ["p", "w"], "p", "sheet"⟩, fork] ∧
    fork.endpoints.Nodup ∧ 2 ≤ fork.endpoints.length ∧ fork.hub ∈ fork.endpoints ∧
    Threads fork (.assign [⟨"twig", ["p", "w"], "p", "sheet"⟩, fork] forked (0.01, 0.01)) forked
      (polyline fork (.assign [⟨"twig", ["p", "w"], "p", "sheet"⟩, fork] forked (0.01, 0.01)) forked
        .rectilinear) := by
  have hmem : fork ∈ [⟨"twig", ["p", "w"], "p", "sheet"⟩, fork] := .tail _ (.head _)
  exact ⟨hmem, by decide, by decide, by decide,
    assigned_threads hmem (by decide) (by decide) (by decide) forked _ _⟩

end NestedLayout.Route
