import NestedLayout.Proofs.Routing.Hook
import NestedLayout.Routing.Route

/-!
# The stops of a polyline

The polyline of a connector goes from the hook at its hub through the hooks at its other endpoints,
in the order of their angles, and bends at most twice on the way from one to the next.

* `Polyline.Visits`: a path stops at some points in their order; `Visits.runs` finds its ends.
* `Route.chain_visits`: joined legs stop where each leg ends and the next one starts.
* `Route.polyline_visits`: the polyline of a connector with all its hooks, which has one leg or is a
  chain of several.
-/

set_option autoImplicit false

namespace NestedLayout

variable {α : Type}

namespace Polyline

/-! ## Runs and stops -/

/-- A path of two points or more from `a` to `b`. -/
def Runs (path : List (Point α)) (a b : Point α) : Prop := ∃ inner, path = a :: (inner ++ [b])

/-- The path goes from the first of the stops to the last one and comes to the others on its way, in
their order, with at most two more points between a stop and the next. -/
inductive Visits : List (Point α) → List (Point α) → Prop
  | stop (p : Point α) : Visits [p] [p]
  | leg {p : Point α} {bends path stops : List (Point α)} (few : bends.length ≤ 2)
      (further : Visits path stops) : Visits (p :: (bends ++ path)) (p :: stops)

section
variable {path : List (Point α)} {a b : Point α}

theorem Runs.head? (h : Runs path a b) : path.head? = some a := by
  obtain ⟨inner, rfl⟩ := h
  rfl

theorem Runs.getLast? (h : Runs path a b) : path.getLast? = some b := by
  obtain ⟨inner, rfl⟩ := h
  rw [← List.cons_append, List.getLast?_append_of_ne_nil _ (by simp)]
  rfl

theorem Runs.leg (a b : Point α) : Runs [a, b] a b := ⟨[], rfl⟩

theorem Runs.cons (p : Point α) (h : Runs path a b) : Runs (p :: path) p b := by
  obtain ⟨inner, rfl⟩ := h
  exact ⟨a :: inner, rfl⟩

/-- A path goes on along a leg that starts where it stops. -/
theorem Runs.join {leg : List (Point α)} {c : Point α} (h : Runs path a b) (hleg : Runs leg b c) :
    Runs (path ++ leg.drop 1) a c := by
  obtain ⟨inner, rfl⟩ := h
  obtain ⟨inner', rfl⟩ := hleg
  exact ⟨inner ++ b :: inner', by simp⟩

theorem Visits.ne_nil {stops : List (Point α)} (h : Visits path stops) : path ≠ [] := by
  cases h <;> exact List.cons_ne_nil _ _

/-- A leg with at most two bends comes before a path from where it stops. -/
theorem Visits.after {leg stops : List (Point α)} (hleg : Runs leg a b) (hfew : leg.length ≤ 4)
    (h : Visits (b :: path) stops) : Visits (a :: (leg.drop 1 ++ path)) (a :: stops) := by
  obtain ⟨bends, rfl⟩ := hleg
  rw [List.drop_one, List.tail_cons, List.append_assoc, List.singleton_append]
  refine .leg ?_ h
  simp only [List.length_cons, List.length_append, List.length_nil] at hfew
  omega

/-- A leg with at most two bends visits its ends. -/
theorem Visits.of_leg {leg : List (Point α)} (hleg : Runs leg a b) (hfew : leg.length ≤ 4) :
    Visits leg [a, b] := by
  have h := Visits.after hleg hfew (.stop b)
  obtain ⟨bends, rfl⟩ := hleg
  simpa using h

/-- **A path with stops** runs from the first to the last of them. -/
theorem Visits.runs {stops : List (Point α)} (h : Visits path (a :: (stops ++ [b]))) :
    Runs path a b := by
  induction stops generalizing path a with
  | nil =>
    cases h with
    | leg few further =>
      cases further with
      | stop => exact ⟨_, rfl⟩
      | leg _ further => cases further
  | cons c stops ih =>
    cases h with
    | @leg _ bends _ _ _ further =>
      obtain ⟨inner, rfl⟩ := ih further
      exact ⟨bends ++ c :: inner, by simp⟩

end

end Polyline

namespace Route

open Polyline (Runs Visits)

variable [Scalar α]

/-! ## Legs -/

theorem throughMiddle_runs (a b : Point α) : Runs (throughMiddle a b) a b := by
  unfold throughMiddle
  split <;> exact ⟨[_, _], rfl⟩

theorem aroundCorner_runs (a b : Point α) : Runs (aroundCorner a b) a b := by
  unfold aroundCorner
  split <;> exact ⟨[_], rfl⟩

theorem orthogonal_runs (a b : Point α) (side : Side) : Runs (orthogonal a b side) a b := by
  unfold orthogonal
  split
  · exact .leg a b
  · split
    · exact throughMiddle_runs a b
    · exact aroundCorner_runs a b

theorem chainLeg_runs (style : RouteStyle) (a b : Point α) : Runs (chainLeg style a b) a b := by
  unfold chainLeg
  split
  · exact .leg a b
  · split
    · exact .leg a b
    · exact throughMiddle_runs a b

theorem length_throughMiddle (a b : Point α) : (throughMiddle a b).length = 4 := by
  unfold throughMiddle
  split <;> rfl

theorem length_aroundCorner (a b : Point α) : (aroundCorner a b).length = 3 := by
  unfold aroundCorner
  split <;> rfl

theorem length_orthogonal_le (a b : Point α) (side : Side) : (orthogonal a b side).length ≤ 4 := by
  unfold orthogonal
  split
  · exact (by decide : 2 ≤ 4)
  · split
    · exact (length_throughMiddle a b).le
    · exact (length_aroundCorner a b).le.trans (by decide)

theorem length_chainLeg_le (style : RouteStyle) (a b : Point α) :
    (chainLeg style a b).length ≤ 4 := by
  unfold chainLeg
  split
  · exact (by decide : 2 ≤ 4)
  · split
    · exact (by decide : 2 ≤ 4)
    · exact (length_throughMiddle a b).le

/-! ## Chains -/

omit [Scalar α] in
/-- The first leg as a whole, and all that the others add to it. -/
theorem joinLegs_cons (leg : List (Point α)) (rest : List (List (Point α))) :
    joinLegs (leg :: rest) = leg ++ rest.flatMap (·.drop 1) := by
  rw [joinLegs, List.foldl_append_eq_append, List.flatMap_def]

/-- What the legs between some points add to the first of them visits them all. -/
theorem legs_visit (style : RouteStyle) (p : Point α) (points : List (Point α)) :
    Visits (p :: (Polyline.legs (p :: points)).flatMap fun leg =>
      (chainLeg style leg.1 leg.2).drop 1) (p :: points) := by
  induction points generalizing p with
  | nil => exact .stop p
  | cons q points ih =>
    have hlegs : Polyline.legs (p :: q :: points) = (p, q) :: Polyline.legs (q :: points) := rfl
    rw [hlegs, List.flatMap_cons]
    exact .after (chainLeg_runs style p q) (length_chainLeg_le style p q) (ih q)

/-- **A chain visits its hooks.** -/
theorem chain_visits (style : RouteStyle) (hub first : Hook α) (rest : List (Hook α)) :
    Visits (chain style hub (first :: rest))
      (hub.point :: (first :: rest).map (·.point)) := by
  have hvisits := legs_visit style hub.point ((first :: rest).map (·.point))
  obtain ⟨bends, hleg⟩ := chainLeg_runs style hub.point first.point
  have hlegs : Polyline.legs (hub.point :: (first :: rest).map (·.point)) =
      (hub.point, first.point) :: Polyline.legs ((first :: rest).map (·.point)) := rfl
  rw [hlegs, List.flatMap_cons] at hvisits
  rw [chain, hlegs, List.map_cons, joinLegs_cons, List.flatMap_map]
  dsimp only at hvisits ⊢
  rw [hleg] at hvisits ⊢
  exact hvisits

/-! ## Polylines -/

variable {c : Connector} {hooks : HookTable α} (placements : Placements α) (style : RouteStyle)

/-- **The polyline of a connector visits its hooks**: first the one at the hub, then the others by
the angles of their endpoints. -/
theorem polyline_visits (hhub : hooks.contains ⟨c.id, c.hub⟩ = true)
    (hothers : ∀ e ∈ c.others, hooks.contains ⟨c.id, e⟩ = true) (hne : c.others ≠ []) :
    ∃ hub stops, HookTable.hook? hooks c c.hub = some hub ∧ stops ≠ [] ∧
      (c.othersByAngle placements).map (fun seen => HookTable.hook? hooks c seen.2) =
        stops.map some ∧
      Visits (polyline c hooks placements style) (hub.point :: stops.map (·.point)) := by
  obtain ⟨hub, hh⟩ := Table.contains_iff.1 hhub
  have hh : HookTable.hook? hooks c c.hub = some hub := hh
  have hperm := c.othersByAngle_perm placements
  have hall : ∀ e ∈ (c.othersByAngle placements).map (·.2),
      (HookTable.hook? hooks c e).isSome = true := fun e he => hothers e (hperm.mem_iff.1 he)
  have hlist : (c.othersByAngle placements).map (·.2) ≠ [] := fun hnil =>
    hne (List.perm_nil.1 (hnil ▸ hperm).symm)
  have hstops : (c.othersByAngle placements).map (fun seen => HookTable.hook? hooks c seen.2) =
      (((c.othersByAngle placements).map (·.2)).filterMap (HookTable.hook? hooks c)).map some := by
    rw [List.map_filterMap_some_eq_filter_map_isSome, List.filter_eq_self.2
      (List.forall_mem_map.2 hall), List.map_map]
    rfl
  rw [hstops, polyline, hh]
  dsimp only
  generalize (c.othersByAngle placements).map (·.2) = others at hall hlist
  match others, hlist with
  | [other], _ =>
    obtain ⟨stop, hs⟩ := Option.isSome_iff_exists.1 (hall other (.head _))
    refine ⟨hub, [stop], rfl, List.cons_ne_nil _ _, by simp [hs], ?_⟩
    dsimp only
    rw [hs]
    cases style with
    | straight => exact .of_leg (.leg _ _) (Nat.le_add_right 2 2)
    | rectilinear => exact .of_leg (orthogonal_runs _ _ _) (length_orthogonal_le _ _ _)
  | other :: next :: rest, _ =>
    obtain ⟨first, hf⟩ := Option.isSome_iff_exists.1 (hall other (.head _))
    dsimp only
    rw [List.filterMap_cons_some hf]
    exact ⟨hub, _, rfl, List.cons_ne_nil _ _, rfl, chain_visits style hub first _⟩

end Route

end NestedLayout
