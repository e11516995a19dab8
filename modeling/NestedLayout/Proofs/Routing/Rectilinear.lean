import NestedLayout.Proofs.Binary32.Distance
import NestedLayout.Proofs.Exact.Scalar
import NestedLayout.Proofs.Routing.Ends
import NestedLayout.Proofs.Routing.Rotation
import Mathlib.Data.List.Chain

/-!
# Rectilinear paths

The polyline of a connector in the rectilinear style is made of horizontal and vertical legs. Its
path still is when simplification has nothing to drop.

* `Polyline.simplify_eq_self`: nothing is dropped when successive points are apart (`Spaced`) and
  every bend is pinned or counts (`Sharp`).
* `Polyline.Clean.join`: straight legs with nothing to drop that meet in a pinned point are one such
  path.
* `Route.path_eq_polyline`: the path of a connector whose legs from hook to hook are `Firm` is its
  polyline, and rectilinear.
-/

set_option autoImplicit false

namespace NestedLayout

open Scalar (epsilon)

/-- The distance of two scalars does not depend on their order. -/
class Scalar.Balanced (α : Type) [Scalar α] : Prop where
  abs_sub_le_comm : ∀ a b c : α, Scalar.abs (a - b) ≤ c ↔ Scalar.abs (b - a) ≤ c

instance : Scalar.Balanced Float32 :=
  ⟨fun a b _ => (Binary32.sameValue_abs_sub a b).le_iff⟩

instance : Scalar.Balanced ℝ :=
  ⟨fun a b c => by rw [Scalar.abs_real, Scalar.abs_real, abs_sub_comm]⟩

variable {α : Type} [Scalar α]

namespace Polyline

/-! ## Paths with nothing to drop -/

/-- Successive points are told apart. -/
def Spaced (path : List (Point α)) : Prop := path.IsChain fun p q => p.near q = false

/-- Every inner point is pinned or a turn that counts. -/
def Sharp (pinned : List (Point α)) : List (Point α) → Prop
  | a :: b :: c :: rest =>
    (isPinned b pinned = true ∨ collinear a b c = false) ∧ Sharp pinned (b :: c :: rest)
  | _ => True

instance decidableSharp (pinned : List (Point α)) :
    (path : List (Point α)) → Decidable (Sharp pinned path)
  | _ :: b :: c :: rest =>
    have := decidableSharp pinned (b :: c :: rest)
    inferInstanceAs (Decidable (_ ∧ _))
  | [] => .isTrue trivial
  | [_] => .isTrue trivial
  | [_, _] => .isTrue trivial

theorem Sharp.mono {pinned : List (Point α)} :
    ∀ {path : List (Point α)}, Sharp [] path → Sharp pinned path
  | _ :: _ :: _ :: _, ⟨hb, hrest⟩ => ⟨.inr (hb.resolve_left (by simp [isPinned])), hrest.mono⟩
  | [], _ => trivial
  | [_], _ => trivial
  | [_, _], _ => trivial

theorem dedupFrom_of_spaced {last : Point α} {path : List (Point α)}
    (h : Spaced (last :: path)) : dedupFrom last path = last :: path := by
  fun_induction dedupFrom last path with
  | case1 => rfl
  | case2 last p hnear =>
    rw [(List.isChain_cons_cons.1 h).1] at hnear
    cases hnear
  | case3 => rfl
  | case4 last p q rest hnear ih =>
    rw [(List.isChain_cons_cons.1 h).1] at hnear
    cases hnear
  | case5 last p q rest hnear ih => rw [ih (List.isChain_cons_cons.1 h).2]

theorem sweepFrom_of_sharp {pinned : List (Point α)} {prev : Point α} {path : List (Point α)}
    (h : Sharp pinned (prev :: path)) : sweepFrom pinned prev path = path := by
  fun_induction sweepFrom pinned prev path with
  | case1 => rfl
  | case2 => rfl
  | case3 prev p q rest hdrop ih =>
    rw [Bool.and_eq_true, Bool.not_eq_true'] at hdrop
    rcases h.1 with hpinned | hturn
    · rw [hdrop.1] at hpinned
      cases hpinned
    · rw [hdrop.2] at hturn
      cases hturn
  | case4 prev p q rest _ ih => rw [ih h.2]

/-- A path of spaced points only loses inner points on a straight run. -/
theorem simplify_of_spaced {path : List (Point α)} (h : Spaced path) (pinned : List (Point α)) :
    simplify path pinned = settle pinned path := by
  unfold simplify
  split
  · rename_i hshort
    rw [settle, if_pos hshort]
  · rename_i hlong
    obtain ⟨p, q, rest, rfl⟩ : ∃ p q rest, path = p :: q :: rest := by
      rcases path with - | ⟨p, - | ⟨q, rest⟩⟩
      · exact absurd (Nat.zero_le 2) hlong
      · exact absurd (Nat.le_succ 1) hlong
      · exact ⟨p, q, rest, rfl⟩
    rw [dedup, dedupFrom_of_spaced h]

/-- **A path with nothing to drop stays as it is.** -/
theorem simplify_eq_self {pinned path : List (Point α)} (hspaced : Spaced path)
    (hsharp : Sharp pinned path) : simplify path pinned = path := by
  have hsweep : sweep pinned path = path := by
    cases path with
    | nil => rfl
    | cons p rest => rw [sweep, sweepFrom_of_sharp hsharp]
  rw [simplify_of_spaced hspaced, settle, hsweep]
  split
  · rfl
  · exact if_neg (Nat.lt_irrefl _)

/-- A single bend that is too flat goes. -/
theorem simplify_bend_of_flat {pinned : List (Point α)} {a m b : Point α}
    (hspaced : Spaced [a, m, b]) (hm : isPinned m pinned = false)
    (hflat : collinear a m b = true) : simplify [a, m, b] pinned = [a, b] := by
  rw [simplify_of_spaced hspaced, settle]
  simp [sweep, sweepFrom, hm, hflat, settle]

/-- Two bends go when the first is too flat, and then the second is. -/
theorem simplify_step_of_flat {pinned : List (Point α)} {a m n b : Point α}
    (hspaced : Spaced [a, m, n, b]) (hm : isPinned m pinned = false)
    (hn : isPinned n pinned = false) (hflat : collinear a m n = true)
    (hflat' : collinear a n b = true) : simplify [a, m, n, b] pinned = [a, b] := by
  rw [simplify_of_spaced hspaced, settle]
  simp [sweep, sweepFrom, hm, hn, hflat, hflat', settle]

/-! ## Joined paths -/

/-- A leg is horizontal or vertical, within the tolerance. -/
def Straight (p q : Point α) : Prop :=
  Scalar.abs (p.x - q.x) ≤ epsilon ∨ Scalar.abs (p.y - q.y) ≤ epsilon

theorem isRectilinear_iff {path : List (Point α)} :
    isRectilinear path = true ↔ path.IsChain Straight := by
  induction path with
  | nil => simp [isRectilinear, legs]
  | cons p path ih =>
    cases path with
    | nil => simp [isRectilinear, legs]
    | cons q rest =>
      rw [List.isChain_cons_cons, ← ih]
      simp [isRectilinear, legs, Straight]

theorem sharp_join {pinned pre rest : List (Point α)} {b : Point α}
    (hb : isPinned b pinned = true) (hpre : Sharp pinned (pre ++ [b]))
    (hrest : Sharp pinned (b :: rest)) : Sharp pinned (pre ++ b :: rest) := by
  induction pre with
  | nil => exact hrest
  | cons p pre ih =>
    cases pre with
    | nil =>
      cases rest with
      | nil => trivial
      | cons c rest => exact ⟨.inl hb, hrest⟩
    | cons q pre =>
      cases pre with
      | nil => exact ⟨hpre.1, ih hpre.2⟩
      | cons r pre => exact ⟨hpre.1, ih hpre.2⟩

/-- A path of straight legs with nothing to drop. -/
structure Clean (pinned path : List (Point α)) : Prop where
  spaced : Spaced path
  sharp : Sharp pinned path
  straight : path.IsChain Straight

/-- **Clean paths that meet in a pinned point** are one clean path. -/
theorem Clean.join {pinned path leg : List (Point α)} {a b c : Point α}
    (hpath : Clean pinned path) (hruns : Runs path a b) (hleg : Clean pinned leg)
    (hlegRuns : Runs leg b c) (hb : isPinned b pinned = true) :
    Clean pinned (path ++ leg.drop 1) := by
  obtain ⟨inner, rfl⟩ := hruns
  obtain ⟨inner', rfl⟩ := hlegRuns
  have he : (a :: (inner ++ [b])) ++ (b :: (inner' ++ [c])).drop 1 =
      (a :: inner) ++ b :: (inner' ++ [c]) := by simp
  rw [he]
  exact ⟨List.isChain_split.2 ⟨hpath.spaced, hleg.spaced⟩, sharp_join hb hpath.sharp hleg.sharp,
    List.isChain_split.2 ⟨hpath.straight, hleg.straight⟩⟩

/-- A leg between two hooks that stays as it is: its points are numbers and told apart, and all of
its bends count. -/
structure Firm (leg : List (Point α)) : Prop where
  numbers : ∀ p ∈ leg, p.near p = true
  spaced : Spaced leg
  sharp : Sharp [] leg

instance : DecidablePred (Firm (α := α)) := fun leg =>
  have : Decidable (Spaced leg) := inferInstanceAs (Decidable (List.IsChain _ leg))
  decidable_of_iff ((∀ p ∈ leg, p.near p = true) ∧ Spaced leg ∧ Sharp [] leg)
    ⟨fun ⟨hn, hs, hh⟩ => ⟨hn, hs, hh⟩, fun h => ⟨h.numbers, h.spaced, h.sharp⟩⟩

theorem Firm.clean {pinned leg : List (Point α)} (h : Firm leg) (hs : leg.IsChain Straight) :
    Clean pinned leg := ⟨h.spaced, h.sharp.mono, hs⟩

end Polyline

/-! ## Legs -/

namespace Route

open Polyline (Runs Straight Clean Firm)

theorem near_self_iff {p : Point α} : p.near p = true ↔
    Scalar.abs (p.x - p.x) ≤ epsilon ∧ Scalar.abs (p.y - p.y) ≤ epsilon := by
  simp [Point.near]

theorem straight_of_aligned [Scalar.Balanced α] {a b : Point α} (h : aligned a b = true) :
    Straight a b := by
  simp only [aligned, Bool.or_eq_true, decide_eq_true_eq] at h
  exact h.imp (Scalar.Balanced.abs_sub_le_comm _ _ _).1 (Scalar.Balanced.abs_sub_le_comm _ _ _).1

theorem throughMiddle_straight {a b : Point α}
    (h : ∀ p ∈ throughMiddle a b, p.near p = true) : (throughMiddle a b).IsChain Straight := by
  unfold throughMiddle at h ⊢
  by_cases hwide : widerThanHigh a b = true
  · simp only [hwide, if_true, List.forall_mem_cons, near_self_iff] at h
    obtain ⟨ha, hm, -, hb, -⟩ := h
    simp only [hwide, if_true, List.isChain_cons_cons, List.isChain_singleton, and_true]
    exact ⟨.inr ha.2, .inl hm.1, .inr hb.2⟩
  · rw [if_neg hwide] at h
    simp only [List.forall_mem_cons, near_self_iff] at h
    obtain ⟨ha, hm, -, hb, -⟩ := h
    rw [if_neg hwide]
    simp only [List.isChain_cons_cons, List.isChain_singleton, and_true]
    exact ⟨.inl ha.1, .inr hm.2, .inl hb.1⟩

theorem aroundCorner_straight {a b : Point α}
    (h : ∀ p ∈ aroundCorner a b, p.near p = true) : (aroundCorner a b).IsChain Straight := by
  unfold aroundCorner at h ⊢
  by_cases hwide : widerThanHigh a b = true
  · simp only [hwide, if_true, List.forall_mem_cons, near_self_iff] at h
    obtain ⟨ha, -, hb, -⟩ := h
    simp only [hwide, if_true, List.isChain_cons_cons, List.isChain_singleton, and_true]
    exact ⟨.inr ha.2, .inl hb.1⟩
  · rw [if_neg hwide] at h
    simp only [List.forall_mem_cons, near_self_iff] at h
    obtain ⟨ha, -, hb, -⟩ := h
    rw [if_neg hwide]
    simp only [List.isChain_cons_cons, List.isChain_singleton, and_true]
    exact ⟨.inl ha.1, .inr hb.2⟩

section
variable [Scalar.Balanced α] {pinned : List (Point α)} {a b : Point α}

theorem orthogonal_clean {side : Side} (h : Firm (orthogonal a b side)) :
    Clean pinned (orthogonal a b side) := by
  refine h.clean ?_
  have hnumbers := h.numbers
  unfold orthogonal at hnumbers ⊢
  by_cases hab : aligned a b = true
  · rw [if_pos hab]
    exact List.isChain_pair.2 (straight_of_aligned hab)
  · rw [if_neg hab] at hnumbers ⊢
    by_cases hside : side.isHorizontal = widerThanHigh a b
    · rw [if_pos hside] at hnumbers ⊢
      exact throughMiddle_straight hnumbers
    · rw [if_neg hside] at hnumbers ⊢
      exact aroundCorner_straight hnumbers

theorem chainLeg_clean (h : Firm (chainLeg .rectilinear a b)) :
    Clean pinned (chainLeg .rectilinear a b) := by
  refine h.clean ?_
  have hnumbers := h.numbers
  unfold chainLeg at hnumbers ⊢
  dsimp only at hnumbers ⊢
  split
  · rename_i hab
    exact List.isChain_pair.2 (straight_of_aligned hab)
  · rename_i hab
    rw [if_neg hab] at hnumbers
    exact throughMiddle_straight hnumbers

/-- **Firm legs between pinned points** continue a clean path. -/
theorem foldl_legs_clean {path : List (Point α)} (hpath : Clean pinned path)
    (hruns : Runs path a b) {rest : List (Point α)} (hpins : ∀ p ∈ b :: rest, p ∈ pinned)
    (hfirm : ∀ leg ∈ Polyline.legs (b :: rest), Firm (chainLeg .rectilinear leg.1 leg.2)) :
    Clean pinned (((Polyline.legs (b :: rest)).map fun leg =>
      chainLeg .rectilinear leg.1 leg.2).foldl (fun path next => path ++ next.drop 1) path) := by
  induction rest generalizing path b with
  | nil => exact hpath
  | cons c rest ih =>
    have hlegs : Polyline.legs (b :: c :: rest) = (b, c) :: Polyline.legs (c :: rest) := rfl
    rw [hlegs, List.forall_mem_cons] at hfirm
    obtain ⟨hb, hpins⟩ := List.forall_mem_cons.1 hpins
    have hleg := chainLeg_runs .rectilinear b c
    have hpinned : Polyline.isPinned b pinned = true :=
      List.any_eq_true.2 ⟨b, hb, hfirm.1.numbers b (List.mem_of_mem_head? hleg.head?)⟩
    exact ih (hpath.join hruns (chainLeg_clean hfirm.1) hleg hpinned) (hruns.join hleg) hpins
      hfirm.2

end

/-! ## Polylines -/

/-- The legs of the polyline of a connector in the rectilinear style, from hook to hook. -/
def hookLegs (c : Connector) (hooks : HookTable α) (placements : Placements α) :
    List (List (Point α)) :=
  match HookTable.hook? hooks c c.hub with
  | none => []
  | some hub => match (c.othersByAngle placements).map (·.2) with
    | [other] => (HookTable.hook? hooks c other).toList.map fun stop =>
        orthogonal hub.point stop.point stop.side
    | others =>
      (Polyline.legs (hub.point ::
        (others.filterMap (HookTable.hook? hooks c)).map (·.point))).map fun leg =>
          chainLeg .rectilinear leg.1 leg.2

/-- **The polyline of a connector is made of legs from hook to hook.** -/
theorem polyline_eq_joinLegs (c : Connector) (hooks : HookTable α) (placements : Placements α) :
    polyline c hooks placements .rectilinear = joinLegs (hookLegs c hooks placements) := by
  unfold polyline hookLegs
  cases HookTable.hook? hooks c c.hub with
  | none => rfl
  | some hub =>
    dsimp only
    generalize (c.othersByAngle placements).map (·.2) = others
    match others with
    | [] => rfl
    | [other] =>
      dsimp only
      cases HookTable.hook? hooks c other <;> rfl
    | _ :: _ :: _ => rfl

variable [Scalar.Balanced α] {c : Connector} {hooks : HookTable α} {placements : Placements α}

/-- **A polyline of firm legs is clean** when every endpoint has a hook. -/
theorem polyline_clean (hhub : c.hub ∈ c.endpoints) (hne : c.others ≠ [])
    (hhooks : ∀ k : HookKey, k.OfConnector c → hooks.contains k = true)
    (hfirm : ∀ leg ∈ hookLegs c hooks placements, Firm leg) :
    Clean (pins c hooks) (polyline c hooks placements .rectilinear) := by
  have hhook : ∀ e ∈ c.endpoints, ∃ hook, HookTable.hook? hooks c e = some hook := fun e he =>
    Table.contains_iff.1 (hhooks ⟨c.id, e⟩ ⟨rfl, he⟩)
  have hpin : ∀ e ∈ c.endpoints, ∀ hook, HookTable.hook? hooks c e = some hook →
      hook.point ∈ pins c hooks := fun e he hook hook? =>
    List.mem_filterMap.2 ⟨e, he, by rw [hook?]; rfl⟩
  have hperm := c.othersByAngle_perm placements
  have hends : ∀ e ∈ (c.othersByAngle placements).map (·.2), e ∈ c.endpoints := fun e he =>
    (Connector.mem_others.1 (hperm.mem_iff.1 he)).1
  have hlist : (c.othersByAngle placements).map (·.2) ≠ [] := fun hnil =>
    hne (List.perm_nil.1 (hnil ▸ hperm).symm)
  obtain ⟨hub, hh⟩ := hhook _ hhub
  rw [polyline_eq_joinLegs]
  unfold hookLegs at hfirm ⊢
  rw [hh] at hfirm ⊢
  dsimp only at hfirm ⊢
  generalize (c.othersByAngle placements).map (·.2) = others at hfirm hends hlist ⊢
  match others, hlist with
  | [other], _ =>
    obtain ⟨stop, hs⟩ := hhook other (hends other (.head _))
    simp only [hs, Option.toList_some, List.map_singleton, List.forall_mem_singleton] at hfirm ⊢
    exact orthogonal_clean hfirm
  | other :: next :: rest, _ =>
    dsimp only at hfirm ⊢
    obtain ⟨first, hf⟩ := hhook other (hends other (.head _))
    have hpins : ∀ p ∈ hub.point ::
        ((other :: next :: rest).filterMap (HookTable.hook? hooks c)).map (·.point),
        p ∈ pins c hooks := by
      refine List.forall_mem_cons.2 ⟨hpin _ hhub hub hh, fun p hp => ?_⟩
      obtain ⟨hook, hmem, rfl⟩ := List.mem_map.1 hp
      obtain ⟨e, he, hook?⟩ := List.mem_filterMap.1 hmem
      exact hpin e (hends e he) hook hook?
    rw [List.filterMap_cons_some hf, List.map_cons] at hfirm hpins ⊢
    have hfirm := List.forall_mem_map.1 hfirm
    have hlegs : ∀ points, Polyline.legs (hub.point :: first.point :: points) =
      (hub.point, first.point) :: Polyline.legs (first.point :: points) := fun _ => rfl
    rw [hlegs] at hfirm ⊢
    obtain ⟨hleg, hfirm⟩ := List.forall_mem_cons.1 hfirm
    exact foldl_legs_clean (chainLeg_clean hleg) (chainLeg_runs .rectilinear _ _)
      (List.forall_mem_cons.1 hpins).2 hfirm

/-- **A path along firm legs is rectilinear**, and nothing of its polyline is dropped. -/
theorem path_eq_polyline (hhub : c.hub ∈ c.endpoints) (hne : c.others ≠ [])
    (hhooks : ∀ k : HookKey, k.OfConnector c → hooks.contains k = true)
    (hfirm : ∀ leg ∈ hookLegs c hooks placements, Firm leg) :
    path c hooks placements .rectilinear = polyline c hooks placements .rectilinear ∧
      Polyline.isRectilinear (path c hooks placements .rectilinear) = true := by
  have hclean := polyline_clean hhub hne hhooks hfirm
  have hpath : path c hooks placements .rectilinear = polyline c hooks placements .rectilinear :=
    Polyline.simplify_eq_self hclean.spaced hclean.sharp
  exact ⟨hpath, hpath ▸ Polyline.isRectilinear_iff.2 hclean.straight⟩

end Route

end NestedLayout
