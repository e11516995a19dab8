import NestedLayout.Proofs.Routing.Rectilinear
import Mathlib.Tactic.Linarith

/-!
# Bends that count

Simplification drops a bend when the cross product of its legs is below a fixed limit, however short
these legs are. So a path between two hooks near each other can lose the bends that made it
rectilinear.

* `Route.isRectilinear_simplify_iff`: in exact coordinates the leg from one hook to another stays
  rectilinear exactly when the hooks are aligned or the leg `Turns`.
* `Route.rectilinear_paths`: paths of any connectors, in any arithmetic, that keep their bends.
* `Route.slant_not_rectilinear`: a path that does not.
-/

set_option autoImplicit false

namespace NestedLayout.Route

open Polyline (Spaced Sharp Straight Clean Firm isPinned collinear isRectilinear simplify)
open Scalar (epsilon)

/-! ## Exact legs -/

section
variable {a b m n p : Point ℝ} {side : Side} {pinned : List (Point ℝ)}

/-- What the distances of two hooks across and up and down have to exceed, multiplied, for the bends
of the leg between them to count. With two bends each of them turns between half of that. -/
noncomputable def flatLimit (a b : Point ℝ) (side : Side) : ℝ :=
  if side.isHorizontal = widerThanHigh a b then 2e-6 else 1e-6

/-- The leg between two hooks is straight, or its bends count. -/
def Turns (a b : Point ℝ) (side : Side) : Prop :=
  aligned a b = true ∨ flatLimit a b side < |(b.x - a.x) * (b.y - a.y)|

theorem near_iff : a.near b = true ↔ |a.x - b.x| ≤ epsilon ∧ |a.y - b.y| ≤ epsilon := by
  simp [Point.near]

theorem aligned_iff : aligned a b = true ↔ |b.x - a.x| ≤ epsilon ∨ |b.y - a.y| ≤ epsilon := by
  simp [aligned]

theorem widerThanHigh_iff : widerThanHigh a b = true ↔ |b.y - a.y| ≤ |b.x - a.x| := by
  simp [widerThanHigh]

theorem collinear_iff : collinear a m b = true ↔
    |(m.x - a.x) * (b.y - m.y) - (m.y - a.y) * (b.x - m.x)| ≤ 1e-6 := by
  simp [collinear]

theorem straight_iff : Straight a b ↔ aligned a b = true := by
  rw [aligned_iff, abs_sub_comm b.x, abs_sub_comm b.y]
  simp [Straight]

theorem not_near_across (h : epsilon < |b.x - a.x|) : a.near b = false := by
  rw [← Bool.not_eq_true, near_iff, abs_sub_comm]
  exact fun hn => not_le.2 h hn.1

theorem not_near_down (h : epsilon < |b.y - a.y|) : a.near b = false := by
  rw [← Bool.not_eq_true, near_iff, abs_sub_comm a.y]
  exact fun hn => not_le.2 h hn.2

theorem not_aligned (h : aligned a b = false) :
    epsilon < |b.x - a.x| ∧ epsilon < |b.y - a.y| := by
  rw [← Bool.not_eq_true, aligned_iff, not_or, not_le, not_le] at h
  exact h

/-- One bend between hooks that are not aligned. -/
structure Corner (a m b : Point ℝ) : Prop where
  before : a.near m = false
  after : m.near b = false
  flat : collinear a m b = true ↔ |(b.x - a.x) * (b.y - a.y)| ≤ 1e-6

/-- Two bends between hooks that are not aligned. -/
structure Step (a m n b : Point ℝ) : Prop where
  rise : m.near n = false
  far : a.near n = false
  far' : m.near b = false
  even : a.near m = n.near b
  short : a.near m = true → |(b.x - a.x) * (b.y - a.y)| ≤ 2e-6
  flat : collinear a m n = true ↔ |(b.x - a.x) * (b.y - a.y)| ≤ 2e-6
  flat' : collinear m n b = true ↔ |(b.x - a.x) * (b.y - a.y)| ≤ 2e-6
  flatter : collinear a n b = true ↔ |(b.x - a.x) * (b.y - a.y)| ≤ 2e-6

theorem aroundCorner_corner (h : aligned a b = false) :
    ∃ m, aroundCorner a b = [a, m, b] ∧ Corner a m b := by
  obtain ⟨hx, hy⟩ := not_aligned h
  unfold aroundCorner
  split
  · refine ⟨_, rfl, not_near_across hx, not_near_down hy, ?_⟩
    rw [collinear_iff]
    simp
  · refine ⟨_, rfl, not_near_down hy, not_near_across hx, ?_⟩
    rw [collinear_iff]
    simp [mul_comm]

/-- Distances of which the longer is at most twice the tolerance have a small product. -/
theorem abs_mul_le_of_short {d e : ℝ} (hed : |e| ≤ |d|) (hd : |d / 2| ≤ epsilon) :
    |d * e| ≤ 2e-6 := by
  have hlimit : (epsilon : ℝ) = 1e-5 := rfl
  rw [abs_div, abs_two, hlimit] at hd
  rw [abs_mul]
  nlinarith [abs_nonneg e, abs_nonneg d]

theorem abs_half_le {z : ℝ} : |z / 2| ≤ 1e-6 ↔ |z| ≤ 2e-6 := by
  rw [abs_div, abs_two]
  constructor <;> intro h <;> linarith

theorem throughMiddle_step (h : aligned a b = false) :
    ∃ m n, throughMiddle a b = [a, m, n, b] ∧ Step a m n b := by
  obtain ⟨hx, hy⟩ := not_aligned h
  have hε : (0 : ℝ) ≤ epsilon := Scalar.epsilon_pos.le
  -- the four differences between an end and the middle
  have hhalf : ∀ u v : ℝ, u - (u + v) / 2 = -((v - u) / 2) ∧ (u + v) / 2 - v = -((v - u) / 2) ∧
      (u + v) / 2 - u = (v - u) / 2 ∧ v - (u + v) / 2 = (v - u) / 2 :=
    fun u v => ⟨by ring, by ring, by ring, by ring⟩
  unfold throughMiddle
  simp only [Scalar.two_real]
  by_cases hwide : widerThanHigh a b = true
  · obtain ⟨h₁, h₂, h₃, h₄⟩ := hhalf a.x b.x
    rw [if_pos hwide]
    refine ⟨_, _, rfl, not_near_down hy, not_near_down hy, not_near_down hy, ?_, fun hn => ?_,
      ?_, ?_, ?_⟩
    · rw [Bool.eq_iff_iff, near_iff, near_iff, h₁, h₂]
      simp [hε]
    · rw [near_iff, h₁, abs_neg] at hn
      exact abs_mul_le_of_short (widerThanHigh_iff.1 hwide) hn.1
    · rw [collinear_iff, h₃, ← abs_half_le]
      ring_nf
    · rw [collinear_iff, h₄, ← abs_half_le, ← abs_neg]
      ring_nf
    · rw [collinear_iff, h₃, h₄, ← abs_half_le, ← abs_neg]
      ring_nf
  · obtain ⟨h₁, h₂, h₃, h₄⟩ := hhalf a.y b.y
    have hhigh := (not_le.1 (mt widerThanHigh_iff.2 hwide)).le
    rw [if_neg hwide]
    refine ⟨_, _, rfl, not_near_across hx, not_near_across hx, not_near_across hx, ?_,
      fun hn => ?_, ?_, ?_, ?_⟩
    · rw [Bool.eq_iff_iff, near_iff, near_iff, h₁, h₂]
      simp [hε]
    · rw [near_iff, h₁, abs_neg] at hn
      rw [mul_comm]
      exact abs_mul_le_of_short hhigh hn.2
    · rw [collinear_iff, h₃, ← abs_half_le, ← abs_neg]
      ring_nf
    · rw [collinear_iff, h₄, ← abs_half_le]
      ring_nf
    · rw [collinear_iff, h₃, h₄, ← abs_half_le]
      ring_nf

/-! ## One leg -/

/-- Points apart from both hooks are not pinned by them. -/
theorem isPinned_eq_false (hpins : ∀ p ∈ pinned, p = a ∨ p = b) (ha : a.near m = false)
    (hb : m.near b = false) : isPinned m pinned = false := by
  have hb' : b.near m = false := by
    rw [← hb, Bool.eq_iff_iff, near_iff, near_iff, abs_sub_comm b.x, abs_sub_comm b.y]
  refine List.any_eq_false.2 fun p hp => ?_
  rcases hpins p hp with rfl | rfl
  · rw [ha]
    exact Bool.false_ne_true
  · rw [hb']
    exact Bool.false_ne_true

theorem near_self (p : Point ℝ) : p.near p = true := by
  rw [near_iff, sub_self, sub_self, abs_zero]
  exact ⟨Scalar.epsilon_pos.le, Scalar.epsilon_pos.le⟩

theorem Corner.firm (h : Corner a m b) (hlimit : 1e-6 < |(b.x - a.x) * (b.y - a.y)|) :
    Firm [a, m, b] where
  numbers p _ := near_self p
  spaced := by simp [Spaced, h.before, h.after]
  sharp := ⟨.inr (Bool.eq_false_iff.2 fun hflat => not_le.2 hlimit (h.flat.1 hflat)), trivial⟩

theorem Step.firm (h : Step a m n b) (hlimit : 2e-6 < |(b.x - a.x) * (b.y - a.y)|) :
    Firm [a, m, n, b] where
  numbers p _ := near_self p
  spaced := by
    have hm : a.near m = false := Bool.eq_false_iff.2 fun hnear => not_le.2 hlimit (h.short hnear)
    simp [Spaced, hm, h.rise, h.even ▸ hm]
  sharp := ⟨.inr (Bool.eq_false_iff.2 fun hflat => not_le.2 hlimit (h.flat.1 hflat)),
    .inr (Bool.eq_false_iff.2 fun hflat => not_le.2 hlimit (h.flat'.1 hflat)), trivial⟩

theorem Corner.dropped (h : Corner a m b) (hpins : ∀ p ∈ pinned, p = a ∨ p = b)
    (hlimit : |(b.x - a.x) * (b.y - a.y)| ≤ 1e-6) : simplify [a, m, b] pinned = [a, b] :=
  Polyline.simplify_bend_of_flat (by simp [Spaced, h.before, h.after])
    (isPinned_eq_false hpins h.before h.after) (h.flat.2 hlimit)

theorem Step.dropped (h : Step a m n b) (hpins : ∀ p ∈ pinned, p = a ∨ p = b)
    (hlimit : |(b.x - a.x) * (b.y - a.y)| ≤ 2e-6) : simplify [a, m, n, b] pinned = [a, b] := by
  cases hm : a.near m with
  | true =>
    -- the bends are so near to the hooks that they repeat them
    have hn : n.near b = true := h.even ▸ hm
    simp [simplify, Polyline.dedup, Polyline.dedupFrom, Polyline.settle, hm, hn, h.far]
  | false =>
    have hn : n.near b = false := h.even ▸ hm
    exact Polyline.simplify_step_of_flat (by simp [Spaced, hm, hn, h.rise])
      (isPinned_eq_false hpins hm h.far') (isPinned_eq_false hpins h.far hn) (h.flat.2 hlimit)
      (h.flatter.2 hlimit)

/-- **The leg from hook to hook** stays rectilinear exactly when it turns. -/
theorem isRectilinear_simplify_iff (hpins : ∀ p ∈ pinned, p = a ∨ p = b) :
    isRectilinear (simplify (orthogonal a b side) pinned) = true ↔ Turns a b side := by
  have hpair : isRectilinear [a, b] = true ↔ aligned a b = true := by
    rw [Polyline.isRectilinear_iff, List.isChain_pair, straight_iff]
  cases hab : aligned a b with
  | true =>
    have hkept : simplify [a, b] pinned = [a, b] := if_pos (Nat.le_refl 2)
    rw [orthogonal, if_pos hab, hkept, hpair]
    exact iff_of_true hab (.inl hab)
  | false =>
    have hturns : Turns a b side ↔ flatLimit a b side < |(b.x - a.x) * (b.y - a.y)| := by
      simp [Turns, hab]
    rw [hturns, orthogonal, if_neg (Bool.eq_false_iff.1 hab), flatLimit]
    -- below the limit the bends go, and what is left is not aligned
    have hkept : ∀ {leg : List (Point ℝ)} {limit : ℝ},
        (limit < |(b.x - a.x) * (b.y - a.y)| → Firm leg) → leg.IsChain Straight →
        (|(b.x - a.x) * (b.y - a.y)| ≤ limit → simplify leg pinned = [a, b]) →
        (isRectilinear (simplify leg pinned) = true ↔ limit < |(b.x - a.x) * (b.y - a.y)|) := by
      intro leg limit hfirm hstraight hdropped
      refine ⟨fun h => not_le.1 fun hlimit => ?_, fun hlimit => ?_⟩
      · rw [hdropped hlimit, hpair, hab] at h
        cases h
      · rw [Polyline.simplify_eq_self (hfirm hlimit).spaced (hfirm hlimit).sharp.mono,
          Polyline.isRectilinear_iff]
        exact hstraight
    split
    · obtain ⟨m, n, he, hstep⟩ := throughMiddle_step hab
      have hstraight := throughMiddle_straight (a := a) (b := b) fun p _ => near_self p
      rw [he] at hstraight ⊢
      exact hkept hstep.firm hstraight (hstep.dropped hpins)
    · obtain ⟨m, he, hcorner⟩ := aroundCorner_corner hab
      have hstraight := aroundCorner_straight (a := a) (b := b) fun p _ => near_self p
      rw [he] at hstraight ⊢
      exact hkept hcorner.firm hstraight (hcorner.dropped hpins)

end

/-! ## Paths -/

section
variable {α : Type} [Scalar α] {c : Connector} {hooks : HookTable α} {placements : Placements α}

/-- A connector of two endpoints has one leg, from the hub to the other one. -/
theorem path_of_pair {other : String} {hub stop : Hook α} (hothers : c.others = [other])
    (hhub : HookTable.hook? hooks c c.hub = some hub)
    (hstop : HookTable.hook? hooks c other = some stop) :
    path c hooks placements .rectilinear =
      simplify (orthogonal hub.point stop.point stop.side) (pins c hooks) := by
  have hsorted : (c.othersByAngle placements).map (·.2) = [other] :=
    List.perm_singleton.1 (hothers ▸ c.othersByAngle_perm placements)
  rw [path, polyline, hhub]
  dsimp only
  rw [hsorted]
  dsimp only
  rw [hstop]

omit [Scalar α] in
/-- The hooks of a connector of two endpoints are pinned, and no other points. -/
theorem pins_of_pair {other : String} {hub stop : Hook α} (hothers : c.others = [other])
    (hhub : HookTable.hook? hooks c c.hub = some hub)
    (hstop : HookTable.hook? hooks c other = some stop) :
    ∀ p ∈ pins c hooks, p = hub.point ∨ p = stop.point := by
  intro p hp
  obtain ⟨e, he, hpoint⟩ := List.mem_filterMap.1 hp
  obtain ⟨hook, hhook, rfl⟩ := Option.map_eq_some_iff.1 hpoint
  by_cases heq : e = c.hub
  · rw [heq, hhub] at hhook
    cases hhook
    exact .inl rfl
  · have hother : e ∈ c.others := Connector.mem_others.2 ⟨he, heq⟩
    rw [hothers, List.mem_singleton] at hother
    rw [hother, hstop] at hhook
    cases hhook
    exact .inr rfl

end

/-- **Rectilinear paths.** In any arithmetic the path of a connector with two or more endpoints is
rectilinear and keeps all of its bends, when its legs from hook to hook are firm. In exact
arithmetic the path of a connector with two endpoints is rectilinear exactly when the leg between
its hooks turns. -/
theorem rectilinear_paths {α : Type} [Scalar α] [Scalar.Balanced α] {cs : List Connector}
    (hcs : Connector.Hookable cs) {c : Connector} (hc : c ∈ cs)
    (hseveral : 2 ≤ c.endpoints.length) :
    (∀ (placements : Placements α) (ring : α × α),
      (∀ leg ∈ hookLegs c (.assign cs placements ring) placements, Firm leg) →
      path c (.assign cs placements ring) placements .rectilinear =
        polyline c (.assign cs placements ring) placements .rectilinear ∧
      isRectilinear (path c (.assign cs placements ring) placements .rectilinear) = true) ∧
    (c.endpoints.length = 2 → ∀ (placements : Placements ℝ) (ring : ℝ × ℝ),
      ∃ other hub stop, c.others = [other] ∧
        HookTable.hook? (.assign cs placements ring) c c.hub = some hub ∧
        HookTable.hook? (.assign cs placements ring) c other = some stop ∧
        (isRectilinear (path c (.assign cs placements ring) placements .rectilinear) = true ↔
          Turns hub.point stop.point stop.side)) := by
  have hhooked : ∀ {α : Type} [Scalar α] (placements : Placements α) (ring : α × α) (k : HookKey),
      k.OfConnector c → (HookTable.assign cs placements ring).contains k = true :=
    fun _ _ _ hk => (HookTable.contains_assign_iff hcs.hub).2 ⟨c, hc, hk⟩
  refine ⟨fun placements ring hfirm => ?_, fun htwo placements ring => ?_⟩
  · exact path_eq_polyline (hcs.hub c hc)
      (Connector.others_ne_nil (hcs.endpoints c hc) hseveral) (hhooked placements ring) hfirm
  · have hlength := Connector.length_others (hcs.endpoints c hc) (hcs.hub c hc)
    rw [htwo] at hlength
    obtain ⟨other, hother⟩ := List.length_eq_one_iff.1 hlength
    have hmem : other ∈ c.endpoints := (Connector.mem_others.1 (hother ▸ .head _)).1
    obtain ⟨hub, hhub⟩ := Table.contains_iff.1
      (hhooked placements ring ⟨c.id, c.hub⟩ ⟨rfl, hcs.hub c hc⟩)
    obtain ⟨stop, hstop⟩ := Table.contains_iff.1
      (hhooked placements ring ⟨c.id, other⟩ ⟨rfl, hmem⟩)
    refine ⟨other, hub, stop, hother, hhub, hstop, ?_⟩
    rw [path_of_pair hother hhub hstop]
    exact isRectilinear_simplify_iff (pins_of_pair hother hhub hstop)

/-- A connector without others takes the side of its own angle. -/
theorem assign_singleton {α : Type} [Scalar α] (c : Connector) (placements : Placements α)
    (ring : α × α) : HookTable.assign [c] placements ring =
      HookTable.assignOne placements ring .empty c (.ofAngle (c.angle placements)) := by
  have hhubs : HookTable.hubs [c] = [c.hub] := rfl
  have hspokes : HookTable.spokes [c] placements c.hub = [(c.angle placements, c)] := by
    simp [HookTable.spokes]
  rw [HookTable.assign, hhubs, List.foldl_cons, List.foldl_nil, HookTable.assignAround, hspokes]
  dsimp only [List.zipIdx_singleton, List.foldl_cons, List.foldl_nil]
  rw [Nat.add_zero, Side.ofTurn_turn]

/-- A connector from a predicate to a vertex. -/
def slant : Connector := ⟨"c", ["p", "v"], "p", "sheet"⟩

/-- Places for both, with bodies that are all of their footprints. -/
def standing {α : Type} [Scalar α] (p v : Rect α) : Placements α :=
  .ofList [("p", ⟨p, p, false⟩), ("v", ⟨v, v, false⟩)]

def farApart {α : Type} [Scalar α] : Placements α :=
  standing ⟨0.1, 0.1, 0.2, 0.2⟩ ⟨0.7, 0.5, 0.8, 0.6⟩

/-- The predicate stands less than a thousandth left of the vertex. -/
def closeBy {α : Type} [Scalar α] : Placements α :=
  standing ⟨0.4999, 0.4999, 0.5001, 0.5001⟩ ⟨0.501, 0.4005, 0.701, 0.6005⟩

-- The side at the hub comes from an angle, which does not compute; the legs are checked for all
-- four.
theorem slant_rectilinear :
    Connector.Hookable [slant] ∧ 2 ≤ slant.endpoints.length ∧
    (∀ leg ∈ hookLegs slant (.assign [slant] farApart ((0.01 : Float32), 0.01)) farApart,
      Firm leg) ∧
    isRectilinear (path slant (.assign [slant] farApart ((0.01 : Float32), 0.01)) farApart
      .rectilinear) = true ∧
    ∃ other hub stop, slant.others = [other] ∧
      HookTable.hook? (.assign [slant] farApart ((0.01 : ℝ), 0.01)) slant slant.hub = some hub ∧
      HookTable.hook? (.assign [slant] farApart ((0.01 : ℝ), 0.01)) slant other = some stop ∧
      (isRectilinear (path slant (.assign [slant] farApart ((0.01 : ℝ), 0.01)) farApart
        .rectilinear) = true ↔ Turns hub.point stop.point stop.side) := by
  have hslant : Connector.Hookable [slant] := ⟨by decide, by decide, by decide⟩
  have hfirm : ∀ leg ∈ hookLegs slant (.assign [slant] farApart ((0.01 : Float32), 0.01)) farApart,
      Firm leg := by
    rw [assign_singleton]
    cases Side.ofAngle (slant.angle (farApart (α := Float32))) <;> decide +kernel
  obtain ⟨hpath, hexact⟩ := rectilinear_paths (α := Float32) hslant (.head _) (Nat.le_refl 2)
  exact ⟨hslant, Nat.le_refl 2, hfirm, (hpath farApart _ hfirm).2, hexact rfl farApart _⟩

/-- **A path that does not stay rectilinear**, of a connector inside the unit square: its legs are
so short that no bend counts, whichever side of the hub it leaves from. -/
theorem slant_not_rectilinear :
    Connector.Hookable [slant] ∧ 2 ≤ slant.endpoints.length ∧
    (∀ e ∈ (closeBy (α := Float32)).entries, Rect.unit.contains e.2.footprint = true) ∧
    isRectilinear (polyline slant (.assign [slant] closeBy ((0.01 : Float32), 0.01)) closeBy
      .rectilinear) = true ∧
    isRectilinear (path slant (.assign [slant] closeBy ((0.01 : Float32), 0.01)) closeBy
      .rectilinear) = false := by
  rw [assign_singleton]
  refine ⟨⟨by decide, by decide, by decide⟩, Nat.le_refl 2, by decide +kernel, ?_⟩
  cases Side.ofAngle (slant.angle (closeBy (α := Float32))) <;> decide +kernel

end NestedLayout.Route
