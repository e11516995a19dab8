import NestedLayout.Proofs.Exact.Rect
import NestedLayout.Proofs.Sizing.Cells
import NestedLayout.Proofs.Sizing.Dot.Request
import NestedLayout.Sizing.Dot.Sizer

/-!
# Answers at their true scale

An answer of the external tool becomes a plan by one map on each axis: the second axis is turned
over, everything is moved by the same offset, and the unit of length changes from a point to the
world. All of this is exact arithmetic.

* `Frame.toUnit_sub`: differences between points are those of the tool, in units of the world.
* `Frame.rectToUnit_within_iff`, `Frame.rectToUnit_intersects`: so boxes lie in each other and meet
  where those of the tool do.
* `Frame.Around`: what `Frame.around` makes of the box of all clusters; it is then centered
  (`Frame.Around.center`), and what lies in it keeps the padding to the sides of the unit square
  (`Frame.Around.padded`).
* `normalize_trueScale`: the plan for an answer with a box for every cluster.
-/

set_option autoImplicit false

namespace NestedLayout

/-! ## The second axis turned over -/

namespace Rect

/-- The rectangle when the second coordinate counts in the other direction. -/
noncomputable def turned (r : Rect ℝ) : Rect ℝ := ⟨r.left, -r.bottom, r.right, -r.top⟩

theorem turned_within_iff {r s : Rect ℝ} : r.turned.Within s.turned ↔ r.Within s := by
  constructor
  · rintro ⟨h₁, h₂, h₃, h₄⟩
    exact ⟨h₁, neg_le_neg_iff.1 h₄, h₃, neg_le_neg_iff.1 h₂⟩
  · rintro ⟨h₁, h₂, h₃, h₄⟩
    exact ⟨h₁, neg_le_neg h₄, h₃, neg_le_neg h₂⟩

theorem turned_intersects (r s : Rect ℝ) : r.turned.intersects s.turned = r.intersects s := by
  rw [Bool.eq_iff_iff, intersects_iff, intersects_iff]
  simp only [turned, neg_lt_neg_iff]
  tauto

theorem turned_upright {r : Rect ℝ} (h : r.Upright) : r.turned.Upright :=
  ⟨h.across, neg_le_neg h.down⟩

/-- A hull is one of what the list holds, in whatever order. -/
theorem IsHull.congr {l l' : List (Rect ℝ)} {all : Rect ℝ} (h : IsHull l all)
    (hl : ∀ r, r ∈ l' ↔ r ∈ l) : IsHull l' all :=
  ⟨fun r hr => h.holds r ((hl r).1 hr), fun v hv => h.least v fun r hr => hv r ((hl r).2 hr)⟩

end Rect

namespace DotRequest

open Rect (Within Upright IsHull)

/-! ## Frames -/

namespace Frame

section
variable {f : Frame ℝ} (hs : f.scale.Proper)
include hs

/-- **Differences between points** are kept, in units of the world. -/
theorem toUnit_sub (x y x' y' : ℝ) :
    ((f.toUnit x' y').x - (f.toUnit x y).x) * f.scale.width = x' - x ∧
      ((f.toUnit x' y').y - (f.toUnit x y).y) * f.scale.height = y' - y := by
  have hw := hs.width_pos.ne'
  have hh := hs.height_pos.ne'
  simp only [toUnit, WorldScale.toUnitX, WorldScale.toUnitY]
  constructor
  · field_simp
    ring
  · field_simp
    ring

theorem toUnitX_le_iff {a b : ℝ} :
    f.scale.toUnitX (a + f.offsetX) ≤ f.scale.toUnitX (b + f.offsetX) ↔ a ≤ b := by
  rw [WorldScale.toUnitX, WorldScale.toUnitX, div_le_div_iff_of_pos_right hs.width_pos,
    add_le_add_iff_right]

theorem toUnitY_le_iff {a b : ℝ} :
    f.scale.toUnitY (a + f.offsetY) ≤ f.scale.toUnitY (b + f.offsetY) ↔ a ≤ b := by
  rw [WorldScale.toUnitY, WorldScale.toUnitY, div_le_div_iff_of_pos_right hs.height_pos,
    add_le_add_iff_right]

theorem rectToUnit_within_iff {r s : Rect ℝ} :
    (f.rectToUnit r).Within (f.rectToUnit s) ↔ r.Within s := by
  constructor
  · rintro ⟨h₁, h₂, h₃, h₄⟩
    exact ⟨(toUnitX_le_iff hs).1 h₁, (toUnitY_le_iff hs).1 h₂, (toUnitX_le_iff hs).1 h₃,
      (toUnitY_le_iff hs).1 h₄⟩
  · rintro ⟨h₁, h₂, h₃, h₄⟩
    exact ⟨(toUnitX_le_iff hs).2 h₁, (toUnitY_le_iff hs).2 h₂, (toUnitX_le_iff hs).2 h₃,
      (toUnitY_le_iff hs).2 h₄⟩

theorem rectToUnit_intersects (r s : Rect ℝ) :
    (f.rectToUnit r).intersects (f.rectToUnit s) = r.intersects s := by
  rw [Bool.eq_iff_iff, Rect.intersects_iff, Rect.intersects_iff]
  simp only [rectToUnit, toUnit, ← not_le, toUnitX_le_iff hs, toUnitY_le_iff hs]

/-- Every rectangle of the unit space comes from one of the tool's. -/
theorem exists_rectToUnit (v : Rect ℝ) : ∃ r, f.rectToUnit r = v := by
  have hw := hs.width_pos.ne'
  have hh := hs.height_pos.ne'
  refine ⟨⟨v.left * f.scale.width - f.offsetX, v.top * f.scale.height - f.offsetY,
    v.right * f.scale.width - f.offsetX, v.bottom * f.scale.height - f.offsetY⟩, ?_⟩
  obtain ⟨l, t, b, e⟩ := v
  simp only [rectToUnit, toUnit, WorldScale.toUnitX, WorldScale.toUnitY, sub_add_cancel,
    mul_div_cancel_right₀ _ hw, mul_div_cancel_right₀ _ hh]

/-- **The hull of boxes** becomes the hull of their images. -/
theorem isHull_map {l : List (Rect ℝ)} {all : Rect ℝ} (h : IsHull l all) :
    IsHull (l.map f.rectToUnit) (f.rectToUnit all) := by
  refine ⟨fun r hr => ?_, fun v hv => ?_⟩
  · obtain ⟨q, hq, rfl⟩ := List.mem_map.1 hr
    exact (rectToUnit_within_iff hs).2 (h.holds q hq)
  · obtain ⟨v, rfl⟩ := exists_rectToUnit hs v
    exact (rectToUnit_within_iff hs).2 (h.least v fun r hr =>
      (rectToUnit_within_iff hs).1 (hv _ (List.mem_map_of_mem hr)))

end

/-- A frame that has room for a box and the padding around it, with the box in its middle. -/
structure Around (f : Frame ℝ) (all : Rect ℝ) (padding : ℝ) : Prop where
  scale : f.scale.Proper
  width : all.width + 2 * padding ≤ f.scale.width
  height : all.height + 2 * padding ≤ f.scale.height
  offsetX : f.offsetX = (f.scale.width - all.width) / 2 - all.left
  offsetY : f.offsetY = (f.scale.height - all.height) / 2 - all.top

theorem around_spec (request : SizingRequest ℝ) (all : Rect ℝ) :
    (around request all).Around all request.settings.spacing.padding := by
  have hscale : (around request all).scale.Proper := WorldScale.of_proper _ _
  refine ⟨hscale, ?_, ?_, ?_, ?_⟩
  · simp only [around, WorldScale.of, Scalar.atLeast_real, Scalar.max_real]
    rw [Scalar.two_real, mul_comm]
    exact (le_max_right _ _).trans (le_max_left _ _)
  · simp only [around, WorldScale.of, Scalar.atLeast_real, Scalar.max_real]
    rw [Scalar.two_real, mul_comm]
    exact (le_max_right _ _).trans (le_max_left _ _)
  · simp only [around, Scalar.two_real]
  · simp only [around, Scalar.two_real]

namespace Around

variable {f : Frame ℝ} {all : Rect ℝ} {padding : ℝ} (h : f.Around all padding)
include h

/-- **The box in the frame is centered.** -/
theorem center : (f.rectToUnit all).center.x = 1 / 2 ∧ (f.rectToUnit all).center.y = 1 / 2 := by
  have hw := h.scale.width_pos.ne'
  have hh := h.scale.height_pos.ne'
  rw [Rect.center_x, Rect.center_y]
  simp only [rectToUnit, toUnit, WorldScale.toUnitX, WorldScale.toUnitY, h.offsetX, h.offsetY,
    Rect.width_eq, Rect.height_eq]
  constructor
  · field_simp
    ring
  · field_simp
    ring

/-- **What lies in the box keeps the padding** to the sides of the unit square. -/
theorem padded (hall : all.Upright) {r : Rect ℝ} (hr : r.Within all) :
    (f.rectToUnit r).Within
      (Rect.unit.deflate (f.scale.toUnitX padding) (f.scale.toUnitY padding)) := by
  have hw := h.scale.width_pos
  have hh := h.scale.height_pos
  have hwidth := h.width
  have hheight := h.height
  have hx := h.offsetX
  have hy := h.offsetY
  have hacross := hall.width_nonneg
  have hdown := hall.height_nonneg
  have hroom : 2 * f.scale.toUnitX padding ≤ (Rect.unit : Rect ℝ).width ∧
      2 * f.scale.toUnitY padding ≤ (Rect.unit : Rect ℝ).height := by
    simp only [Rect.unit_eq, Rect.width_eq, Rect.height_eq, WorldScale.toUnitX, WorldScale.toUnitY,
      sub_zero, mul_div_assoc']
    rw [div_le_one hw, div_le_one hh]
    exact ⟨by linarith, by linarith⟩
  rw [Rect.deflate_of_room hroom.1 hroom.2]
  simp only [Rect.unit_eq, rectToUnit, toUnit, WorldScale.toUnitX, WorldScale.toUnitY]
  rw [Rect.width_eq] at hwidth hx
  rw [Rect.height_eq] at hheight hy
  obtain ⟨h₁, h₂, h₃, h₄⟩ := hr
  constructor <;> dsimp only
  · rw [zero_add, div_le_div_iff_of_pos_right hw]
    linarith
  · rw [zero_add, div_le_div_iff_of_pos_right hh]
    linarith
  · rw [le_sub_iff_add_le, ← add_div, div_le_one hw]
    linarith
  · rw [le_sub_iff_add_le, ← add_div, div_le_one hh]
    linarith

end Around

end Frame

/-! ## Boxes and hints of a plan -/

section
variable {r : DotRequest ℝ} {answer : DotAnswer ℝ}

/-- The box of a cluster in the answer, turned over, unless it has none. -/
noncomputable def turnedBox (answer : DotAnswer ℝ) (cluster : String × Nat) :
    Except ToolError (Rect ℝ) :=
  match answer.clusters.get? cluster.2 with
  | some b => .ok b.turned
  | none => .error (.unparseable
      ("no bounding box for container " ++ DiagramError.quoted cluster.1))

theorem flippedBoxes_eq (r : DotRequest ℝ) (answer : DotAnswer ℝ) :
    r.flippedBoxes answer =
      Hierarchy.insertAll (·.1) (turnedBox answer) r.clusters.zipIdx := by
  unfold flippedBoxes Hierarchy.insertAll
  congr 1
  funext found ⟨id, i⟩
  dsimp only [turnedBox]
  cases answer.clusters.get? i <;> rfl

theorem turnedBox_eq_ok_iff {id : String} {i : Nat} {v : Rect ℝ} :
    turnedBox answer (id, i) = .ok v ↔ ∃ b, answer.clusters.get? i = some b ∧ b.turned = v := by
  dsimp only [turnedBox]
  cases answer.clusters.get? i <;> simp

/-- **Boxes are found** when every cluster has one. -/
theorem flippedBoxes_ok_iff : (∃ found, r.flippedBoxes answer = .ok found) ↔
    ∀ i < r.clusters.length, ∃ b, answer.clusters.get? i = some b := by
  rw [flippedBoxes_eq, Hierarchy.insertAll_ok_iff]
  constructor
  · intro h i hi
    obtain ⟨v, hv⟩ := h (r.clusters[i], i) (List.mk_mem_zipIdx_iff_getElem?.2
      (List.getElem?_eq_getElem hi))
    obtain ⟨b, hb, -⟩ := turnedBox_eq_ok_iff.1 hv
    exact ⟨b, hb⟩
  · rintro h ⟨id, i⟩ hm
    obtain ⟨hi, -⟩ := List.getElem?_eq_some_iff.1 (List.mk_mem_zipIdx_iff_getElem?.1 hm)
    obtain ⟨b, hb⟩ := h i hi
    exact ⟨b.turned, turnedBox_eq_ok_iff.2 ⟨b, hb, rfl⟩⟩

/-- **The boxes that are found** are those of the clusters. -/
theorem flippedBoxes_get? (hnd : r.clusters.Nodup) {found : Boxes ℝ}
    (h : r.flippedBoxes answer = .ok found) {id : String} {v : Rect ℝ} :
    found.get? id = some v ↔ ∃ i b, r.clusters[i]? = some id ∧
      answer.clusters.get? i = some b ∧ b.turned = v := by
  rw [flippedBoxes_eq] at h
  have hkeys : (r.clusters.zipIdx.map (·.1)).Nodup := by rwa [List.zipIdx_map_fst]
  rw [Hierarchy.insertAll_get? hkeys h]
  constructor
  · rintro ⟨⟨id, i⟩, hm, rfl, hv⟩
    obtain ⟨b, hb, hv⟩ := turnedBox_eq_ok_iff.1 hv
    exact ⟨i, b, List.mk_mem_zipIdx_iff_getElem?.1 hm, hb, hv⟩
  · rintro ⟨i, b, hid, hb, hv⟩
    exact ⟨(id, i), List.mk_mem_zipIdx_iff_getElem?.2 hid, rfl, turnedBox_eq_ok_iff.2 ⟨b, hb, hv⟩⟩

/-- The center that a node has in the frame, with the second axis turned over. -/
noncomputable def hint? (f : Frame ℝ) (answer : DotAnswer ℝ) (node : String × Nat) :
    Option (String × Point ℝ) :=
  (answer.nodes.get? node.2).map fun p => (node.1, f.toUnit p.x (-p.y))

/-- The plan that puts the boxes and the nodes into a frame. -/
noncomputable def planIn (request : SizingRequest ℝ) (r : DotRequest ℝ) (answer : DotAnswer ℝ)
    (found : Boxes ℝ) (f : Frame ℝ) : SizingPlan ℝ where
  boxes := (found.map fun _ b => f.rectToUnit b).entries.foldl (fun t e => t.insert e.1 e.2)
    (Table.empty.insert request.hierarchy.root .unit)
  scale := f.scale
  hints := Table.ofList (r.nodes.zipIdx.filterMap (hint? f answer))
  strategy := .externalTool
  shrunk := 0

/-- **An answer becomes a plan** in the frame around all boxes that are found. -/
theorem normalize_of_found {request : SizingRequest ℝ} {found : Boxes ℝ}
    (h : r.flippedBoxes answer = .ok found) {all : Rect ℝ}
    (hall : Rect.unionAll? found.values = some all) :
    r.normalize request answer = .ok (planIn request r answer found (.around request all)) := by
  unfold normalize planIn
  rw [h, Table.ofList, List.foldl_filterMap]
  simp only [bind, Except.bind, hall, pure, Except.pure, Table.map, List.foldl_map]
  -- a node without a position has no hint
  congr 3
  funext t node
  dsimp only [hint?]
  cases answer.nodes.get? node.2 <;> rfl

theorem normalize_of_error {request : SizingRequest ℝ} {e : ToolError}
    (h : r.flippedBoxes answer = .error e) : r.normalize request answer = .error e := by
  rw [normalize, h]
  rfl

variable {request : SizingRequest ℝ} {found : Boxes ℝ} {f : Frame ℝ}

theorem planIn_box {id : String} {v : Rect ℝ} (h : found.get? id = some v) :
    (planIn request r answer found f).boxes.get? id = some (f.rectToUnit v) := by
  rw [planIn, Table.get?_insertAll_entries, Table.get?_map, h]
  rfl

theorem planIn_root (h : found.get? request.hierarchy.root = none) :
    (planIn request r answer found f).boxes.get? request.hierarchy.root = some .unit := by
  rw [planIn, Table.get?_insertAll_entries, Table.get?_map, h]
  exact Table.get?_insert_self _ _ _

theorem planIn_hint (hnd : r.nodes.Nodup) {i : Nat} {id : String} {p : Point ℝ}
    (hid : r.nodes[i]? = some id) (hp : answer.nodes.get? i = some p) :
    (planIn request r answer found f).hints.get? id = some (f.toUnit p.x (-p.y)) := by
  have hkeys : ((r.nodes.zipIdx.filterMap (hint? f answer)).map (·.1)).Nodup := by
    have hnodes : r.nodes.zipIdx.Pairwise fun a b => a.1 ≠ b.1 :=
      List.pairwise_map.1 ((List.zipIdx_map_fst 0 r.nodes).symm ▸ hnd)
    refine List.pairwise_map.2 (List.pairwise_filterMap.2 ?_)
    refine hnodes.imp fun {a b} hne x hx y hy => ?_
    obtain ⟨_, -, rfl⟩ := Option.map_eq_some_iff.1 hx
    obtain ⟨_, -, rfl⟩ := Option.map_eq_some_iff.1 hy
    exact hne
  refine Table.get?_ofList_of_mem hkeys (List.mem_filterMap.2
    ⟨(id, i), List.mk_mem_zipIdx_iff_getElem?.2 hid, by simp [hint?, hp]⟩)

/-- **An answer with a box for every cluster** becomes a plan. -/
theorem normalize_ok (request : SizingRequest ℝ) (hne : r.clusters ≠ []) (hnd : r.clusters.Nodup)
    (h : ∀ i < r.clusters.length, ∃ b, answer.clusters.get? i = some b) :
    ∃ found all, r.flippedBoxes answer = .ok found ∧ IsHull found.values all ∧
      r.normalize request answer = .ok (planIn request r answer found (.around request all)) := by
  obtain ⟨found, hfound⟩ := flippedBoxes_ok_iff.2 h
  -- the first cluster has a box, so there is something to put a frame around
  have hvalues : found.values ≠ [] := by
    have hlen := List.length_pos_iff.2 hne
    obtain ⟨b, hb⟩ := h 0 hlen
    have hbox := (flippedBoxes_get? hnd hfound).2
      ⟨0, b, List.getElem?_eq_getElem hlen, hb, rfl⟩
    exact List.ne_nil_of_mem (Table.mem_values_iff.2 ⟨_, hbox⟩)
  obtain ⟨all, hall⟩ := Option.ne_none_iff_exists'.1 (mt Rect.unionAll?_eq_none_iff.1 hvalues)
  exact ⟨found, all, hfound, Rect.unionAll?_isHull hall, normalize_of_found hfound hall⟩

/-- **An answer is refused** when a cluster has no box. -/
theorem normalize_error_iff (request : SizingRequest ℝ) (hne : r.clusters ≠ [])
    (hnd : r.clusters.Nodup) : (∃ e, r.normalize request answer = .error e) ↔
      ∃ i < r.clusters.length, answer.clusters.get? i = none := by
  constructor
  · rintro ⟨e, he⟩
    by_contra hno
    push Not at hno
    obtain ⟨found, all, -, -, hok⟩ := normalize_ok request hne hnd fun i hi =>
      Option.ne_none_iff_exists'.1 (hno i hi)
    rw [hok] at he
    cases he
  · rintro ⟨i, hi, hnone⟩
    cases hfound : r.flippedBoxes answer with
    | error e => exact ⟨e, normalize_of_error hfound⟩
    | ok found =>
      obtain ⟨b, hb⟩ := flippedBoxes_ok_iff.1 ⟨found, hfound⟩ i hi
      rw [hnone] at hb
      cases hb

/-! ## The answer in the plan -/

/-- A cluster has the first box in the answer and the second one in the plan. -/
def Shows (r : DotRequest ℝ) (answer : DotAnswer ℝ) (plan : SizingPlan ℝ) (b u : Rect ℝ) : Prop :=
  ∃ i id, r.clusters[i]? = some id ∧ answer.clusters.get? i = some b ∧ plan.boxes.get? id = some u

/-- A point of the answer and the one of the plan for it: the same corner of a cluster, or the
center of a node. The upper corners of a box have the larger coordinate in the answer and the
smaller one in the plan. -/
inductive Marks (r : DotRequest ℝ) (answer : DotAnswer ℝ) (plan : SizingPlan ℝ) :
    Point ℝ → Point ℝ → Prop
  | corner {b u : Rect ℝ} (left upper : Bool) : Shows r answer plan b u →
      Marks r answer plan ⟨if left then b.left else b.right, if upper then b.bottom else b.top⟩
        ⟨if left then u.left else u.right, if upper then u.top else u.bottom⟩
  | node {i : Nat} {id : String} {p q : Point ℝ} : r.nodes[i]? = some id →
      answer.nodes.get? i = some p → plan.hints.get? id = some q → Marks r answer plan p q

/-- The plan shows the clusters and nodes of the answer at their true scale, centered, with the
padding to the sides of the root. -/
structure TrueScale (request : SizingRequest ℝ) (r : DotRequest ℝ) (answer : DotAnswer ℝ)
    (plan : SizingPlan ℝ) : Prop where
  root : plan.boxes.get? request.hierarchy.root = some .unit
  boxed : ∀ id ∈ r.clusters, ∃ u, plan.boxes.get? id = some u
  hinted : ∀ i id p, r.nodes[i]? = some id → answer.nodes.get? i = some p →
    ∃ q, plan.hints.get? id = some q
  /-- Differences between points are those of the answer, in pixels, with the second axis turned
  over. -/
  differences : ∀ p q p' q', Marks r answer plan p q → Marks r answer plan p' q' →
    (q'.x - q.x) * plan.scale.width = p'.x - p.x ∧
      (q'.y - q.y) * plan.scale.height = -(p'.y - p.y)
  /-- Clusters lie in each other and meet as in the answer. -/
  relations : ∀ b u b' u', Shows r answer plan b u → Shows r answer plan b' u' →
    (u.Within u' ↔ b.Within b') ∧ u.intersects u' = b.intersects b'
  centered : ∃ all, IsHull (r.clusters.filterMap plan.boxes.get?) all ∧
    all.center.x = 1 / 2 ∧ all.center.y = 1 / 2
  padded : ∀ id ∈ r.clusters, ∀ u, plan.boxes.get? id = some u →
    let padding := request.settings.spacing.padding
    u.Within (Rect.unit.deflate (plan.scale.toUnitX padding) (plan.scale.toUnitY padding))

section
variable (hclusters : r.clusters.Nodup) (hfound : r.flippedBoxes answer = .ok found)
include hclusters hfound

theorem Shows.eq {b u : Rect ℝ} (h : Shows r answer (planIn request r answer found f) b u) :
    u = f.rectToUnit b.turned := by
  obtain ⟨i, id, hid, hb, hu⟩ := h
  have hbox := (flippedBoxes_get? hclusters hfound).2 ⟨i, b, hid, hb, rfl⟩
  exact Option.some.inj (hu.symm.trans (planIn_box hbox))

/-- **Every point** goes by the same map. -/
theorem Marks.eq (hnodes : r.nodes.Nodup) {p q : Point ℝ}
    (h : Marks r answer (planIn request r answer found f) p q) : q = f.toUnit p.x (-p.y) := by
  cases h with
  | corner left upper hs =>
    rw [hs.eq hclusters hfound]
    cases left <;> cases upper <;> rfl
  | node hid hp hq => exact Option.some.inj (hq.symm.trans (planIn_hint hnodes hid hp))

theorem exists_found {id : String} (hid : id ∈ r.clusters) : ∃ v, found.get? id = some v := by
  obtain ⟨i, hi, rfl⟩ := List.mem_iff_getElem.1 hid
  obtain ⟨b, hb⟩ := flippedBoxes_ok_iff.1 ⟨found, hfound⟩ i hi
  exact ⟨b.turned, (flippedBoxes_get? hclusters hfound).2
    ⟨i, b, List.getElem?_eq_getElem hi, hb, rfl⟩⟩

/-- The boxes of the clusters in the plan are the images of those that were found. -/
theorem mem_filterMap_planIn_iff {u : Rect ℝ} :
    u ∈ r.clusters.filterMap (planIn request r answer found f).boxes.get? ↔
      u ∈ found.values.map f.rectToUnit := by
  rw [List.mem_filterMap, List.mem_map]
  constructor
  · rintro ⟨id, hid, hu⟩
    obtain ⟨v, hv⟩ := exists_found hclusters hfound hid
    rw [planIn_box hv] at hu
    exact ⟨v, Table.mem_values_iff.2 ⟨id, hv⟩, Option.some.inj hu⟩
  · rintro ⟨v, hv, rfl⟩
    obtain ⟨id, hid⟩ := Table.mem_values_iff.1 hv
    obtain ⟨i, b, hi, -, -⟩ := (flippedBoxes_get? hclusters hfound).1 hid
    exact ⟨id, List.mem_of_getElem? hi, planIn_box hid⟩

end

/-- **The plan in a frame around all boxes** shows them at their true scale. -/
theorem planIn_trueScale (hclusters : r.clusters.Nodup)
    (hroot : request.hierarchy.root ∉ r.clusters) (hnodes : r.nodes.Nodup)
    (hfound : r.flippedBoxes answer = .ok found) {all : Rect ℝ} (hall : IsHull found.values all)
    (hupright : ∀ v ∈ found.values, v.Upright)
    (hframe : f.Around all request.settings.spacing.padding) :
    TrueScale request r answer (planIn request r answer found f) := by
  have hs := hframe.scale
  have hmem : ∀ u, u ∈ r.clusters.filterMap (planIn request r answer found f).boxes.get? ↔
      u ∈ found.values.map f.rectToUnit := fun _ => mem_filterMap_planIn_iff hclusters hfound
  refine
    { root := planIn_root ?root
      boxed := fun id hid => ?boxed
      hinted := fun i id p hid hp => ⟨_, planIn_hint hnodes hid hp⟩
      differences := fun p q p' q' hpq hpq' => ?differences
      relations := fun b u b' u' hbu hbu' => ?relations
      centered := ⟨_, (Frame.isHull_map hs hall).congr hmem, hframe.center⟩
      padded := fun id hid u hu => ?padded }
  case root =>
    refine Option.eq_none_iff_forall_ne_some.2 fun v hv => hroot ?_
    obtain ⟨i, b, hi, -, -⟩ := (flippedBoxes_get? hclusters hfound).1 hv
    exact List.mem_of_getElem? hi
  case boxed =>
    obtain ⟨v, hv⟩ := exists_found hclusters hfound hid
    exact ⟨_, planIn_box hv⟩
  case differences =>
    rw [hpq.eq hclusters hfound hnodes, hpq'.eq hclusters hfound hnodes]
    have hsub := Frame.toUnit_sub hs p.x (-p.y) p'.x (-p'.y)
    exact ⟨hsub.1, hsub.2.trans (by ring)⟩
  case relations =>
    rw [hbu.eq hclusters hfound, hbu'.eq hclusters hfound, Frame.rectToUnit_within_iff hs,
      Frame.rectToUnit_intersects hs, Rect.turned_within_iff, Rect.turned_intersects]
    exact ⟨Iff.rfl, rfl⟩
  case padded =>
    obtain ⟨v, hv⟩ := exists_found hclusters hfound hid
    rw [planIn_box hv] at hu
    cases hu
    have hvalue := Table.mem_values_iff.2 ⟨id, hv⟩
    exact hframe.padded (hall.upright (List.ne_nil_of_mem hvalue) hupright) (hall.holds v hvalue)

end

/-- **An answer of the tool keeps its true scale.** Take the request for a tree with a container
beside the root, whatever the padding. The answer is refused exactly when one of the clusters has no
box. When all boxes have their sides in order it becomes a plan that shows them, and the nodes, at
their true scale, in the middle of the unit square and with the padding to its sides. -/
theorem normalize_trueScale {d : Diagram} {request : SizingRequest ℝ}
    (hh : Hierarchy.extract d = .ok request.hierarchy)
    (hinner : ∃ id, request.hierarchy.containers.contains id = true ∧ id ≠ request.hierarchy.root)
    (answer : DotAnswer ℝ) :
    ((∃ e, (build request).normalize request answer = .error e) ↔
      ∃ i < (build request).clusters.length, answer.clusters.get? i = none) ∧
    ((∀ i < (build request).clusters.length, ∃ b, answer.clusters.get? i = some b ∧ b.Upright) →
      ∃ plan, (build request).normalize request answer = .ok plan ∧
        TrueScale request (build request) answer plan) := by
  have t := (Hierarchy.extract_treeOf hh).toIsTree
  have hclusters : (build request).clusters.Nodup := nodup_clustersOf t
  have hroot : request.hierarchy.root ∉ (build request).clusters := by
    intro hm
    obtain ⟨p, hp⟩ := (mem_clustersOf_iff t).1 hm
    rw [t.rootTop] at hp
    cases hp
  have hne : (build request).clusters ≠ [] := by
    obtain ⟨id, hid, hr⟩ := hinner
    have hcluster : id ∈ clustersOf request.hierarchy :=
      (mem_clustersOf_iff t).2 (Option.ne_none_iff_exists'.1 fun hp => hr (t.top hid hp))
    exact List.ne_nil_of_mem hcluster
  refine ⟨normalize_error_iff request hne hclusters, fun hboxes => ?_⟩
  obtain ⟨found, all, hfound, hall, hplan⟩ := normalize_ok request hne hclusters fun i hi =>
    (hboxes i hi).imp fun _ h => h.1
  refine ⟨_, hplan, planIn_trueScale hclusters hroot ?nodes hfound hall (fun v hv => ?upright)
    (Frame.around_spec request all)⟩
  case nodes => exact Table.nodup_keys _
  case upright =>
    obtain ⟨id, hv⟩ := Table.mem_values_iff.1 hv
    obtain ⟨i, b, hi, hb, rfl⟩ := (flippedBoxes_get? hclusters hfound).1 hv
    obtain ⟨b', hb', hupright⟩ := hboxes i (List.getElem?_eq_some_iff.1 hi).1
    cases hb.symm.trans hb'
    exact Rect.turned_upright hupright

/-- A cluster in another one and a third one beside it, a node with a position and one without. -/
noncomputable def nestedAnswer : DotAnswer ℝ where
  clusters := .ofList [(0, ⟨0, 0, 5, 10⟩), (1, ⟨1, 1, 4, 5⟩), (2, ⟨10, 0, 21, 10⟩)]
  nodes := .ofList [(1, ⟨2, 4⟩)]

theorem nested_trueScale :
    let request : SizingRequest ℝ := ⟨nestedTree, .new LayoutSettings.standard.spacing, .empty, [],
      .standard, (1200, 800)⟩
    Hierarchy.extract nested = .ok request.hierarchy ∧
    (∀ i < (build request).clusters.length,
      ∃ b, nestedAnswer.clusters.get? i = some b ∧ b.Upright) ∧
    ∃ plan, (build request).normalize request nestedAnswer = .ok plan ∧
      TrueScale request (build request) nestedAnswer plan := by
  intro request
  have hh : Hierarchy.extract nested = .ok request.hierarchy := rfl
  have hboxes : ∀ i < (build request).clusters.length,
      ∃ b, nestedAnswer.clusters.get? i = some b ∧ b.Upright := by
    intro i hi
    have hclusters : clustersOf nestedTree = ["A", "B", "C"] := rfl
    rw [(clusters_build request).trans hclusters] at hi
    match i, hi with
    | 0, _ => exact ⟨_, rfl, by constructor <;> norm_num⟩
    | 1, _ => exact ⟨_, rfl, by constructor <;> norm_num⟩
    | 2, _ => exact ⟨_, rfl, by constructor <;> norm_num⟩
  obtain ⟨-, hplan⟩ := normalize_trueScale hh ⟨"A", rfl, by decide⟩ nestedAnswer
  exact ⟨hh, hboxes, hplan hboxes⟩

end DotRequest

end NestedLayout
