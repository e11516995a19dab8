import NestedLayout.Proofs.Drawing.Failures
import NestedLayout.Proofs.Drawing.Tight

/-!
# Containers that are carried along

As long as no two siblings meet inside a container, compaction moves nothing in it against anything
else in it: what lies in there is carried along, by one vector, when containers further out are
moved apart, and boxes only shrink. Where boxes lie in one another only up to a tolerance, a tight
box can stick out of the old one by that much for each level in it (`slack`).

* `Carried`: what compaction has reached inside one container.
* `Carried.translateSubtree`: a move of a subtree carries all of the container along or none of it.
* `Carried.tightBox`, `Carried.setBox`: tight boxes lie inside the boxes they replace.
* `Carried.clear`: what is carried along stays clear of the child containers.
* `foldlM_compactOne_carried`: so every container without siblings that meet is carried along, and
  without shifts all of them stay where they are.
* `foldlM_compactOne_stuck`: where compaction gives up.
-/

set_option autoImplicit false

namespace NestedLayout.Drawing

/-- Boxes that lie in one another up to a tolerance, with the elements in their interiors. -/
structure Holding (tol : ℝ) (d : Drawing ℝ) : Prop where
  tree : d.hierarchy.IsTree
  tolerance : 0 ≤ tol
  padding : 0 ≤ d.unitPadding.1 ∧ 0 ≤ d.unitPadding.2
  boxed : ∀ {id}, d.hierarchy.containers.contains id = true → ∃ box, d.boxes.get? id = some box
  upright : ∀ {id box}, d.boxes.get? id = some box → box.Upright
  nested : ∀ {p c pbox box}, d.hierarchy.parent? c = some p → d.boxes.get? p = some pbox →
    d.boxes.get? c = some box → box.Within ((d.inner pbox).inflate tol tol)
  inside : Inside d
  standing : Standing d

/-! ## Tolerances -/

/-- How far the tolerances of all levels from a container inwards can take its box at most. -/
noncomputable def slack (tol : ℝ) (d : Drawing ℝ) (id : String) : ℝ :=
  ((d.hierarchy.size - d.hierarchy.depth id : ℕ) : ℝ) * tol

/-- How far the tolerances of all levels can take a box at most. -/
noncomputable def margin (tol : ℝ) (d : Drawing ℝ) : ℝ := d.hierarchy.size * tol

section
variable {d : Drawing ℝ} {tol : ℝ}

theorem slack_nonneg (ht : 0 ≤ tol) (id : String) : 0 ≤ slack tol d id :=
  mul_nonneg (Nat.cast_nonneg _) ht

theorem slack_le_margin (ht : 0 ≤ tol) (id : String) : slack tol d id ≤ margin tol d :=
  mul_le_mul_of_nonneg_right (Nat.cast_le.2 (Nat.sub_le _ _)) ht

theorem slack_parent (t : d.hierarchy.IsTree) {p c : String} (hp : d.hierarchy.parent? c = some p) :
    tol + slack tol d c = slack tol d p := by
  have hdepth := t.depthChild hp
  have hsize := t.depth_lt_size (t.parentKnown hp)
  rw [slack, slack, show d.hierarchy.size - d.hierarchy.depth p =
    d.hierarchy.size - d.hierarchy.depth c + 1 by omega]
  push_cast
  ring

end

/-- Every box inside a container that holds something has room for the padding. -/
def RoomyIn (d : Drawing ℝ) (c : String) : Prop :=
  ∀ {id box}, d.hierarchy.Encloses c id → d.boxes.get? id = some box → d.contents id ≠ [] →
    2 * d.unitPadding.1 ≤ box.width ∧ 2 * d.unitPadding.2 ≤ box.height

/-- No two siblings inside a container meet when all of their sides are moved out so far. -/
def ApartBy (m : ℝ) (d : Drawing ℝ) (c : String) : Prop :=
  ∀ {p a b abox bbox}, d.hierarchy.Encloses c p → d.hierarchy.parent? a = some p →
    d.hierarchy.parent? b = some p → a ≠ b → d.boxes.get? a = some abox →
    d.boxes.get? b = some bbox → (abox.inflate m m).intersects (bbox.inflate m m) = false

/-- No element meets a child container of its container when the sides of that are moved out so
far. -/
def ClearBy (m : ℝ) (d : Drawing ℝ) : Prop :=
  ∀ {c b e p bbox}, d.hierarchy.owners.get? e = some c → d.hierarchy.parent? b = some c →
    d.placements.get? e = some p → d.boxes.get? b = some bbox →
    (bbox.inflate m m).intersects p.footprint = false

theorem ClearBy.clear {d : Drawing ℝ} (h : ClearBy 0 d) : Clear d := fun ho hpar hp hb => by
  have hclear := h ho hpar hp hb
  rwa [Rect.inflate_zero] at hclear

/-- No element inside a container, at any depth, meets a child container of its container. -/
def ClearIn (d : Drawing ℝ) (c : String) : Prop :=
  ∀ {x b e p bbox}, d.hierarchy.Encloses c x → d.hierarchy.owners.get? e = some x →
    d.hierarchy.parent? b = some x → d.placements.get? e = some p →
    d.boxes.get? b = some bbox → bbox.intersects p.footprint = false

/-! ## Carried along -/

/-- Where a rectangle in a container may be that has been moved by a vector: where it was, up to the
slack, moved along. -/
noncomputable def reach (tol : ℝ) (d₀ : Drawing ℝ) (v : ℝ × ℝ) (id : String) (r : Rect ℝ) :
    Rect ℝ :=
  (r.inflate (slack tol d₀ id) (slack tol d₀ id)).translate v.1 v.2

/-- What compaction has reached inside a container: smaller boxes and the same elements, all of them
moved by the same vector. -/
structure Carried (tol : ℝ) (d₀ : Drawing ℝ) (c : String) (v : ℝ × ℝ) (d : Drawing ℝ) : Prop where
  hierarchy : d.hierarchy = d₀.hierarchy
  settings : d.settings = d₀.settings
  scale : d.scale = d₀.scale
  boxed : ∀ {x sized}, d₀.hierarchy.Encloses c x → d₀.boxes.get? x = some sized →
    ∃ box, d.boxes.get? x = some box ∧ box.Upright ∧ box.Within (reach tol d₀ v x sized)
  moved : ∀ {x e}, d₀.hierarchy.Encloses c x → d₀.hierarchy.owners.get? e = some x →
    (d.placements.get? e).map (·.footprint) =
      ((d₀.placements.get? e).map (·.footprint)).map fun r => r.translate v.1 v.2

section
variable {tol : ℝ} {d₀ d : Drawing ℝ} {c id j : String} {v : ℝ × ℝ}

theorem reach_within (ht : 0 ≤ tol) (v : ℝ × ℝ) (id : String) (r : Rect ℝ) :
    (reach tol d₀ v id r).Within
      ((r.inflate (margin tol d₀) (margin tol d₀)).translate v.1 v.2) :=
  have hle := slack_le_margin (d := d₀) ht id
  ((Rect.Within.refl r).inflate hle hle).translate v.1 v.2

@[simp] theorem reach_zero (id : String) (r : Rect ℝ) : reach 0 d₀ (0, 0) id r = r := by
  rw [reach, slack, mul_zero, Rect.inflate_zero, Rect.translate_zero]

theorem Holding.carried (h : Holding tol d) (c : String) : Carried tol d c (0, 0) d where
  hierarchy := rfl
  settings := rfl
  scale := rfl
  boxed := fun {x sized} _ hb => ⟨sized, hb, h.upright hb, by
    have hslack := slack_nonneg (d := d) h.tolerance x
    rw [reach, Rect.translate_zero]
    exact Rect.within_inflate hslack hslack sized⟩
  moved := fun _ _ => by simp only [Rect.translate_zero, Option.map_id']

theorem Carried.unitPadding (h : Carried tol d₀ c v d) : d.unitPadding = d₀.unitPadding := by
  rw [Drawing.unitPadding, Drawing.unitPadding, h.settings, h.scale]

/-! ## Moves -/

/-- A move of a container further out carries everything along. -/
theorem Carried.along (t : d₀.hierarchy.IsTree) (h : Carried tol d₀ c v d)
    (hj : d₀.hierarchy.Encloses j c) (dx dy : ℝ) :
    Carried tol d₀ c (v.1 + dx, v.2 + dy) (d.translateSubtree j dx dy) := by
  have t' : d.hierarchy.IsTree := h.hierarchy ▸ t
  refine ⟨h.hierarchy, h.settings, h.scale, fun {x sized} hx hb => ?boxed,
    fun {x e} hx ho => ?moved⟩
  case boxed =>
    obtain ⟨box, hbox, hup, hw⟩ := h.boxed hx hb
    rw [translateSubtree_box_inside t' (h.hierarchy ▸ hj.trans hx), hbox]
    refine ⟨_, rfl, Rect.translate_upright hup, ?_⟩
    rw [reach, ← Rect.translate_translate]
    exact hw.translate dx dy
  case moved =>
    rw [translateSubtree_footprint_inside t' (h.hierarchy ▸ ho) (h.hierarchy ▸ hj.trans hx),
      h.moved hx ho, Option.map_map]
    exact Option.map_congr fun r _ => Rect.translate_translate r _ _ _ _

/-- A move elsewhere shows nowhere in the container. -/
theorem Carried.beside (t : d₀.hierarchy.IsTree) (h : Carried tol d₀ c v d)
    (hj : ∀ {x}, d₀.hierarchy.Encloses c x → ¬ d₀.hierarchy.Encloses j x) (dx dy : ℝ) :
    Carried tol d₀ c v (d.translateSubtree j dx dy) := by
  have t' : d.hierarchy.IsTree := h.hierarchy ▸ t
  refine ⟨h.hierarchy, h.settings, h.scale, fun {x sized} hx hb => ?boxed,
    fun {x e} hx ho => ?moved⟩
  case boxed =>
    rw [translateSubtree_box_outside t' (h.hierarchy ▸ hj hx)]
    exact h.boxed hx hb
  case moved =>
    rw [translateSubtree_footprint_outside t' (h.hierarchy ▸ ho) (h.hierarchy ▸ hj hx)]
    exact h.moved hx ho

/-- **A move of a child** of another container carries all of the container along or none of it. -/
theorem Carried.translateSubtree (t : d₀.hierarchy.IsTree) (h : Carried tol d₀ c v d)
    (hp : d₀.hierarchy.parent? j = some id) (hid : ¬ d₀.hierarchy.Encloses c id) (dx dy : ℝ) :
    ∃ v', Carried tol d₀ c v' (d.translateSubtree j dx dy) := by
  by_cases hj : d₀.hierarchy.Encloses j c
  · exact ⟨_, h.along t hj dx dy⟩
  · refine ⟨v, h.beside t (fun {x} hcx hjx => ?_) dx dy⟩
    -- both would be around the same container, so that one is around the other one
    rcases Nat.le_total (d₀.hierarchy.depth j) (d₀.hierarchy.depth c) with hle | hle
    · exact hj (t.encloses_of_depth_le hjx hcx hle)
    · rcases Relation.ReflTransGen.cases_tail (t.encloses_of_depth_le hcx hjx hle) with
        rfl | ⟨q, hcq, hq⟩
      · exact hj (.refl _)
      · cases hp.symm.trans hq
        exact hid hcq

/-! ## Boxes -/

/-- A new box in the container has to lie inside the old one; elsewhere any will do. -/
theorem Carried.setBox (h : Carried tol d₀ c v d) (hid : d₀.hierarchy.containers.contains id = true)
    {box : Rect ℝ} (hbox : ∀ {sized}, d₀.hierarchy.Encloses c id → d₀.boxes.get? id = some sized →
      box.Upright ∧ box.Within (reach tol d₀ v id sized)) :
    Carried tol d₀ c v (d.setBox id box) := by
  rw [setBox_known (h.hierarchy ▸ hid)]
  refine ⟨h.hierarchy, h.settings, h.scale, fun {x sized} hx hb => ?_, h.moved⟩
  show ∃ box', (d.boxes.insert id box).get? x = some box' ∧ _
  rw [Table.get?_insert_eq]
  split
  · rename_i he
    subst he
    exact ⟨box, rfl, hbox hx hb⟩
  · exact h.boxed hx hb

variable (h₀ : Holding tol d₀) (h : Carried tol d₀ c v d)

include h in
/-- The element has been moved along. -/
theorem Carried.footprint_eq {x e : String} {p : Placement ℝ} (hx : d₀.hierarchy.Encloses c x)
    (ho : d₀.hierarchy.owners.get? e = some x) (hp : d.placements.get? e = some p) :
    ∃ p₀, d₀.placements.get? e = some p₀ ∧ p.footprint = p₀.footprint.translate v.1 v.2 := by
  have hmoved := h.moved hx ho
  rw [hp, Option.map_some, eq_comm, Option.map_eq_some_iff] at hmoved
  obtain ⟨r₀, hr₀, hr⟩ := hmoved
  obtain ⟨p₀, hp₀, rfl⟩ := Option.map_eq_some_iff.1 hr₀
  exact ⟨p₀, hp₀, hr.symm⟩

include h₀ h

/-- The box lies inside the old one, moved along. -/
theorem Carried.box_within {x : String} {box : Rect ℝ} (hx : d₀.hierarchy.Encloses c x)
    (hknown : d₀.hierarchy.containers.contains x = true) (hb : d.boxes.get? x = some box) :
    ∃ sized, d₀.boxes.get? x = some sized ∧ box.Upright ∧
      box.Within (reach tol d₀ v x sized) := by
  obtain ⟨sized, hsized⟩ := h₀.boxed hknown
  obtain ⟨box', hbox, hup, hw⟩ := h.boxed hx hsized
  cases hb.symm.trans hbox
  exact ⟨sized, hsized, hup, hw⟩

/-- **Elements stay clear of child containers** that are carried along with them. -/
theorem Carried.clear (hclear : ClearBy (margin tol d₀) d₀) : ClearIn d c := by
  intro x b e p bbox hx ho hpar hp hb
  rw [h.hierarchy] at hx ho hpar
  obtain ⟨sized, hsized, -, hw⟩ :=
    h.box_within h₀ (hx.trans (.of_parent hpar)) (Hierarchy.known_of_parent hpar) hb
  obtain ⟨p₀, hp₀, he⟩ := h.footprint_eq hx ho hp
  refine Rect.intersects_mono (hw.trans (reach_within h₀.tolerance v b sized)) (.refl _) ?_
  rw [he, Rect.intersects_translate]
  exact hclear ho hpar hp₀ hsized

variable (hc : d₀.hierarchy.Encloses c id)
include hc

/-- Siblings that did not meet do not meet in smaller boxes. -/
theorem Carried.apart (hapart : ApartBy (margin tol d₀) d₀ c) {a b : String}
    (ha : d₀.hierarchy.parent? a = some id) (hb : d₀.hierarchy.parent? b = some id) (hne : a ≠ b) :
    Containment.partiallyOverlap d.boxes a b = false := by
  refine Containment.partiallyOverlap_of_apart fun x y hx hy => ?_
  obtain ⟨xsized, hxs, -, hxw⟩ :=
    h.box_within h₀ (hc.trans (.of_parent ha)) (Hierarchy.known_of_parent ha) hx
  obtain ⟨ysized, hys, -, hyw⟩ :=
    h.box_within h₀ (hc.trans (.of_parent hb)) (Hierarchy.known_of_parent hb) hy
  refine Rect.intersects_mono (hxw.trans (reach_within h₀.tolerance v a xsized))
    (hyw.trans (reach_within h₀.tolerance v b ysized)) ?_
  rw [Rect.intersects_translate]
  exact hapart hc ha hb hne hxs hys

/-- What is in a container was in it before, and its interior has been moved along with it. -/
theorem Carried.contents_within {sized : Rect ℝ} (hsized : d₀.boxes.get? id = some sized) :
    ∀ r ∈ d.contents id, r.Upright ∧ d₀.contents id ≠ [] ∧
      r.Within (reach tol d₀ v id (d₀.inner sized)) := by
  have t' : d.hierarchy.IsTree := h.hierarchy ▸ h₀.tree
  have hslack := slack_nonneg (d := d₀) h₀.tolerance id
  intro r hr
  rcases (mem_contents t').1 hr with ⟨b, hp, hbox⟩ | ⟨e, p, ho, hp, rfl⟩
  · rw [h.hierarchy] at hp
    obtain ⟨bsized, hbsized, hup, hw⟩ :=
      h.box_within h₀ (hc.trans (.of_parent hp)) (Hierarchy.known_of_parent hp) hbox
    refine ⟨hup, List.ne_nil_of_mem ((mem_contents h₀.tree).2 (.inl ⟨b, hp, hbsized⟩)),
      hw.trans (Rect.Within.translate ?_ v.1 v.2)⟩
    -- one level more, one tolerance more
    rw [← slack_parent h₀.tree hp, ← Rect.inflate_inflate]
    exact (h₀.nested hp hsized hbsized).inflate le_rfl le_rfl
  · rw [h.hierarchy] at ho
    obtain ⟨p₀, hp₀, he⟩ := h.footprint_eq hc ho hp
    rw [he]
    exact ⟨Rect.translate_upright (h₀.standing hp₀),
      List.ne_nil_of_mem ((mem_contents h₀.tree).2 (.inr ⟨e, p₀, ho, hp₀, rfl⟩)),
      ((h₀.inside ho hp₀ hsized).trans (Rect.within_inflate hslack hslack _)).translate v.1 v.2⟩

/-- **A tight box** lies inside the box it replaces, up to the slack, moved along. -/
theorem Carried.tightBox (hroomy : RoomyIn d₀ c) {n : Container}
    (hn : d.hierarchy.container? id = some n) {sized : Rect ℝ}
    (hb : d₀.boxes.get? id = some sized) :
    (d.tightBox n).Upright ∧ (d.tightBox n).Within (reach tol d₀ v id sized) := by
  have hcontents := h.contents_within h₀ hc hb
  obtain ⟨box, hbox, hup, hw⟩ := h.boxed hc hb
  cases hu : Rect.unionAll? (d.contents id) with
  | none =>
    have hnamed : n.id = id := (h.hierarchy ▸ h₀.tree).named hn
    rw [tightBox_of_empty hn hu]
    refine ⟨emptyBox_upright _ _, Rect.Within.trans ?_ hw⟩
    simp only [emptyBox, hnamed, hbox]
    refine Rect.fromCenter_within hup ?_ ?_
    · rw [Scalar.min_real]
      exact min_le_right _ _
    · rw [Scalar.min_real]
      exact min_le_right _ _
  | some hull =>
    have hhull := Rect.unionAll?_isHull hu
    have hne : d.contents id ≠ [] := fun hnil => by
      rw [hnil] at hu
      cases hu
    obtain ⟨r, hr⟩ := List.exists_mem_of_ne_nil _ hne
    obtain ⟨hroomw, hroomh⟩ := hroomy hc hb (hcontents r hr).2.1
    have hleast := hhull.least _ fun r hr => (hcontents r hr).2.2
    rw [tightBox_of_hull hn hu, h.unitPadding]
    refine ⟨Rect.inflate_upright (hhull.upright hne fun r hr => (hcontents r hr).1) h₀.padding.1
      h₀.padding.2, (hleast.inflate le_rfl le_rfl).trans ?_⟩
    rw [reach, Rect.inflate_translate, Rect.inflate_inflate, add_comm (slack tol d₀ id),
      add_comm (slack tol d₀ id), ← Rect.inflate_inflate]
    exact (Rect.Within.inflate (Rect.inflate_within hroomw hroomh (.refl _)) le_rfl
      le_rfl).translate v.1 v.2

/-! ## Compaction -/

omit h hc in
/-- Children that did not meet stay where they are. -/
theorem Carried.separateChildren_eq {s : Shifting ℝ} (h : Carried tol d₀ c v s.drawing)
    (hc : d₀.hierarchy.Encloses c id) (hapart : ApartBy (margin tol d₀) d₀ c) {n : Container}
    (hn : s.drawing.hierarchy.container? id = some n) (retries : Nat) :
    separateChildren n.children retries s = .ok s := by
  have t := h₀.tree
  refine separateChildren_of_apart (fun q hq => ?_) retries
  rw [h.hierarchy] at hn
  rw [← Hierarchy.container?_children hn] at hq
  obtain ⟨ha, hb⟩ := mem_of_mem_pairsOf (a := q.1) (b := q.2) hq
  exact h.apart h₀ hc hapart (t.mem_children.1 ha) (t.mem_children.1 hb)
    (ne_of_mem_pairsOf (t.nodupChildren id) hq)

omit h hc in
/-- **Compacting one container** carries all of another one along, unless it shifts something in
there. -/
theorem Carried.compactOne {s s' : Shifting ℝ} (h : Carried tol d₀ c v s.drawing)
    (hroomy : RoomyIn d₀ c) (hid : d₀.hierarchy.containers.contains id = true)
    (hok : compactOne s id = .ok s')
    (hstill : d₀.hierarchy.Encloses c id → ApartBy (margin tol d₀) d₀ c ∨ s'.shifts = s.shifts) :
    ∃ v', (s'.shifts = s.shifts → v' = v) ∧ Carried tol d₀ c v' s'.drawing := by
  have t := h₀.tree
  rcases compactOne_ok hok with ⟨hnone, -⟩ | ⟨n, apart, hn, hsep, rfl⟩
  · rw [h.hierarchy, Hierarchy.container?, Table.get?_eq_none_iff, hid] at hnone
    cases hnone
  · have hshift := (separateChildren_apart hsep).1
    by_cases hc : d₀.hierarchy.Encloses c id
    · have hstay : apart = s := by
        refine hshift.resolve_right fun hlt => ?_
        rcases hstill hc with hapart | hsame
        · rw [h.separateChildren_eq h₀ hc hapart hn] at hsep
          cases hsep
          exact lt_irrefl _ hlt
        · exact hlt.ne' hsame
      subst hstay
      exact ⟨v, fun _ => rfl, h.setBox hid fun hc hb => h.tightBox h₀ hc hroomy hn hb⟩
    · have hset : ∀ {v'}, Carried tol d₀ c v' apart.drawing →
          Carried tol d₀ c v' (apart.drawing.setBox id (apart.drawing.tightBox n)) :=
        fun h' => h'.setBox hid fun hc' => absurd hc' hc
      rcases hshift with rfl | hlt
      · exact ⟨v, fun _ => rfl, hset h⟩
      · rw [h.hierarchy] at hn
        rw [← Hierarchy.container?_children hn] at hsep
        obtain ⟨v', h'⟩ := separateChildren_keeps (I := fun d => ∃ v', Carried tol d₀ c v' d)
          (fun dx dy hroot hcarried => by
            obtain ⟨_, hd⟩ := hcarried
            exact hd.translateSubtree t (t.mem_children.1 (List.mem_of_mem_tail hroot)) hc dx dy)
          hsep ⟨v, h⟩
        exact ⟨v', fun hsame => absurd hsame hlt.ne', hset h'⟩

end

section
variable {tol : ℝ} {d : Drawing ℝ} (h : Holding tol d)
include h

/-- **A container in which no siblings meet is carried along** by compaction, and so is every
container when nothing is shifted. -/
theorem foldlM_compactOne_carried {s : Shifting ℝ}
    (hfold : d.hierarchy.postOrder.foldlM compactOne ⟨d, 0⟩ = .ok s) {c : String}
    (hroomy : RoomyIn d c) (hc : ApartBy (margin tol d) d c ∨ s.shifts = 0) :
    ∃ v, (s.shifts = 0 → v = (0, 0)) ∧ Carried tol d c v s.drawing := by
  refine Fold.keepsM (fun _ (s : Shifting ℝ) => (ApartBy (margin tol d) d c ∨ s.shifts = 0) →
    ∃ v, (s.shifts = 0 → v = (0, 0)) ∧ Carried tol d c v s.drawing)
    (fun _ => ⟨_, fun _ => rfl, h.carried c⟩) (fun done id rest s s' hs hcarried hok hc => ?_)
    hfold hc
  have hle := compactOne_shifts hok
  obtain ⟨v, hv, hs'⟩ := hcarried (hc.imp_right fun hnone => by omega)
  obtain ⟨v', hsame, hs''⟩ := hs'.compactOne h hroomy (h.tree.postOrder_split hs).known hok
    fun _ => hc.imp_right fun hnone => by omega
  exact ⟨v', fun hnone => (hsame (by omega)).trans (hv (by omega)), hs''⟩

/-- **Without siblings that meet** nothing is shifted. -/
theorem foldlM_compactOne_unshifted {s : Shifting ℝ}
    (hfold : d.hierarchy.postOrder.foldlM compactOne ⟨d, 0⟩ = .ok s)
    (hroomy : RoomyIn d d.hierarchy.root) (hapart : ApartBy (margin tol d) d d.hierarchy.root) :
    s.shifts = 0 := by
  refine (Fold.keepsM (fun _ (s : Shifting ℝ) => s.shifts = 0 ∧
    ∃ v, Carried tol d d.hierarchy.root v s.drawing) ⟨rfl, _, h.carried _⟩
    (fun done id rest s s' hs ⟨hnone, v, hcarried⟩ hok => ?_) hfold).1
  have hid := (h.tree.postOrder_split hs).known
  obtain ⟨v', -, hcarried'⟩ := hcarried.compactOne h hroomy hid hok fun _ => .inl hapart
  refine ⟨?_, v', hcarried'⟩
  rcases compactOne_ok hok with ⟨-, rfl⟩ | ⟨n, apart, hn, hsep, rfl⟩
  · exact hnone
  · rw [hcarried.separateChildren_eq h (h.tree.root_encloses hid) hapart hn] at hsep
    cases hsep
    exact hnone

/-- **Compaction gives up** only on siblings in a container in which some siblings met before, or
without room. -/
theorem foldlM_compactOne_stuck {f : FailedShifting ℝ}
    (hfold : d.hierarchy.postOrder.foldlM compactOne ⟨d, 0⟩ = .error f) :
    ∃ p a b, ¬ (RoomyIn d p ∧ ApartBy (margin tol d) d p) ∧ d.hierarchy.parent? a = some p ∧
      d.hierarchy.parent? b = some p ∧ a ≠ b ∧ f.violation = .unseparated a b := by
  have t := h.tree
  obtain ⟨done, id, rest, s, -, ⟨hcast, hcarried⟩, hone⟩ := Fold.failsM
    (fun _ (s : Shifting ℝ) => SameCast d s.drawing ∧
      ∀ c, RoomyIn d c → ApartBy (margin tol d) d c → ∃ v, Carried tol d c v s.drawing)
    ⟨.refl d, fun c _ _ => ⟨_, h.carried c⟩⟩
    (fun done id rest s s' hs ⟨hcast, hcarried⟩ hok => ⟨hcast.trans (compactOne_cast hok),
      fun c hroomy hc => by
        obtain ⟨v, hv⟩ := hcarried c hroomy hc
        obtain ⟨v', -, hv'⟩ :=
          hv.compactOne h hroomy (t.postOrder_split hs).known hok fun _ => .inl hc
        exact ⟨v', hv'⟩⟩) hfold
  obtain ⟨n, hn, hsep⟩ := compactOne_error hone
  obtain ⟨-, ⟨a, b⟩, hm, hv, -⟩ := separateChildren_error hsep
  have hm' := hm
  rw [hcast.hierarchy] at hn
  rw [← Hierarchy.container?_children hn] at hm'
  obtain ⟨ha, hb⟩ := mem_of_mem_pairsOf hm'
  refine ⟨id, a, b, fun ⟨hroomy, hapart⟩ => ?_, t.mem_children.1 ha, t.mem_children.1 hb,
    ne_of_mem_pairsOf (t.nodupChildren id) hm', hv⟩
  obtain ⟨v, hv⟩ := hcarried id hroomy hapart
  rw [hv.separateChildren_eq h (.refl id) hapart (hcast.hierarchy ▸ hn)] at hsep
  cases hsep

end

end NestedLayout.Drawing
