import NestedLayout.Proofs.Drawing.Compacted

/-!
# Elements after compaction

Compaction moves siblings apart with everything in them, and looks at nothing but the siblings when
it does. So where no siblings met it leaves every element clear of the child containers; but
siblings may lie in one another, and when the outer one shrinks away from around the inner one,
that one may be moved onto an element, or to and fro until compaction gives up.

* `compact_keeps_clear`: what stays clear, and on which siblings compaction gives up.
* `Settled`: drawings that pass the check, with their elements in free places.
* `valid_not_kept`: four settled drawings that compaction does not leave so: one with a wedge
  between two areas, two in which a box grows (`nested_grows`), and one in which an area is moved
  onto a vertex.
-/

set_option autoImplicit false

namespace NestedLayout.Drawing

/-- A drawing whose boxes pass the check and whose elements lie in the interiors of their containers
and clear of the child containers, with a round at least to move siblings apart. -/
structure Settled (d : Drawing ℝ) : Prop where
  tree : d.hierarchy.IsTree
  checked : Containment.validate d.hierarchy d.boxes d.unitPadding = .ok ()
  placed : AllPlaced d
  inside : Inside d
  clear : Clear d
  rounds : 1 ≤ d.settings.sizing.containmentRetries

/-- The check lets boxes lie in one another up to its tolerance. -/
theorem Settled.holding {d : Drawing ℝ} (h : Settled d)
    (hpad : 0 ≤ d.unitPadding.1 ∧ 0 ≤ d.unitPadding.2)
    (hup : ∀ {id box}, d.boxes.get? id = some box → box.Upright) (hstand : Standing d) :
    Holding Scalar.epsilon d :=
  have hvalid := (Containment.validate_ok_iff h.tree).1 h.checked
  { tree := h.tree
    tolerance := Scalar.epsilon_pos.le
    padding := hpad
    boxed := hvalid.boxed
    upright := hup
    nested := fun hp hpb hb => Rect.contains_iff_within.1 (hvalid.inside hp hpb hb)
    inside := h.inside
    standing := hstand }

section
variable {tol : ℝ} {d : Drawing ℝ} (h : Holding tol d) (hplaced : AllPlaced d)
include h hplaced

/-- **Compaction fails** only over siblings in a container in which some siblings met before, or
without room. -/
theorem compact_stuck {e : LayoutError} (hf : d.compact.failure = some e) :
    ∃ p a b, ¬ (RoomyIn d p ∧ ApartBy (margin tol d) d p) ∧ d.hierarchy.parent? a = some p ∧
      d.hierarchy.parent? b = some p ∧ a ≠ b ∧ e = .containment (.unseparated a b) := by
  cases hfold : d.hierarchy.postOrder.foldlM compactOne ⟨d, 0⟩ with
  | error f =>
    obtain ⟨p, a, b, hmeet, ha, hb, hne, hv⟩ := foldlM_compactOne_stuck h hfold
    rw [compact_eq_failed hfold] at hf
    cases hf
    exact ⟨p, a, b, hmeet, ha, hb, hne, congrArg _ hv⟩
  | ok s =>
    obtain ⟨hnone, -⟩ := compact_of_through h.tree hfold h.padding hplaced h.standing
    cases hnone.symm.trans hf

/-- **Elements stay clear** inside containers in which no siblings met, and everywhere when nothing
was shifted. -/
theorem compact_clearIn (hclear : ClearBy (margin tol d) d) (hf : d.compact.failure = none)
    {c : String} (hroomy : RoomyIn d c)
    (hc : ApartBy (margin tol d) d c ∨ d.compact.state.metrics.compactionShifts = 0) :
    ClearIn d.compact.state c := by
  cases hfold : d.hierarchy.postOrder.foldlM compactOne ⟨d, 0⟩ with
  | error f =>
    rw [compact_eq_failed hfold] at hf
    cases hf
  | ok s =>
    obtain ⟨-, hview, hshifts, -⟩ :=
      compact_of_through h.tree hfold h.padding hplaced h.standing
    obtain ⟨v, -, hcarried⟩ := foldlM_compactOne_carried h hfold hroomy (hshifts ▸ hc)
    intro x b e p bbox hx ho hpar hp hb
    rw [hview.hierarchy] at hx ho hpar
    rw [hview.placements] at hp
    rw [hview.boxes] at hb
    exact hcarried.clear h hclear hx ho hpar hp hb

/-- **Compaction keeps a valid drawing valid** when there is room for the padding and no siblings
meet: it succeeds, and no element meets a child container of its container afterwards. Otherwise it
fails only by giving up on two siblings, in a container of which that cannot be said. And when it
succeeds, elements stay clear inside every container with room in which no siblings met, and inside
every container with room when nothing was shifted. -/
theorem compact_keeps_clear (hclear : ClearBy (margin tol d) d) :
    (RoomyIn d d.hierarchy.root → ApartBy (margin tol d) d d.hierarchy.root →
      d.compact.failure = none ∧ Clear d.compact.state) ∧
    (∀ {e}, d.compact.failure = some e → ∃ p a b,
      ¬ (RoomyIn d p ∧ ApartBy (margin tol d) d p) ∧ d.hierarchy.parent? a = some p ∧
        d.hierarchy.parent? b = some p ∧ a ≠ b ∧ e = .containment (.unseparated a b)) ∧
    (d.compact.failure = none → ∀ {c}, RoomyIn d c →
      ApartBy (margin tol d) d c ∨ d.compact.state.metrics.compactionShifts = 0 →
        ClearIn d.compact.state c) := by
  refine ⟨fun hroomy hapart => ?_, compact_stuck h hplaced, fun hf c hroomy hc =>
    compact_clearIn h hplaced hclear hf hroomy hc⟩
  have hnone : d.compact.failure = none := by
    cases hf : d.compact.failure with
    | none => rfl
    | some e =>
      obtain ⟨p, a, b, hmeet, ha, -⟩ := compact_stuck h hplaced hf
      have hroot := h.tree.root_encloses (h.tree.parentKnown ha)
      refine absurd ⟨fun {id box} hid => ?_, fun {q a b abox bbox} hq => ?_⟩ hmeet
      · exact hroomy (hroot.trans hid)
      · exact hapart (hroot.trans hq)
  refine ⟨hnone, fun {c b e p bbox} ho hpar => ?_⟩
  have htree := compact_hierarchy h.tree
  have hknown := h.tree.known_of_owner (htree ▸ ho)
  exact compact_clearIn h hplaced hclear hnone hroomy (.inl hapart)
    (htree ▸ h.tree.root_encloses hknown) ho hpar

end

/-! ## Drawings in given boxes -/

/-- A drawing at scale one with a padding but no gaps, with one round to move siblings apart. -/
noncomputable def framed (pad : ℝ) (diagram : Diagram) (h : Hierarchy) (boxes : Boxes ℝ)
    (placements : Placements ℝ) : Drawing ℝ :=
  { start diagram { (.standard : LayoutSettings ℝ) with
        spacing := ⟨pad, 0, 1, 1, 0, 0⟩, sizing.containmentRetries := 1 } (1, 1) h [] with
    boxes := boxes
    scale := ⟨1, 1⟩
    placements := placements }

section
variable (pad : ℝ) (diagram : Diagram) (h : Hierarchy) (boxes : Boxes ℝ)
  (placements : Placements ℝ)

theorem framed_unitPadding :
    (framed pad diagram h boxes placements).unitPadding = (pad, pad) := by
  show (pad / 1, pad / 1) = (pad, pad)
  rw [div_one]

theorem framed_unitGap : (framed pad diagram h boxes placements).unitGap = (0, 0) := by
  show ((0 : ℝ) / 1, (0 : ℝ) / 1) = (0, 0)
  rw [div_one]

theorem framed_inner (box : Rect ℝ) :
    (framed pad diagram h boxes placements).inner box = box.deflate pad pad := by
  rw [inner, framed_unitPadding]

variable {pad diagram h boxes placements}

theorem framed_padding (hpad : 0 ≤ pad) :
    0 ≤ (framed pad diagram h boxes placements).unitPadding.1 ∧
      0 ≤ (framed pad diagram h boxes placements).unitPadding.2 := by
  rw [framed_unitPadding]
  exact ⟨hpad, hpad⟩

/-- Boxes in one another with elements in them make a settled drawing. -/
theorem framed_settled (t : h.IsTree)
    (hboxed : ∀ {id}, h.containers.contains id = true → ∃ box, boxes.get? id = some box)
    (hnested : ∀ {p c pbox box}, h.parent? c = some p → boxes.get? p = some pbox →
      boxes.get? c = some box → (pbox.deflate pad pad).contains box = true)
    (hapart : ∀ {p a b}, h.parent? a = some p → h.parent? b = some p → a ≠ b →
      Containment.partiallyOverlap boxes a b = false)
    (helements : ∀ {c e box}, h.owners.get? e = some c → boxes.get? c = some box →
      ∃ p, placements.get? e = some p ∧ p.footprint.Within (box.deflate pad pad))
    (hclear : Clear (framed pad diagram h boxes placements)) :
    Settled (framed pad diagram h boxes placements) where
  tree := t
  checked := by
    refine (Containment.validate_ok_iff t).2 ⟨hboxed, fun {p c pbox box} hp hpb hb => ?_, hapart⟩
    rw [framed_unitPadding]
    exact hnested hp hpb hb
  placed {c e} ho := by
    obtain ⟨box, hb⟩ := hboxed (t.known_of_owner ho)
    obtain ⟨p, hp, -⟩ := helements ho hb
    exact ⟨p, hp⟩
  inside {c e p box} ho hp hb := by
    obtain ⟨p', hp', hw⟩ := helements ho hb
    cases hp.symm.trans hp'
    rw [framed_inner]
    exact hw
  clear := hclear
  rounds := le_rfl

theorem compactOne_framed {id : String} {n : Container} (hn : h.container? id = some n)
    (hpairs : pairsOf n.children = []) {box : Rect ℝ}
    (hbox : (framed pad diagram h boxes placements).tightBox n = box) :
    compactOne ⟨framed pad diagram h boxes placements, 0⟩ id =
      .ok ⟨framed pad diagram h (boxes.insert id box) placements, 0⟩ := by
  have hn' : (framed pad diagram h boxes placements).hierarchy.container? id = some n := hn
  rw [compactOne_of_apart hn' (by simp [hpairs]), hbox, setBox_known (Table.contains_of_get? hn')]
  rfl

/-- A container without two children gets the hull of its contents, and the padding around that. -/
theorem compactOne_around {id : String} {n : Container} (hull : Rect ℝ)
    (hn : h.container? id = some n) (hpairs : pairsOf n.children = [])
    (hhull : Rect.unionAll? (n.children.filterMap boxes.get? ++
      n.elements.filterMap fun e => (placements.get? e).map (·.footprint)) = some hull) :
    compactOne ⟨framed pad diagram h boxes placements, 0⟩ id =
      .ok ⟨framed pad diagram h (boxes.insert id (hull.inflate pad pad)) placements, 0⟩ := by
  have hn' : (framed pad diagram h boxes placements).hierarchy.container? id = some n := hn
  refine compactOne_framed hn hpairs ?_
  rw [tightBox_of_hull hn', framed_unitPadding]
  rw [contents, Hierarchy.container?_children hn', Hierarchy.container?_elements hn']
  exact hhull

theorem emptyBox_framed {id : String} {box : Rect ℝ} (hb : boxes.get? id = some box)
    (hup : box.Upright) (hw : box.width ≤ 1) (hh : box.height ≤ 1) :
    (framed pad diagram h boxes placements).emptyBox id = box := by
  have hbox : (framed pad diagram h boxes placements).boxes.get? id = some box := hb
  have hnone : (framed pad diagram h boxes placements).ledger.requirements.get? id = none :=
    Table.get?_empty id
  have hleast : (framed pad diagram h boxes placements).scale.toUnit
      ((framed pad diagram h boxes placements).settings.spacing.minWidth,
        (framed pad diagram h boxes placements).settings.spacing.minHeight) = (1, 1) := by
    show ((1 : ℝ) / 1, (1 : ℝ) / 1) = (1, 1)
    rw [div_one]
  simp only [emptyBox, hbox, hnone, hleast, Scalar.min_real]
  rw [min_eq_right hw, min_eq_right hh, Rect.fromCenter_center hup]

/-- A small container without contents keeps its box. -/
theorem compactOne_bare {id : String} {parent : Option String} {depth : ℕ} (box : Rect ℝ)
    (hn : h.container? id = some ⟨id, parent, [], [], depth⟩) (hb : boxes.get? id = some box)
    (hup : box.Upright) (hw : box.width ≤ 1) (hh : box.height ≤ 1) :
    compactOne ⟨framed pad diagram h boxes placements, 0⟩ id =
      .ok ⟨framed pad diagram h (boxes.insert id box) placements, 0⟩ := by
  have hn' : (framed pad diagram h boxes placements).hierarchy.container? id = some _ := hn
  have hempty : Rect.unionAll? ((framed pad diagram h boxes placements).contents id) = none := by
    rw [contents, Hierarchy.container?_children hn', Hierarchy.container?_elements hn']
    rfl
  refine compactOne_framed hn rfl ?_
  rw [tightBox_of_empty hn' hempty]
  exact emptyBox_framed hb hup hw hh

end

/-! ## Drawings without padding -/

noncomputable def unpadded (diagram : Diagram) (h : Hierarchy) (boxes : Boxes ℝ)
    (placements : Placements ℝ) : Drawing ℝ := framed 0 diagram h boxes placements

section
variable {diagram : Diagram} {h : Hierarchy} {boxes : Boxes ℝ} {placements : Placements ℝ}

theorem unpadded_settled (t : h.IsTree)
    (hboxed : ∀ {id}, h.containers.contains id = true → ∃ box, boxes.get? id = some box)
    (hup : ∀ {id box}, boxes.get? id = some box → box.Upright)
    (hnested : ∀ {p c pbox box}, h.parent? c = some p → boxes.get? p = some pbox →
      boxes.get? c = some box → pbox.contains box = true)
    (hapart : ∀ {p a b}, h.parent? a = some p → h.parent? b = some p → a ≠ b →
      Containment.partiallyOverlap boxes a b = false)
    (helements : ∀ {c e box}, h.owners.get? e = some c → boxes.get? c = some box →
      ∃ p, placements.get? e = some p ∧ p.footprint.Within box)
    (hclear : Clear (unpadded diagram h boxes placements)) :
    Settled (unpadded diagram h boxes placements) := by
  refine framed_settled t hboxed (fun hp hpb hb => ?_) hapart (fun ho hb => ?_) hclear
  · rw [Rect.deflate_zero (hup hpb)]
    exact hnested hp hpb hb
  · rw [Rect.deflate_zero (hup hb)]
    exact helements ho hb

theorem unpadded_roomyIn (hup : ∀ {id box}, boxes.get? id = some box → box.Upright) (c : String) :
    RoomyIn (unpadded diagram h boxes placements) c := fun {_ box} _ hb _ => by
  rw [unpadded, framed_unitPadding, mul_zero]
  exact ⟨(hup hb).width_nonneg, (hup hb).height_nonneg⟩

/-- A container without two children gets the hull of its contents for its box. -/
theorem compactOne_unpadded {id : String} {n : Container} (hull : Rect ℝ)
    (hn : h.container? id = some n) (hpairs : pairsOf n.children = [])
    (hhull : Rect.unionAll? (n.children.filterMap boxes.get? ++
      n.elements.filterMap fun e => (placements.get? e).map (·.footprint)) = some hull) :
    compactOne ⟨unpadded diagram h boxes placements, 0⟩ id =
      .ok ⟨unpadded diagram h (boxes.insert id hull) placements, 0⟩ := by
  have haround : compactOne ⟨unpadded diagram h boxes placements, 0⟩ id =
      .ok ⟨unpadded diagram h (boxes.insert id (hull.inflate 0 0)) placements, 0⟩ :=
    compactOne_around hull hn hpairs hhull
  rwa [Rect.inflate_zero] at haround

end

/-! ## A wedge between two areas -/

/-- Three areas with a vertex each. -/
def wedgedDiagram : Diagram :=
  .build "sheet" [.area "A" "sheet", .area "B" "sheet", .area "C" "sheet", .vertex "A" "p" none,
    .vertex "B" "q" none, .vertex "C" "r" none]

def wedgedTree : Hierarchy where
  root := "sheet"
  containers := .ofList [("A", ⟨"A", some "sheet", [], ["p"], 1⟩),
    ("B", ⟨"B", some "sheet", [], ["q"], 1⟩), ("C", ⟨"C", some "sheet", [], ["r"], 1⟩),
    ("sheet", ⟨"sheet", none, ["A", "B", "C"], [], 0⟩)]
  owners := .ofList [("p", "A"), ("q", "B"), ("r", "C")]

theorem extract_wedged : Hierarchy.extract wedgedDiagram = .ok wedgedTree := rfl

/-- Each area lies in the one before it. -/
noncomputable def wedgedBoxes : Boxes ℝ :=
  .ofList [("A", ⟨0, 0, 10, 4⟩), ("B", ⟨3, 0, 10, 4⟩), ("C", ⟨3, 0, 8, 4⟩),
    ("sheet", ⟨0, 0, 10, 4⟩)]

/-- The vertices of `A` and `B` stand at opposite ends, less far apart than that of `C` is wide. -/
noncomputable def wedgedPlacements : Placements ℝ :=
  .ofList [("p", ⟨⟨0, 0, 4, 4⟩, ⟨0, 0, 4, 4⟩, false⟩),
    ("q", ⟨⟨6, 0, 10, 4⟩, ⟨6, 0, 10, 4⟩, false⟩), ("r", ⟨⟨3, 0, 8, 4⟩, ⟨3, 0, 8, 4⟩, false⟩)]

noncomputable def wedged : Drawing ℝ :=
  unpadded wedgedDiagram wedgedTree wedgedBoxes wedgedPlacements

theorem wedged_tree : wedged.hierarchy.IsTree := (Hierarchy.extract_treeOf extract_wedged).toIsTree

theorem wedged_parent {c p : String} (hp : wedgedTree.parent? c = some p) :
    (c = "A" ∨ c = "B" ∨ c = "C") ∧ p = "sheet" := by
  obtain ⟨n, hn, hp⟩ := Option.bind_eq_some_iff.1 hp
  have hmem := Table.mem_of_get?_ofList hn
  simp only [List.mem_cons, List.not_mem_nil, or_false, Prod.mk.injEq] at hmem
  rcases hmem with ⟨rfl, rfl⟩ | ⟨rfl, rfl⟩ | ⟨rfl, rfl⟩ | ⟨rfl, rfl⟩ <;> simp_all

theorem wedged_owner {e c : String} (ho : wedgedTree.owners.get? e = some c) :
    e = "p" ∧ c = "A" ∨ e = "q" ∧ c = "B" ∨ e = "r" ∧ c = "C" := by
  simpa using Table.mem_of_get?_ofList ho

theorem wedged_settled : Settled wedged := by
  refine unpadded_settled wedged_tree (fun {id} hid => ?boxed) (fun {id box} hb => ?upright)
    (fun {p c pbox box} hp hpb hb => ?nested) (fun {p a b} ha hb hne => ?apart)
    (fun {c e box} ho hb => ?elements) (fun {c b e p bbox} ho hpar => ?clear)
  case boxed =>
    have hmem := Table.contains_ofList_iff.1 hid
    simp only [List.map_cons, List.map_nil, List.mem_cons, List.not_mem_nil, or_false] at hmem
    rcases hmem with rfl | rfl | rfl | rfl <;> exact ⟨_, rfl⟩
  case upright =>
    have hmem := Table.mem_of_get?_ofList hb
    simp only [List.mem_cons, List.not_mem_nil, or_false, Prod.mk.injEq] at hmem
    rcases hmem with ⟨-, rfl⟩ | ⟨-, rfl⟩ | ⟨-, rfl⟩ | ⟨-, rfl⟩ <;> constructor <;> norm_num
  case nested =>
    obtain ⟨hc, rfl⟩ := wedged_parent hp
    cases hpb
    refine Rect.Within.contains ?_
    rcases hc with rfl | rfl | rfl <;> cases hb <;> constructor <;> norm_num
  case apart =>
    -- of any two, the later one lies in the earlier one
    have hAB : Containment.partiallyOverlap wedgedBoxes "A" "B" = false :=
      (Containment.partiallyOverlap_eq_false_iff (x := ⟨0, 0, 10, 4⟩) (y := ⟨3, 0, 10, 4⟩) rfl
        rfl).2 (.inr (.inl (Rect.Within.contains (by constructor <;> norm_num))))
    have hAC : Containment.partiallyOverlap wedgedBoxes "A" "C" = false :=
      (Containment.partiallyOverlap_eq_false_iff (x := ⟨0, 0, 10, 4⟩) (y := ⟨3, 0, 8, 4⟩) rfl
        rfl).2 (.inr (.inl (Rect.Within.contains (by constructor <;> norm_num))))
    have hBC : Containment.partiallyOverlap wedgedBoxes "B" "C" = false :=
      (Containment.partiallyOverlap_eq_false_iff (x := ⟨3, 0, 10, 4⟩) (y := ⟨3, 0, 8, 4⟩) rfl
        rfl).2 (.inr (.inl (Rect.Within.contains (by constructor <;> norm_num))))
    obtain ⟨ha, -⟩ := wedged_parent ha
    obtain ⟨hb, -⟩ := wedged_parent hb
    rcases ha with rfl | rfl | rfl <;> rcases hb with rfl | rfl | rfl
    all_goals first
      | exact absurd rfl hne
      | assumption
      | exact (Containment.partiallyOverlap_comm ..).trans ‹_›
  case elements =>
    rcases wedged_owner ho with ⟨rfl, rfl⟩ | ⟨rfl, rfl⟩ | ⟨rfl, rfl⟩ <;> cases hb <;>
      exact ⟨_, rfl, by constructor <;> norm_num⟩
  case clear =>
    obtain ⟨-, rfl⟩ := wedged_parent hpar
    rcases wedged_owner ho with ⟨-, h⟩ | ⟨-, h⟩ | ⟨-, h⟩ <;> exact absurd h (by decide)

/-- The boxes when the areas are done. -/
noncomputable def wedgedTight : Boxes ℝ :=
  .ofList [("A", ⟨0, 0, 4, 4⟩), ("B", ⟨6, 0, 10, 4⟩), ("C", ⟨3, 0, 8, 4⟩),
    ("sheet", ⟨0, 0, 10, 4⟩)]

noncomputable def wedgedAreas : Drawing ℝ :=
  unpadded wedgedDiagram wedgedTree wedgedTight wedgedPlacements

/-- The area `C` pushed off `A`, and then off `B`. -/
noncomputable def wedgedOnB : Drawing ℝ := wedgedAreas.translateSubtree "C" 1 0

noncomputable def wedgedOnA : Drawing ℝ := wedgedOnB.translateSubtree "C" (-3) 0

theorem wedgedOnB_C : wedgedOnB.boxes.get? "C" = some ⟨4, 0, 9, 4⟩ := by
  show some (Rect.translate ⟨3, 0, 8, 4⟩ 1 0) = _
  norm_num [Rect.translate_eq]

theorem wedgedOnA_C : wedgedOnA.boxes.get? "C" = some ⟨1, 0, 6, 4⟩ := by
  have hC : wedgedOnA.boxes.get? "C" =
      (wedgedOnB.boxes.get? "C").map fun box => box.translate (-3) 0 := rfl
  rw [hC, wedgedOnB_C]
  norm_num [Rect.translate_eq]

theorem wedged_areas :
    ["A", "B", "C"].foldlM compactOne ⟨wedged, 0⟩ = .ok ⟨wedgedAreas, 0⟩ := by
  have hA : compactOne ⟨wedged, 0⟩ "A" = .ok ⟨unpadded wedgedDiagram wedgedTree
      (wedgedBoxes.insert "A" ⟨0, 0, 4, 4⟩) wedgedPlacements, 0⟩ :=
    compactOne_unpadded ⟨0, 0, 4, 4⟩ rfl rfl rfl
  have hB : compactOne ⟨unpadded wedgedDiagram wedgedTree
      (wedgedBoxes.insert "A" ⟨0, 0, 4, 4⟩) wedgedPlacements, 0⟩ "B" =
      .ok ⟨wedgedAreas, 0⟩ := compactOne_unpadded ⟨6, 0, 10, 4⟩ rfl rfl rfl
  have hC : compactOne ⟨wedgedAreas, 0⟩ "C" = .ok ⟨wedgedAreas, 0⟩ :=
    compactOne_unpadded ⟨3, 0, 8, 4⟩ rfl rfl rfl
  exact Fold.concatM (l := ["A", "B"]) (Fold.concatM (l := ["A"])
    (Fold.concatM (l := []) rfl hA) hB) hC

/-- A round moves `C` off `A` and back onto it. -/
theorem wedged_round :
    (pairsOf ["A", "B", "C"]).foldl shiftPair ⟨wedgedAreas, 0⟩ = ⟨wedgedOnA, 2⟩ := by
  have hAB : shiftPair ⟨wedgedAreas, 0⟩ ("A", "B") = ⟨wedgedAreas, 0⟩ := by
    refine shiftPair_of_apart ((Containment.partiallyOverlap_eq_false_iff (x := ⟨0, 0, 4, 4⟩)
      (y := ⟨6, 0, 10, 4⟩) rfl rfl).2 (.inl ?_))
    rw [← Bool.not_eq_true, Rect.intersects_iff]
    norm_num
  have hAC : shiftPair ⟨wedgedAreas, 0⟩ ("A", "C") = ⟨wedgedOnB, 1⟩ := by
    refine shiftPair_of_overlap (x := ⟨0, 0, 4, 4⟩) (y := ⟨3, 0, 8, 4⟩) rfl rfl ?_ ?_
    · rw [← Bool.not_eq_false, Containment.partiallyOverlap_eq_false_iff (x := ⟨0, 0, 4, 4⟩)
        (y := ⟨3, 0, 8, 4⟩) rfl rfl, ← Bool.not_eq_true, Rect.intersects_iff, Rect.contains_iff,
        Rect.contains_iff]
      norm_num [Scalar.epsilon]
    · rw [wedgedAreas, unpadded, framed_unitGap]
      norm_num [shiftApart, Rect.overlapExtent]
  have hBC : shiftPair ⟨wedgedOnB, 1⟩ ("B", "C") = ⟨wedgedOnA, 2⟩ := by
    refine shiftPair_of_overlap (x := ⟨6, 0, 10, 4⟩) rfl wedgedOnB_C ?_ ?_
    · rw [← Bool.not_eq_false, Containment.partiallyOverlap_eq_false_iff (x := ⟨6, 0, 10, 4⟩)
        rfl wedgedOnB_C, ← Bool.not_eq_true, Rect.intersects_iff, Rect.contains_iff,
        Rect.contains_iff]
      norm_num [Scalar.epsilon]
    · rw [show wedgedOnB.unitGap = (0, 0) from framed_unitGap ..]
      norm_num [shiftApart, Rect.overlapExtent]
  show shiftPair (shiftPair (shiftPair ⟨wedgedAreas, 0⟩ ("A", "B")) ("A", "C")) ("B", "C") = _
  rw [hAB, hAC, hBC]

theorem wedged_gives_up : wedged.compact.failure = some (.containment (.unseparated "A" "C")) := by
  have hAB : Containment.partiallyOverlap wedgedOnA.boxes "A" "B" = false := by
    refine (Containment.partiallyOverlap_eq_false_iff (x := ⟨0, 0, 4, 4⟩)
      (y := ⟨6, 0, 10, 4⟩) rfl rfl).2 (.inl ?_)
    rw [← Bool.not_eq_true, Rect.intersects_iff]
    norm_num
  have hAC : Containment.partiallyOverlap wedgedOnA.boxes "A" "C" = true := by
    rw [← Bool.not_eq_false, Containment.partiallyOverlap_eq_false_iff (x := ⟨0, 0, 4, 4⟩) rfl
      wedgedOnA_C, ← Bool.not_eq_true, Rect.intersects_iff, Rect.contains_iff, Rect.contains_iff]
    norm_num [Scalar.epsilon]
  have hsep : separateChildren ["A", "B", "C"] 1 ⟨wedgedAreas, 0⟩ =
      .error ⟨wedgedOnA, .unseparated "A" "C"⟩ := by
    rw [separateChildren, wedged_round]
    simp only [separateChildren, pairsOf, List.map_cons, List.map_nil, List.cons_append,
      List.nil_append, List.append_nil, List.find?_cons, hAB, hAC]
    rfl
  have hsheet : compactOne ⟨wedgedAreas, 0⟩ "sheet" =
      .error ⟨wedgedOnA, .unseparated "A" "C"⟩ := by
    show (separateChildren ["A", "B", "C"] 1 ⟨wedgedAreas, 0⟩ >>= _) = _
    rw [hsep]
    rfl
  have hfold : wedged.hierarchy.postOrder.foldlM compactOne ⟨wedged, 0⟩ =
      .error ⟨wedgedOnA, .unseparated "A" "C"⟩ := by
    show (["A", "B", "C"] ++ ["sheet"]).foldlM compactOne ⟨wedged, 0⟩ = _
    rw [List.foldlM_append, wedged_areas]
    show (compactOne ⟨wedgedAreas, 0⟩ "sheet" >>= pure) = _
    rw [hsheet]
    rfl
  rw [compact_eq_failed hfold]

/-! ## Areas in one another -/

/-- An area in an area, and a vertex beside the outer one. -/
def nestedDiagram : Diagram :=
  .build "sheet" [.area "A" "sheet", .area "B" "A", .vertex "sheet" "e" none]

def nestedTree : Hierarchy where
  root := "sheet"
  containers := .ofList [("A", ⟨"A", some "sheet", ["B"], [], 1⟩),
    ("B", ⟨"B", some "A", [], [], 2⟩), ("sheet", ⟨"sheet", none, ["A"], ["e"], 0⟩)]
  owners := .ofList [("e", "sheet")]

theorem extract_nested : Hierarchy.extract nestedDiagram = .ok nestedTree := rfl

theorem nested_tree : nestedTree.IsTree := (Hierarchy.extract_treeOf extract_nested).toIsTree

theorem nested_parent {c p : String} (hp : nestedTree.parent? c = some p) :
    c = "A" ∧ p = "sheet" ∨ c = "B" ∧ p = "A" := by
  obtain ⟨n, hn, hp⟩ := Option.bind_eq_some_iff.1 hp
  have hmem := Table.mem_of_get?_ofList hn
  simp only [List.mem_cons, List.not_mem_nil, or_false, Prod.mk.injEq] at hmem
  rcases hmem with ⟨rfl, rfl⟩ | ⟨rfl, rfl⟩ | ⟨rfl, rfl⟩ <;> simp_all

theorem nested_owner {e c : String} (ho : nestedTree.owners.get? e = some c) :
    e = "e" ∧ c = "sheet" := by
  simpa using Table.mem_of_get?_ofList ho

noncomputable def nestedBoxes (a b sheet : Rect ℝ) : Boxes ℝ :=
  .ofList [("A", a), ("B", b), ("sheet", sheet)]

/-- The areas, the sheet and the vertex in the given places. -/
noncomputable def nested (pad : ℝ) (a b sheet e : Rect ℝ) : Drawing ℝ :=
  framed pad nestedDiagram nestedTree (nestedBoxes a b sheet) (.ofList [("e", ⟨e, e, false⟩)])

section
variable (a b sheet e : Rect ℝ)

@[simp] theorem nested_outer : (nestedBoxes a b sheet).get? "A" = some a := by cbv

@[simp] theorem nested_inner : (nestedBoxes a b sheet).get? "B" = some b := by cbv

@[simp] theorem nested_sheet : (nestedBoxes a b sheet).get? "sheet" = some sheet := by cbv

theorem nested_insert_outer (box : Rect ℝ) :
    (nestedBoxes a b sheet).insert "A" box = nestedBoxes box b sheet := by cbv

theorem nested_insert_inner (box : Rect ℝ) :
    (nestedBoxes a b sheet).insert "B" box = nestedBoxes a box sheet := by cbv

theorem nested_insert_sheet (box : Rect ℝ) :
    (nestedBoxes a b sheet).insert "sheet" box = nestedBoxes a b box := by cbv

@[simp] theorem nested_vertex :
    (.ofList [("e", ⟨e, e, false⟩)] : Placements ℝ).get? "e" = some ⟨e, e, false⟩ := by cbv

end

section
variable {pad : ℝ} {a b sheet e : Rect ℝ}

/-- The outer area gets a box around the inner one, with the padding, whatever box it had. -/
theorem nested_through (hup : b.Upright) (hw : b.width ≤ 1) (hh : b.height ≤ 1) :
    nestedTree.postOrder.foldlM compactOne ⟨nested pad a b sheet e, 0⟩ =
      .ok ⟨nested pad (b.inflate pad pad) b
        (((b.inflate pad pad).union e).inflate pad pad) e, 0⟩ := by
  have hB : compactOne ⟨nested pad a b sheet e, 0⟩ "B" = .ok ⟨nested pad a b sheet e, 0⟩ := by
    have hn : nestedTree.container? "B" = some ⟨"B", some "A", [], [], 2⟩ := rfl
    rw [nested, compactOne_bare b hn (nested_inner a b sheet) hup hw hh, nested_insert_inner]
  have hA : compactOne ⟨nested pad a b sheet e, 0⟩ "A" =
      .ok ⟨nested pad (b.inflate pad pad) b sheet e, 0⟩ := by
    have hn : nestedTree.container? "A" = some ⟨"A", some "sheet", ["B"], [], 1⟩ := rfl
    rw [nested, compactOne_around b hn rfl (by simp [Rect.unionAll?]), nested_insert_outer, nested]
  have hsheet : compactOne ⟨nested pad (b.inflate pad pad) b sheet e, 0⟩ "sheet" =
      .ok ⟨nested pad (b.inflate pad pad) b
        (((b.inflate pad pad).union e).inflate pad pad) e, 0⟩ := by
    have hn : nestedTree.container? "sheet" = some ⟨"sheet", none, ["A"], ["e"], 0⟩ := rfl
    rw [nested, compactOne_around ((b.inflate pad pad).union e) hn rfl
      (by simp [Rect.unionAll?]), nested_insert_sheet, nested]
  have horder : nestedTree.postOrder = ["B", "A", "sheet"] := rfl
  rw [horder]
  exact Fold.concatM (l := ["B", "A"]) (Fold.concatM (l := ["B"])
    (Fold.concatM (l := []) rfl hB) hA) hsheet

variable (ha : (sheet.deflate pad pad).contains a = true)
  (hb : (a.deflate pad pad).contains b = true) (he : e.Within (sheet.deflate pad pad))
  (hclear : a.intersects e = false)
include ha hb he hclear

theorem nested_settled : Settled (nested pad a b sheet e) := by
  refine framed_settled nested_tree (fun {id} hid => ?boxed)
    (fun {p c pbox box} hp hpb hb => ?nested) (fun {p a b} ha hb hne => ?apart)
    (fun {c x box} ho hb => ?elements) (fun {c b x p bbox} ho hpar hp hb => ?clear)
  case boxed =>
    have hmem := Table.contains_ofList_iff.1 hid
    simp only [List.map_cons, List.map_nil, List.mem_cons, List.not_mem_nil, or_false] at hmem
    rcases hmem with rfl | rfl | rfl
    · exact ⟨a, nested_outer a b sheet⟩
    · exact ⟨b, nested_inner a b sheet⟩
    · exact ⟨sheet, nested_sheet a b sheet⟩
  case nested =>
    rcases nested_parent hp with ⟨rfl, rfl⟩ | ⟨rfl, rfl⟩
    · cases (nested_sheet ..).symm.trans hpb
      cases (nested_outer ..).symm.trans hb
      exact ha
    · cases (nested_outer ..).symm.trans hpb
      cases (nested_inner ..).symm.trans hb
      assumption
  case apart =>
    rcases nested_parent ha with ⟨rfl, rfl⟩ | ⟨rfl, rfl⟩ <;>
      rcases nested_parent hb with ⟨rfl, h⟩ | ⟨rfl, h⟩
    all_goals first
      | exact absurd rfl hne
      | exact absurd h (by decide)
  case elements =>
    obtain ⟨rfl, rfl⟩ := nested_owner ho
    cases (nested_sheet ..).symm.trans hb
    exact ⟨_, nested_vertex e, he⟩
  case clear =>
    obtain ⟨rfl, rfl⟩ := nested_owner ho
    rcases nested_parent hpar with ⟨rfl, -⟩ | ⟨-, h⟩
    · cases (nested_vertex e).symm.trans hp
      cases (nested_outer ..).symm.trans hb
      exact hclear
    · exact absurd h (by decide)

/-- **The outer area grows onto the vertex** when the padding around the inner one reaches there. -/
theorem nested_grows (hpad : 0 ≤ pad) (hupe : e.Upright) (hup : b.Upright) (hw : b.width ≤ 1)
    (hh : b.height ≤ 1) (hmeets : (b.inflate pad pad).intersects e = true) :
    Settled (nested pad a b sheet e) ∧ (nested pad a b sheet e).compact.failure = none ∧
      ¬ Clear (nested pad a b sheet e).compact.state := by
  have hsettled := nested_settled ha hb he hclear
  have hstand : Standing (nested pad a b sheet e) := fun {x p} hp => by
    obtain ⟨-, rfl⟩ : x = "e" ∧ p = ⟨e, e, false⟩ := by simpa using Table.mem_of_get?_ofList hp
    exact hupe
  obtain ⟨hf, hview, -⟩ := compact_of_through nested_tree (nested_through hup hw hh)
    (framed_padding hpad) hsettled.placed hstand
  refine ⟨hsettled, hf, fun hkept => ?_⟩
  have hfalse := hkept (c := "sheet") (b := "A") (e := "e") (p := ⟨e, e, false⟩)
    (by rw [hview.hierarchy]; rfl) (by rw [hview.hierarchy]; rfl)
    (by rw [hview.placements]; exact nested_vertex e) (by rw [hview.boxes]; exact nested_outer ..)
  cases hmeets.symm.trans hfalse

end

/-- The inner area sticks out of the outer one by as much as the check lets pass, and the vertex
stands against the outer one. -/
noncomputable def leaning : Drawing ℝ :=
  nested 0 ⟨1, 0, 3 / 2, 1⟩ ⟨1 - Scalar.epsilon, 0, 3 / 2, 1⟩ ⟨0, 0, 3 / 2, 1⟩ ⟨0, 0, 1, 1⟩

theorem leaning_grows : Settled leaning ∧ leaning.compact.failure = none ∧
    ¬ Clear leaning.compact.state := by
  refine nested_grows ?outer ?inner ?vertex ?clear le_rfl ?_ ?_ ?_ ?_ ?meets
  case outer =>
    rw [Rect.deflate_zero (by constructor <;> norm_num)]
    exact Rect.Within.contains (by constructor <;> norm_num)
  case inner =>
    rw [Rect.deflate_zero (by constructor <;> norm_num), Rect.contains_iff]
    norm_num [Scalar.epsilon]
  case vertex =>
    rw [Rect.deflate_zero (by constructor <;> norm_num)]
    constructor <;> norm_num
  case clear =>
    rw [← Bool.not_eq_true, Rect.intersects_iff]
    norm_num
  case meets =>
    rw [Rect.inflate_zero, Rect.intersects_iff]
    norm_num [Scalar.epsilon]
  all_goals first
    | constructor <;> norm_num [Scalar.epsilon]
    | norm_num [Rect.width_eq, Rect.height_eq, Scalar.epsilon]

/-- The outer area has no room for its padding, and the vertex stands against it. -/
noncomputable def cramped : Drawing ℝ :=
  nested 1 ⟨2, 2, 3, 3⟩ ⟨5 / 2, 5 / 2, 5 / 2, 5 / 2⟩ ⟨0, 0, 6, 6⟩ ⟨3, 2, 4, 3⟩

theorem cramped_grows : Settled cramped ∧ cramped.compact.failure = none ∧
    ¬ Clear cramped.compact.state := by
  refine nested_grows ?outer ?inner ?vertex ?clear zero_le_one ?_ ?_ ?_ ?_ ?meets
  case outer =>
    rw [Rect.deflate_of_room (by norm_num [Rect.width_eq]) (by norm_num [Rect.height_eq])]
    exact Rect.Within.contains (by constructor <;> norm_num)
  case inner =>
    -- the interior is a point
    rw [Rect.contains_iff]
    norm_num [Rect.deflate, Rect.width_eq, Rect.height_eq, Scalar.epsilon]
  case vertex =>
    rw [Rect.deflate_of_room (by norm_num [Rect.width_eq]) (by norm_num [Rect.height_eq])]
    constructor <;> norm_num
  case clear =>
    rw [← Bool.not_eq_true, Rect.intersects_iff]
    norm_num
  case meets =>
    rw [Rect.inflate_eq, Rect.intersects_iff]
    norm_num
  all_goals first
    | constructor <;> norm_num
    | norm_num [Rect.width_eq, Rect.height_eq]

/-! ## An area tucked into another one -/

/-- Two areas and a vertex on a sheet; one of the areas has an area and a vertex, the other one only
a vertex. -/
def tuckedDiagram : Diagram :=
  .build "sheet" [.area "A" "sheet", .area "B" "sheet", .area "C" "B", .vertex "sheet" "e" none,
    .vertex "A" "p" none, .vertex "B" "q" none, .vertex "C" "r" none]

def tuckedTree : Hierarchy where
  root := "sheet"
  containers := .ofList [("A", ⟨"A", some "sheet", [], ["p"], 1⟩),
    ("B", ⟨"B", some "sheet", ["C"], ["q"], 1⟩), ("C", ⟨"C", some "B", [], ["r"], 2⟩),
    ("sheet", ⟨"sheet", none, ["A", "B"], ["e"], 0⟩)]
  owners := .ofList [("e", "sheet"), ("p", "A"), ("q", "B"), ("r", "C")]

theorem extract_tucked : Hierarchy.extract tuckedDiagram = .ok tuckedTree := rfl

theorem tucked_owner {e c : String} (ho : tuckedTree.owners.get? e = some c) :
    e = "e" ∧ c = "sheet" ∨ e = "p" ∧ c = "A" ∨ e = "q" ∧ c = "B" ∨ e = "r" ∧ c = "C" := by
  simpa using Table.mem_of_get?_ofList ho

theorem tucked_parent {c p : String} (hp : tuckedTree.parent? c = some p) :
    c = "A" ∧ p = "sheet" ∨ c = "B" ∧ p = "sheet" ∨ c = "C" ∧ p = "B" := by
  obtain ⟨n, hn, hp⟩ := Option.bind_eq_some_iff.1 hp
  have hmem := Table.mem_of_get?_ofList hn
  simp only [List.mem_cons, List.not_mem_nil, or_false, Prod.mk.injEq] at hmem
  rcases hmem with ⟨rfl, rfl⟩ | ⟨rfl, rfl⟩ | ⟨rfl, rfl⟩ | ⟨rfl, rfl⟩ <;> simp_all

section
variable {pad m : ℝ} {boxes : Boxes ℝ} {placements : Placements ℝ} {a b c sheet : Rect ℝ}
  {e p q r : Placement ℝ} (hA : boxes.get? "A" = some a) (hB : boxes.get? "B" = some b)
  (hC : boxes.get? "C" = some c) (he : placements.get? "e" = some e)
  (hq : placements.get? "q" = some q)
include hA hB hC he hq

/-- The vertex on the sheet and that in `B` have areas beside them. -/
theorem tuckedTree_clearBy (hae : (a.inflate m m).intersects e.footprint = false)
    (hbe : (b.inflate m m).intersects e.footprint = false)
    (hcq : (c.inflate m m).intersects q.footprint = false) :
    ClearBy m (framed pad tuckedDiagram tuckedTree boxes placements) := by
  intro x y v pl box ho hpar hpl hb
  rcases tucked_parent hpar with ⟨rfl, rfl⟩ | ⟨rfl, rfl⟩ | ⟨rfl, rfl⟩ <;>
    rcases tucked_owner ho with ⟨rfl, h⟩ | ⟨rfl, h⟩ | ⟨rfl, h⟩ | ⟨rfl, h⟩
  all_goals first
    | exact absurd h (by decide)
    | skip
  · cases hb.symm.trans hA
    cases hpl.symm.trans he
    exact hae
  · cases hb.symm.trans hB
    cases hpl.symm.trans he
    exact hbe
  · cases hb.symm.trans hC
    cases hpl.symm.trans hq
    exact hcq

/-- Boxes and vertices in one another, with the two areas on the sheet apart or in one another. -/
theorem tuckedTree_settled (hsheet : boxes.get? "sheet" = some sheet)
    (hp : placements.get? "p" = some p) (hr : placements.get? "r" = some r)
    (ha : a.Within (sheet.deflate pad pad)) (hb : b.Within (sheet.deflate pad pad))
    (hc : c.Within (b.deflate pad pad)) (hab : Containment.partiallyOverlap boxes "A" "B" = false)
    (hein : e.footprint.Within (sheet.deflate pad pad))
    (hpin : p.footprint.Within (a.deflate pad pad))
    (hqin : q.footprint.Within (b.deflate pad pad))
    (hrin : r.footprint.Within (c.deflate pad pad))
    (hclear : Clear (framed pad tuckedDiagram tuckedTree boxes placements)) :
    Settled (framed pad tuckedDiagram tuckedTree boxes placements) := by
  refine framed_settled (Hierarchy.extract_treeOf extract_tucked).toIsTree (fun {id} hid => ?boxed)
    (fun {x y xbox ybox} hpar hx hy => ?nested) (fun {x y z} hy hz hne => ?apart)
    (fun {x v box} ho hx => ?elements) hclear
  case boxed =>
    have hmem := Table.contains_ofList_iff.1 hid
    simp only [List.map_cons, List.map_nil, List.mem_cons, List.not_mem_nil, or_false] at hmem
    rcases hmem with rfl | rfl | rfl | rfl <;> exact ⟨_, ‹_›⟩
  case nested =>
    refine Rect.Within.contains ?_
    rcases tucked_parent hpar with ⟨rfl, rfl⟩ | ⟨rfl, rfl⟩ | ⟨rfl, rfl⟩
    · cases hx.symm.trans hsheet
      cases hy.symm.trans hA
      exact ha
    · cases hx.symm.trans hsheet
      cases hy.symm.trans hB
      exact hb
    · cases hx.symm.trans hB
      cases hy.symm.trans hC
      exact hc
  case apart =>
    rcases tucked_parent hy with ⟨rfl, rfl⟩ | ⟨rfl, rfl⟩ | ⟨rfl, rfl⟩ <;>
      rcases tucked_parent hz with ⟨rfl, h⟩ | ⟨rfl, h⟩ | ⟨rfl, h⟩
    all_goals first
      | exact absurd rfl hne
      | exact absurd h (by decide)
      | exact hab
      | exact (Containment.partiallyOverlap_comm ..).trans hab
  case elements =>
    rcases tucked_owner ho with ⟨rfl, rfl⟩ | ⟨rfl, rfl⟩ | ⟨rfl, rfl⟩ | ⟨rfl, rfl⟩
    · cases hx.symm.trans hsheet
      exact ⟨e, he, hein⟩
    · cases hx.symm.trans hA
      exact ⟨p, hp, hpin⟩
    · cases hx.symm.trans hB
      exact ⟨q, hq, hqin⟩
    · cases hx.symm.trans hC
      exact ⟨r, hr, hrin⟩

end

/-- `B` lies in a corner of `A` and fits around what is in it. -/
noncomputable def tuckedBoxes : Boxes ℝ :=
  .ofList [("A", ⟨0, 0, 20, 20⟩), ("B", ⟨6, 6, 20, 18⟩), ("C", ⟨12, 12, 20, 18⟩),
    ("sheet", ⟨0, 0, 24, 20⟩)]

/-- The vertex of `A` is small and in the other corner; the one on the sheet stands beside `A`. -/
noncomputable def tuckedPlacements : Placements ℝ :=
  .ofList [("e", ⟨⟨21, 0, 24, 20⟩, ⟨21, 0, 24, 20⟩, false⟩),
    ("p", ⟨⟨0, 0, 8, 8⟩, ⟨0, 0, 8, 8⟩, false⟩), ("q", ⟨⟨6, 6, 10, 10⟩, ⟨6, 6, 10, 10⟩, false⟩),
    ("r", ⟨⟨12, 12, 20, 18⟩, ⟨12, 12, 20, 18⟩, false⟩)]

noncomputable def tucked : Drawing ℝ :=
  unpadded tuckedDiagram tuckedTree tuckedBoxes tuckedPlacements

theorem tucked_tree : tucked.hierarchy.IsTree := (Hierarchy.extract_treeOf extract_tucked).toIsTree

theorem tucked_upright {id : String} {box : Rect ℝ} (hb : tucked.boxes.get? id = some box) :
    box.Upright := by
  have hmem := Table.mem_of_get?_ofList hb
  simp only [List.mem_cons, List.not_mem_nil, or_false, Prod.mk.injEq] at hmem
  rcases hmem with ⟨-, rfl⟩ | ⟨-, rfl⟩ | ⟨-, rfl⟩ | ⟨-, rfl⟩ <;> constructor <;> norm_num

theorem tucked_standing : Standing tucked := fun {e p} hp => by
  have hmem := Table.mem_of_get?_ofList hp
  simp only [List.mem_cons, List.not_mem_nil, or_false, Prod.mk.injEq] at hmem
  rcases hmem with ⟨-, rfl⟩ | ⟨-, rfl⟩ | ⟨-, rfl⟩ | ⟨-, rfl⟩ <;> constructor <;> norm_num

/-- The elements are half a unit clear of the child containers, and more. -/
theorem tucked_clearBy {m : ℝ} (hm : m ≤ 1 / 2) : ClearBy m tucked := by
  refine tuckedTree_clearBy rfl rfl rfl rfl rfl ?_ ?_ ?_
  all_goals
    rw [← Bool.not_eq_true, Rect.intersects_iff, Rect.inflate_eq]
    rintro ⟨h₁, h₂, h₃, h₄⟩
    dsimp only at h₁ h₂ h₃ h₄
    linarith

theorem tucked_settled : Settled tucked := by
  refine tuckedTree_settled rfl rfl rfl rfl rfl rfl rfl rfl ?_ ?_ ?_ ?apart ?_ ?_ ?_ ?_
    (ClearBy.clear (tucked_clearBy (by norm_num)))
  case apart =>
    exact (Containment.partiallyOverlap_eq_false_iff (x := ⟨0, 0, 20, 20⟩) (y := ⟨6, 6, 20, 18⟩)
      rfl rfl).2 (.inr (.inl (Rect.Within.contains (by constructor <;> norm_num))))
  all_goals
    rw [Rect.deflate_zero (by constructor <;> norm_num)]
    constructor <;> norm_num

theorem tucked_holding : Holding Scalar.epsilon tucked :=
  tucked_settled.holding (framed_padding le_rfl) tucked_upright tucked_standing

/-- The boxes when the areas are done. -/
noncomputable def tuckedTight : Boxes ℝ :=
  .ofList [("A", ⟨0, 0, 8, 8⟩), ("B", ⟨6, 6, 20, 18⟩), ("C", ⟨12, 12, 20, 18⟩),
    ("sheet", ⟨0, 0, 24, 20⟩)]

noncomputable def tuckedAreas : Drawing ℝ :=
  unpadded tuckedDiagram tuckedTree tuckedTight tuckedPlacements

/-- The areas when `B` has been pushed off `A`. -/
noncomputable def tuckedOff : Drawing ℝ := tuckedAreas.translateSubtree "B" 2 0

theorem tuckedOff_B : tuckedOff.boxes.get? "B" = some ⟨8, 6, 22, 18⟩ := by
  show some (Rect.translate ⟨6, 6, 20, 18⟩ 2 0) = _
  norm_num [Rect.translate_eq]

theorem tucked_areas :
    ["A", "C", "B"].foldlM compactOne ⟨tucked, 0⟩ = .ok ⟨tuckedAreas, 0⟩ := by
  have hA : compactOne ⟨tucked, 0⟩ "A" = .ok ⟨tuckedAreas, 0⟩ :=
    compactOne_unpadded ⟨0, 0, 8, 8⟩ rfl rfl rfl
  have hC : compactOne ⟨tuckedAreas, 0⟩ "C" = .ok ⟨tuckedAreas, 0⟩ :=
    compactOne_unpadded ⟨12, 12, 20, 18⟩ rfl rfl rfl
  have hB : compactOne ⟨tuckedAreas, 0⟩ "B" = .ok ⟨tuckedAreas, 0⟩ := by
    refine compactOne_unpadded ⟨6, 6, 20, 18⟩ rfl rfl ?_
    show some (Rect.union ⟨12, 12, 20, 18⟩ ⟨6, 6, 10, 10⟩) = _
    rw [Rect.union_eq]
    norm_num
  exact Fold.concatM (l := ["A", "C"]) (Fold.concatM (l := ["A"])
    (Fold.concatM (l := []) rfl hA) hC) hB

theorem tucked_overlap : Containment.partiallyOverlap tuckedTight "A" "B" = true := by
  rw [← Bool.not_eq_false, Containment.partiallyOverlap_eq_false_iff (x := ⟨0, 0, 8, 8⟩)
    (y := ⟨6, 6, 20, 18⟩) rfl rfl, ← Bool.not_eq_true, Rect.intersects_iff, Rect.contains_iff,
    Rect.contains_iff]
  norm_num [Scalar.epsilon]

theorem tuckedOff_apart : Containment.partiallyOverlap tuckedOff.boxes "A" "B" = false := by
  refine (Containment.partiallyOverlap_eq_false_iff (x := ⟨0, 0, 8, 8⟩) rfl tuckedOff_B).2
    (.inl ?_)
  rw [← Bool.not_eq_true, Rect.intersects_iff]
  norm_num

/-- One shift gets the areas apart, whatever hooks there are. -/
theorem tucked_separated (hooks : HookTable ℝ) :
    separateChildren ["A", "B"] 1 ⟨{ tuckedAreas with hooks := hooks }, 0⟩ =
      .ok ⟨{ tuckedAreas with hooks := hooks }.translateSubtree "B" 2 0, 1⟩ := by
  have hshift : shiftApart tuckedAreas.unitGap ⟨0, 0, 8, 8⟩ ⟨6, 6, 20, 18⟩ = ((2, 0) : ℝ × ℝ) := by
    rw [tuckedAreas, unpadded, framed_unitGap]
    norm_num [shiftApart, Rect.overlapExtent]
  have hround : (pairsOf ["A", "B"]).foldl shiftPair ⟨{ tuckedAreas with hooks := hooks }, 0⟩ =
      ⟨{ tuckedAreas with hooks := hooks }.translateSubtree "B" 2 0, 1⟩ :=
    shiftPair_of_overlap (x := ⟨0, 0, 8, 8⟩) (y := ⟨6, 6, 20, 18⟩) rfl rfl tucked_overlap hshift
  rw [separateChildren, hround]
  refine separateChildren_of_apart (fun q hq => ?_) 0
  obtain rfl : q = ("A", "B") := List.mem_singleton.1 hq
  exact tuckedOff_apart

/-- Compaction pushes `B` off `A`, which shrinks away from around it, and onto the vertex. -/
theorem tucked_succeeds : tucked.compact.failure = none ∧
    tucked.compact.state.metrics.compactionShifts = 1 ∧ ¬ Clear tucked.compact.state := by
  have hsheet : compactOne ⟨tuckedAreas, 0⟩ "sheet" = .ok ⟨tuckedOff.setBox "sheet"
      (tuckedOff.tightBox ⟨"sheet", none, ["A", "B"], ["e"], 0⟩), 1⟩ := by
    have hoff : separateChildren ["A", "B"] 1 ⟨tuckedAreas, 0⟩ = .ok ⟨tuckedOff, 1⟩ :=
      tucked_separated tuckedAreas.hooks
    show (separateChildren ["A", "B"] 1 ⟨tuckedAreas, 0⟩ >>= _) = _
    rw [hoff]
    rfl
  obtain ⟨hf, hview, hshifts, -⟩ := compact_of_through tucked_tree
    (Fold.concatM (l := ["A", "C", "B"]) tucked_areas hsheet) tucked_holding.padding
    tucked_settled.placed tucked_standing
  rw [setBox_known rfl] at hview
  have htree : tucked.compact.state.hierarchy = tuckedTree := hview.hierarchy
  have hB : tucked.compact.state.boxes.get? "B" = some ⟨8, 6, 22, 18⟩ := by
    rw [hview.boxes]
    exact (Table.get?_insert_ne _ _ (by decide)).trans tuckedOff_B
  have he : tucked.compact.state.placements.get? "e" =
      some ⟨⟨21, 0, 24, 20⟩, ⟨21, 0, 24, 20⟩, false⟩ := by
    rw [hview.placements]
    rfl
  refine ⟨hf, hshifts, fun hclear => ?_⟩
  have hfalse := hclear (c := "sheet") (b := "B") (e := "e") (by rw [htree]; rfl)
    (by rw [htree]; rfl) he hB
  rw [← Bool.not_eq_true, Rect.intersects_iff] at hfalse
  norm_num at hfalse

/-- **Compaction does not keep every valid drawing valid**: it gives up on the wedge between two
areas, lets the box around the leaning area and that of the area without room grow over the edge of
a vertex, and moves the area that was tucked into another one onto a vertex. -/
theorem valid_not_kept :
    (Hierarchy.extract wedgedDiagram = .ok wedged.hierarchy ∧ Settled wedged ∧
      wedged.compact.failure = some (.containment (.unseparated "A" "C"))) ∧
    (Hierarchy.extract nestedDiagram = .ok leaning.hierarchy ∧ Settled leaning ∧
      leaning.compact.failure = none ∧ ¬ Clear leaning.compact.state) ∧
    (Hierarchy.extract nestedDiagram = .ok cramped.hierarchy ∧ Settled cramped ∧
      cramped.compact.failure = none ∧ ¬ Clear cramped.compact.state) ∧
    (Hierarchy.extract tuckedDiagram = .ok tucked.hierarchy ∧ Settled tucked ∧
      tucked.compact.failure = none ∧ ¬ Clear tucked.compact.state) :=
  have ⟨hleaning, hleans⟩ := leaning_grows
  have ⟨hcramped, hgrows⟩ := cramped_grows
  have ⟨htucked, _, hmeets⟩ := tucked_succeeds
  ⟨⟨extract_wedged, wedged_settled, wedged_gives_up⟩,
    ⟨extract_nested, hleaning, hleans⟩,
    ⟨extract_nested, hcramped, hgrows⟩,
    ⟨extract_tucked, tucked_settled, htucked, hmeets⟩⟩

/-! ## Areas beside each other -/

/-- The areas stand side by side, with a padding and room around what is in them. -/
noncomputable def parted : Drawing ℝ :=
  framed 1 tuckedDiagram tuckedTree
    (.ofList [("A", ⟨1, 1, 6, 18⟩), ("B", ⟨8, 1, 21, 18⟩), ("C", ⟨10, 6, 20, 12⟩),
      ("sheet", ⟨0, 0, 24, 24⟩)])
    (.ofList [("e", ⟨⟨2, 20, 12, 21⟩, ⟨2, 20, 12, 21⟩, false⟩),
      ("p", ⟨⟨2, 2, 4, 5⟩, ⟨2, 2, 4, 5⟩, false⟩),
      ("q", ⟨⟨10, 2, 12, 4⟩, ⟨10, 2, 12, 4⟩, false⟩),
      ("r", ⟨⟨12, 8, 18, 10⟩, ⟨12, 8, 18, 10⟩, false⟩)])

theorem parted_box {id : String} {box : Rect ℝ} (hb : parted.boxes.get? id = some box) :
    box.Upright ∧ 2 ≤ box.width ∧ 2 ≤ box.height := by
  have hmem := Table.mem_of_get?_ofList hb
  simp only [List.mem_cons, List.not_mem_nil, or_false, Prod.mk.injEq] at hmem
  rcases hmem with ⟨-, rfl⟩ | ⟨-, rfl⟩ | ⟨-, rfl⟩ | ⟨-, rfl⟩ <;>
    exact ⟨by constructor <;> norm_num, by norm_num [Rect.width_eq],
      by norm_num [Rect.height_eq]⟩

theorem parted_standing : Standing parted := fun {e p} hp => by
  have hmem := Table.mem_of_get?_ofList hp
  simp only [List.mem_cons, List.not_mem_nil, or_false, Prod.mk.injEq] at hmem
  rcases hmem with ⟨-, rfl⟩ | ⟨-, rfl⟩ | ⟨-, rfl⟩ | ⟨-, rfl⟩ <;> constructor <;> norm_num

theorem parted_clearBy {m : ℝ} (hm : m ≤ 1 / 2) : ClearBy m parted := by
  refine tuckedTree_clearBy rfl rfl rfl rfl rfl ?_ ?_ ?_
  all_goals
    rw [← Bool.not_eq_true, Rect.intersects_iff, Rect.inflate_eq]
    rintro ⟨h₁, h₂, h₃, h₄⟩
    dsimp only at h₁ h₂ h₃ h₄
    linarith

theorem parted_settled : Settled parted := by
  refine tuckedTree_settled rfl rfl rfl rfl rfl rfl rfl rfl ?_ ?_ ?_ ?apart ?_ ?_ ?_ ?_
    (ClearBy.clear (parted_clearBy (by norm_num)))
  case apart =>
    refine (Containment.partiallyOverlap_eq_false_iff (x := ⟨1, 1, 6, 18⟩)
      (y := ⟨8, 1, 21, 18⟩) rfl rfl).2 (.inl ?_)
    rw [← Bool.not_eq_true, Rect.intersects_iff]
    norm_num
  all_goals
    rw [Rect.deflate_of_room (by norm_num [Rect.width_eq]) (by norm_num [Rect.height_eq])]
    constructor <;> norm_num

theorem parted_holding : Holding Scalar.epsilon parted :=
  parted_settled.holding (framed_padding zero_le_one) (fun hb => (parted_box hb).1) parted_standing

theorem parted_roomyIn (c : String) : RoomyIn parted c := fun {_ box} _ hb _ => by
  rw [parted, framed_unitPadding, mul_one]
  exact (parted_box hb).2

/-- The gap between the areas takes a unit on either side. -/
theorem parted_apartBy {m : ℝ} (hm : m ≤ 1) (c : String) : ApartBy m parted c := by
  have hAB : (Rect.inflate ⟨1, 1, 6, 18⟩ m m).intersects (.inflate ⟨8, 1, 21, 18⟩ m m) =
      false := by
    rw [← Bool.not_eq_true, Rect.intersects_iff, Rect.inflate_eq, Rect.inflate_eq]
    rintro ⟨h₁, h₂, h₃, h₄⟩
    dsimp only at h₁ h₂ h₃ h₄
    linarith
  intro p a b abox bbox _ ha hb hne hab hbb
  rcases tucked_parent ha with ⟨rfl, rfl⟩ | ⟨rfl, rfl⟩ | ⟨rfl, rfl⟩ <;>
    rcases tucked_parent hb with ⟨rfl, h⟩ | ⟨rfl, h⟩ | ⟨rfl, h⟩
  all_goals first
    | exact absurd rfl hne
    | exact absurd h (by decide)
    | cases hab
      cases hbb
      first
        | exact hAB
        | exact (Rect.intersects_comm _ _).trans hAB

theorem tucked_apart_B (m : ℝ) : ApartBy m tucked "B" := fun {p a b abox bbox} hp ha hb hne => by
  rcases tucked_parent ha with ⟨-, rfl⟩ | ⟨-, rfl⟩ | ⟨rfl, rfl⟩
  · exact absurd hp (tucked_tree.not_encloses_parent rfl)
  · exact absurd hp (tucked_tree.not_encloses_parent rfl)
  · rcases tucked_parent hb with ⟨-, h⟩ | ⟨-, h⟩ | ⟨rfl, -⟩
    · exact absurd h (by decide)
    · exact absurd h (by decide)
    · exact absurd rfl hne

/-- Areas beside each other stay clear of the vertices, and so does what is in an area that is
pushed: it takes its own area and its vertex along. -/
theorem tucked_stays_clear :
    (Holding Scalar.epsilon parted ∧ AllPlaced parted ∧
      ClearBy (margin Scalar.epsilon parted) parted ∧ RoomyIn parted parted.hierarchy.root ∧
      ApartBy (margin Scalar.epsilon parted) parted parted.hierarchy.root ∧
      parted.compact.failure = none ∧ Clear parted.compact.state) ∧
    Holding Scalar.epsilon tucked ∧ AllPlaced tucked ∧
    ClearBy (margin Scalar.epsilon tucked) tucked ∧
    RoomyIn tucked "B" ∧ ApartBy (margin Scalar.epsilon tucked) tucked "B" ∧
    tucked.compact.state.metrics.compactionShifts = 1 ∧
    tucked.compact.failure = none ∧ ClearIn tucked.compact.state "B" := by
  have hmargin : (tuckedTree.size : ℝ) * Scalar.epsilon ≤ 1 / 2 := by
    rw [show tuckedTree.size = 4 from rfl]
    norm_num [Scalar.epsilon]
  have hclear : ClearBy (margin Scalar.epsilon tucked) tucked := tucked_clearBy hmargin
  have hclear' : ClearBy (margin Scalar.epsilon parted) parted := parted_clearBy hmargin
  obtain ⟨hf, hone, -⟩ := tucked_succeeds
  obtain ⟨-, -, hkept⟩ := compact_keeps_clear tucked_holding tucked_settled.placed hclear
  obtain ⟨hvalid, -⟩ := compact_keeps_clear parted_holding parted_settled.placed hclear'
  have hroomy : RoomyIn tucked "B" := unpadded_roomyIn tucked_upright "B"
  have hapart : ApartBy (margin Scalar.epsilon parted) parted parted.hierarchy.root :=
    parted_apartBy (hmargin.trans (by norm_num)) _
  exact ⟨⟨parted_holding, parted_settled.placed, hclear', parted_roomyIn _, hapart,
      hvalid (parted_roomyIn _) hapart⟩,
    tucked_holding, tucked_settled.placed, hclear, hroomy, tucked_apart_B _, hone, hf,
    hkept hf hroomy (.inl (tucked_apart_B _))⟩

end NestedLayout.Drawing
