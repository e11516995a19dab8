import NestedLayout.Proofs.Drawing.Overlaps
import NestedLayout.Proofs.Drawing.Seated
import NestedLayout.Proofs.Separation

/-!
# Separation does no harm

Wherever a pass pushes an element, it is brought back into the room of its container, and it stays
where it is when the place that is found for it meets a child container. So an element that has a
good place has one afterwards, even if others that had none have pushed it.

* `Sheltered`: footprints in good places.
* `Sheltered.clamp`, `followPush_keeps_sheltered`: the step for one element.
* `separateIn_of_apart`: where no elements overlap, none of them is moved.
* `separate_harmless`: what this comes to for a drawing.
-/

set_option autoImplicit false

namespace NestedLayout.Drawing

/-! ## Good places -/

/-- A footprint lies in the room of a container, up to a tolerance, and meets none of the child
containers. -/
structure Sheltered (d : Drawing ℝ) (tol : ℝ) (c : String) (r : Rect ℝ) : Prop where
  room : ∃ a, d.ledger.allotments.get? c = some a ∧ r.Within (a.available.inflate tol tol)
  clear : ∀ {b box}, d.hierarchy.parent? b = some c → d.boxes.get? b = some box →
    box.intersects r = false

section
variable {d d' : Drawing ℝ} {tol : ℝ} {c e : String} {r : Rect ℝ}

/-- Good places depend on the rooms and the boxes only. -/
theorem Sheltered.of_ground (hg : SameGround d d') (h : d.Sheltered tol c r) :
    d'.Sheltered tol c r := by
  obtain ⟨a, ha, hwithin⟩ := h.room
  obtain ⟨a', ha', hroom⟩ := hg.allotment ha
  refine ⟨⟨a', ha', hroom ▸ hwithin⟩, fun {b box} hpar hbox => ?_⟩
  rw [hg.hierarchy] at hpar
  rw [hg.boxes] at hbox
  exact h.clear hpar hbox

/-- A box of the size of a footprint in a good place has one itself when it has been brought back
into the room and is clear of the child containers there. -/
theorem Sheltered.clamp {room s : Rect ℝ} (h : d.Sheltered tol c r) (htol : 0 ≤ tol)
    (t : d.hierarchy.IsTree)
    (hroom : (d.ledger.allotments.get? c).map (·.available) = some room) (hsize : s.SameSize r)
    (hclear : ∀ zone ∈ SpaceLedger.childZones d.hierarchy d.boxes c,
      zone.intersects (s.clampWithin room) = false) : d.Sheltered tol c (s.clampWithin room) := by
  obtain ⟨a, ha, hwithin⟩ := h.room
  rw [ha, Option.map_some, Option.some.injEq] at hroom
  subst hroom
  refine ⟨⟨a, ha, Rect.clampWithin_within_inflate htol ?_ ?_⟩, fun {b box} hpar hbox =>
    hclear box ((mem_childZones t).2 ⟨b, hpar, hbox⟩)⟩
  · rw [hsize.width, ← Rect.inflate_width _ tol tol]
    exact hwithin.width_le
  · rw [hsize.height, ← Rect.inflate_height _ tol tol]
    exact hwithin.height_le

/-- **An element keeps a good place** when an element follows an item of its size. -/
theorem followPush_keeps_sheltered {item : Separation.Item ℝ} {room : Rect ℝ} (htol : 0 ≤ tol)
    (t : d.hierarchy.IsTree) (howner : d.hierarchy.owners.get? item.id = some c)
    (hroom : (d.ledger.allotments.get? c).map (·.available) = some room) (hsize : Sized d item)
    {c' : String} (ho : d.hierarchy.owners.get? e = some c')
    (h : ∃ p, d.placements.get? e = some p ∧ d.Sheltered tol c' p.footprint) :
    let d' := followPush c room (SpaceLedger.childZones d.hierarchy d.boxes c) d item
    ∃ p, d'.placements.get? e = some p ∧ d'.Sheltered tol c' p.footprint := by
  intro d'
  obtain ⟨p, hp, hshelter⟩ := h
  have hg : SameGround d d' := followPush_ground _ _ _ _ _
  rcases followPush_eq_or_clamped c room (SpaceLedger.childZones d.hierarchy d.boxes c) hsize with
    he | ⟨q, dx, dy, hq, hafter, hfoot, hclear⟩
  · exact ⟨p, by rw [show d' = d from he, hp], hshelter.of_ground hg⟩
  · by_cases he : e = item.id
    · subst he
      obtain rfl := Option.some.inj (ho.symm.trans howner)
      obtain rfl := Option.some.inj (hp.symm.trans hq)
      refine ⟨p.translate dx dy, by rw [hafter, Table.get?_insert_self], Sheltered.of_ground hg ?_⟩
      show d.Sheltered tol c' (p.footprint.translate dx dy)
      rw [hfoot] at hclear ⊢
      exact hshelter.clamp htol t hroom (hsize p hp) hclear
    · exact ⟨p, by rw [hafter, Table.get?_insert_ne _ _ he, hp], hshelter.of_ground hg⟩

/-- **An element in a good place is in a good place after separation.** -/
theorem separate_keeps_sheltered (t : d.hierarchy.IsTree) (htol : 0 ≤ tol)
    (ho : d.hierarchy.owners.get? e = some c) {p : Placement ℝ}
    (hp : d.placements.get? e = some p) (h : d.Sheltered tol c p.footprint) :
    ∃ p', d.separate.state.placements.get? e = some p' ∧
      d.separate.state.Sheltered tol c p'.footprint := by
  refine separate_steps (I := fun d' => ∃ p', d'.placements.get? e = some p' ∧
    d'.Sheltered tol c p'.footprint) sized_tracked t
    (fun ⟨p', hp', h'⟩ => ⟨p', hp', h'.room, h'.clear⟩)
    (fun {d' c' room item} hg howner hroom hsize h' => ?_) ⟨p, hp, h⟩
  exact followPush_keeps_sheltered htol (hg.hierarchy ▸ t) howner hroom hsize
    (hg.hierarchy ▸ ho) h'

/-! ## Moves -/

/-- **Every placement is moved as a whole**, and none comes or goes. -/
theorem separate_moves (t : d.hierarchy.IsTree) (e : String) :
    ∃ dx dy, d.separate.state.placements.get? e =
      (d.placements.get? e).map fun p => p.translate dx dy := by
  refine separate_follows (I := fun d' => ∃ dx dy, d'.placements.get? e =
    (d.placements.get? e).map fun p => p.translate dx dy) t id
    (fun {d' c room zones item} _ _ ⟨x, y, hd⟩ => ?_) ⟨0, 0, ?start⟩
  case start =>
    cases d.placements.get? e with
    | none => rfl
    | some p => simp only [Option.map_some, Placement.translate, Rect.translate_zero]
  rcases followPush_eq_or_shift c room zones d' item with he | ⟨q, dx, dy, hq, he⟩
  · exact ⟨x, y, by rw [he, hd]⟩
  · rw [he]
    by_cases hid : e = item.id
    · subst hid
      refine ⟨x + dx, y + dy, ?_⟩
      rw [hd] at hq
      obtain ⟨p, hp, rfl⟩ := Option.map_eq_some_iff.1 hq
      rw [Table.get?_insert_self, hp]
      simp only [Option.map_some, Placement.translate, Rect.translate_translate]
    · exact ⟨x, y, (Table.get?_insert_ne _ _ hid).trans hd⟩

end

/-! ## Drawings without overlaps -/

/-- No two elements of one container overlap. -/
def ElementsApart (d : Drawing ℝ) : Prop :=
  ∀ {c a b p q}, a ≠ b → d.hierarchy.owners.get? a = some c → d.hierarchy.owners.get? b = some c →
    d.placements.get? a = some p → d.placements.get? b = some q →
    p.footprint.intersects q.footprint = false

section
variable {d : Drawing ℝ} {c : String}

/-- An element that is to follow an item in its own place stays there. -/
theorem followPush_of_same {room : Rect ℝ} {zones : List (Rect ℝ)} {item : Separation.Item ℝ}
    (h : ∀ p, d.placements.get? item.id = some p → p.footprint = item.bounds) :
    followPush c room zones d item = d := by
  unfold followPush
  split
  · rfl
  · rename_i p hp
    rw [if_pos]
    simp [h p hp, Rect.sameAs, Scalar.same]

theorem separationItems_apart (t : d.hierarchy.IsTree) (h : d.ElementsApart) (c : String) :
    (d.separationItems c).Pairwise fun a b => a.bounds.intersects b.bounds = false := by
  refine List.pairwise_filterMap.2 ((t.nodupElements c).imp_of_mem
    fun {a b} ha hb hne x hx y hy => ?_)
  obtain ⟨p, hp, rfl⟩ := Option.map_eq_some_iff.1 hx
  obtain ⟨q, hq, rfl⟩ := Option.map_eq_some_iff.1 hy
  exact h hne (t.mem_elements.1 ha) (t.mem_elements.1 hb) hp hq

/-- The items of a container are the footprints of its elements. -/
theorem footprintsOf_separationItems (d : Drawing ℝ) (c : String) :
    d.footprintsOf ((d.separationItems c).map (·.id)) =
      (d.separationItems c).map fun item => (item.id, item.bounds) := by
  rw [footprintsOf, separationItems, List.filterMap_map, ← List.filterMap_eq_map]
  refine List.filterMap_congr fun item hi => ?_
  obtain ⟨e, p, -, hp, rfl⟩ := mem_separationItems.1 hi
  simp [hp]

/-- **A container without overlaps** is left as it is, with nothing to note. -/
theorem separateIn_of_apart (t : d.hierarchy.IsTree) (h : d.ElementsApart) (notes : List Note) :
    separateIn ⟨d, notes⟩ c = ⟨d, notes⟩ := by
  have hapart := separationItems_apart t h c
  have hstays : ∀ room zones,
      (d.separationItems c).foldl (followPush c room zones) d = d := fun room zones => by
    refine Fold.stays fun item hi => followPush_of_same fun p hp => ?_
    obtain ⟨e, q, -, hq, rfl⟩ := mem_separationItems.1 hi
    rw [Option.some.inj (hp.symm.trans hq)]
  have hpairs : d.overlappingPairs ((d.separationItems c).map (·.id)) = [] := by
    rw [overlappingPairs_eq, footprintsOf_separationItems]
    exact relatedPairs_of_pairwise (List.pairwise_map.2 hapart)
  unfold separateIn
  dsimp only
  split
  · rfl
  · split
    · rfl
    · rw [Separation.pass_of_apart hapart, hstays]
      show Untangling.mk d (notes ++ (d.overlappingPairs _).map overlapNote) = _
      rw [hpairs, List.map_nil, List.append_nil]

theorem separate_of_apart (t : d.hierarchy.IsTree) (h : d.ElementsApart) :
    d.separate = ⟨{ d with metrics.remainingOverlaps := 0 }, [], none⟩ := by
  have hstays : d.hierarchy.preOrder.foldl separateIn ⟨d, []⟩ = ⟨d, []⟩ :=
    Fold.stays fun c _ => separateIn_of_apart t h []
  rw [separate, hstays]
  rfl

/-! ## The phase -/

/-- **Separation does no harm.** It never fails and leaves the boxes and the rooms as they are.
Every placement is moved as a whole, its footprint and its body alike. An element in a good place,
up to any tolerance, is in one afterwards. And where no two elements of one container overlap
nothing is moved, nothing is counted and there is nothing to note. -/
theorem separate_harmless (t : d.hierarchy.IsTree) :
    d.separate.failure = none ∧ SameGround d d.separate.state ∧
    (∀ e, ∃ dx dy, d.separate.state.placements.get? e = (d.placements.get? e).map fun p =>
      { p with footprint := p.footprint.translate dx dy, body := p.body.translate dx dy }) ∧
    (∀ {c e p tol}, 0 ≤ tol → d.hierarchy.owners.get? e = some c →
      d.placements.get? e = some p → d.Sheltered tol c p.footprint →
        ∃ p', d.separate.state.placements.get? e = some p' ∧
          d.separate.state.Sheltered tol c p'.footprint) ∧
    (d.ElementsApart → d.separate = ⟨{ d with metrics.remainingOverlaps := 0 }, [], none⟩) :=
  ⟨rfl, separate_ground d, separate_moves t, fun htol ho hp h =>
    separate_keeps_sheltered t htol ho hp h, separate_of_apart t⟩

end

/-! ## Two vertices beside an area -/

def besideDiagram : Diagram :=
  .build "sheet" [.area "A" "sheet", .vertex "sheet" "p" none, .vertex "sheet" "q" none]

def besideTree : Hierarchy where
  root := "sheet"
  containers := .ofList [("A", ⟨"A", some "sheet", [], [], 1⟩),
    ("sheet", ⟨"sheet", none, ["A"], ["p", "q"], 0⟩)]
  owners := .ofList [("p", "sheet"), ("q", "sheet")]

theorem extract_beside : Hierarchy.extract besideDiagram = .ok besideTree := rfl

/-- The sheet with vertices in given places, and an area without anything in it. -/
noncomputable def besideRooms (p q : Rect ℝ) : IdTable (Allotment ℝ) :=
  .ofList [("A", ⟨⟨5, 0, 10, 4⟩, ⟨5, 0, 10, 4⟩, [], []⟩),
    ("sheet", ⟨⟨0, 0, 10, 4⟩, ⟨0, 0, 10, 4⟩, [⟨"p", p⟩, ⟨"q", q⟩], []⟩)]

noncomputable def besidePlacements (p q : Rect ℝ) : Placements ℝ :=
  .ofList [("p", ⟨p, p, false⟩), ("q", ⟨q, q, false⟩)]

/-- The area is the right half of the sheet. -/
noncomputable def besideBoxes : Boxes ℝ := .ofList [("A", ⟨5, 0, 10, 4⟩), ("sheet", ⟨0, 0, 10, 4⟩)]

noncomputable def beside (p q : Rect ℝ) : Drawing ℝ :=
  { start besideDiagram (.standard : LayoutSettings ℝ) (1, 1) besideTree [] with
    boxes := besideBoxes
    ledger.allotments := besideRooms p q
    placements := besidePlacements p q }

section
variable {p q : Rect ℝ}

theorem beside_tree : (beside p q).hierarchy.IsTree :=
  (Hierarchy.extract_treeOf extract_beside).toIsTree

theorem beside_owner {e c : String} (ho : besideTree.owners.get? e = some c) :
    (e = "p" ∨ e = "q") ∧ c = "sheet" := by
  have hmem := Table.mem_of_get?_ofList ho
  simp only [List.mem_cons, List.not_mem_nil, or_false, Prod.mk.injEq] at hmem
  rcases hmem with ⟨he, hc⟩ | ⟨he, hc⟩
  · exact ⟨.inl he, hc⟩
  · exact ⟨.inr he, hc⟩

theorem beside_parent {b c : String} (hp : besideTree.parent? b = some c) :
    b = "A" ∧ c = "sheet" := by
  obtain ⟨n, hn, hp⟩ := Option.bind_eq_some_iff.1 hp
  have hmem := Table.mem_of_get?_ofList hn
  simp only [List.mem_cons, List.not_mem_nil, or_false, Prod.mk.injEq] at hmem
  rcases hmem with ⟨rfl, rfl⟩ | ⟨rfl, rfl⟩ <;> simp_all

theorem beside_room : (besideRooms p q).get? "sheet" =
    some ⟨⟨0, 0, 10, 4⟩, ⟨0, 0, 10, 4⟩, [⟨"p", p⟩, ⟨"q", q⟩], []⟩ := by cbv

theorem beside_first : (besidePlacements p q).get? "p" = some ⟨p, p, false⟩ := by cbv

theorem beside_second : (besidePlacements p q).get? "q" = some ⟨q, q, false⟩ := by cbv

/-- A good place is one in the left half of the sheet. -/
theorem beside_sheltered {r : Rect ℝ} (h : r.Within ⟨0, 0, 5, 4⟩) :
    (beside p q).Sheltered 0 "sheet" r where
  room := by
    refine ⟨_, beside_room, ?_⟩
    rw [Rect.inflate_zero]
    exact h.trans (by constructor <;> norm_num)
  clear {b box} hpar hbox := by
    obtain ⟨rfl, -⟩ := beside_parent hpar
    cases hbox
    rw [← Bool.not_eq_true, Rect.intersects_iff]
    rintro ⟨hlt, -⟩
    exact absurd (hlt.trans_le h.right) (lt_irrefl _)

theorem beside_apart (h : p.intersects q = false) : (beside p q).ElementsApart := by
  intro c a b x y hne ha hb hx hy
  rcases beside_owner ha with ⟨rfl | rfl, -⟩ <;> rcases beside_owner hb with ⟨rfl | rfl, -⟩
  · exact absurd rfl hne
  · cases beside_first.symm.trans hx
    cases beside_second.symm.trans hy
    exact h
  · cases beside_second.symm.trans hx
    cases beside_first.symm.trans hy
    rwa [Rect.intersects_comm]
  · exact absurd rfl hne

end

/-- Two vertices that overlap stay in the left half of the sheet, although they are pushed, and two
that are apart are not moved. -/
theorem beside_harmless :
    (beside ⟨0, 0, 2, 2⟩ ⟨1, 0, 3, 2⟩).hierarchy.IsTree ∧
    (⟨0, 0, 2, 2⟩ : Rect ℝ).intersects ⟨1, 0, 3, 2⟩ = true ∧
    (∀ e ∈ ["p", "q"], ∃ p',
      (beside ⟨0, 0, 2, 2⟩ ⟨1, 0, 3, 2⟩).separate.state.placements.get? e = some p' ∧
      (beside ⟨0, 0, 2, 2⟩ ⟨1, 0, 3, 2⟩).separate.state.Sheltered 0 "sheet" p'.footprint) ∧
    (beside ⟨0, 0, 2, 2⟩ ⟨2, 0, 4, 2⟩).separate =
      ⟨{ beside ⟨0, 0, 2, 2⟩ ⟨2, 0, 4, 2⟩ with metrics.remainingOverlaps := 0 }, [], none⟩ := by
  have hwithin : ∀ e ∈ ["p", "q"], ∃ p,
      (beside ⟨0, 0, 2, 2⟩ ⟨1, 0, 3, 2⟩).placements.get? e = some p ∧
      p.footprint.Within ⟨0, 0, 5, 4⟩ := by
    intro e he
    simp only [List.mem_cons, List.not_mem_nil, or_false] at he
    rcases he with rfl | rfl <;> exact ⟨_, rfl, by constructor <;> norm_num⟩
  obtain ⟨-, -, -, hkeeps, -⟩ := separate_harmless (beside_tree (p := ⟨0, 0, 2, 2⟩)
    (q := ⟨1, 0, 3, 2⟩))
  obtain ⟨-, -, -, -, hstays⟩ := separate_harmless (beside_tree (p := ⟨0, 0, 2, 2⟩)
    (q := ⟨2, 0, 4, 2⟩))
  refine ⟨beside_tree, ?_, fun e he => ?_, hstays (beside_apart ?_)⟩
  · rw [Rect.intersects_iff]
    norm_num
  · obtain ⟨p, hp, hw⟩ := hwithin e he
    have ho : (beside ⟨0, 0, 2, 2⟩ ⟨1, 0, 3, 2⟩).hierarchy.owners.get? e = some "sheet" := by
      simp only [List.mem_cons, List.not_mem_nil, or_false] at he
      rcases he with rfl | rfl <;> rfl
    exact hkeeps le_rfl ho hp (beside_sheltered hw)
  · rw [← Bool.not_eq_true, Rect.intersects_iff]
    norm_num

end NestedLayout.Drawing
