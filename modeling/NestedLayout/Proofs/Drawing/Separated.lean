import NestedLayout.Proofs.Drawing.Placed

/-!
# Elements after separation

Separation moves elements one at a time. `Push` says what such a move may do: the footprint keeps
its size, goes into the room of its container when it fits there, and stays clear of the child
containers.

* `pass_keeps`: a pass over items changes nothing but their places.
* `separate_steps`: what every step keeps in which an element follows an item, separation keeps; of
  the item one knows what holds of all items along the way (`Tracked`).
* `separate_follows`, `separate_keeps`: so what every push keeps, separation keeps.
* `separate_allPlaced`, `separate_standing`, `separate_toScale`, `separate_inside`,
  `separate_clear`: so everything that placement has reached stays.
-/

set_option autoImplicit false

namespace NestedLayout

/-! ## Passes -/

namespace Separation

variable {α : Type} [Scalar α] {P : Item α → Prop}
  (hP : ∀ a dx dy, P a → P { a with bounds := a.bounds.translate dx dy })
include hP

theorem push?_keeps {a b a' b' : Item α} (ha : P a) (hb : P b) (h : push? a b = some (a', b')) :
    P a' ∧ P b' := by
  unfold push? at h
  split at h
  · cases h
  · cases h
    exact ⟨hP a _ _ ha, hP b _ _ hb⟩

theorem sweep_keeps {a : Item α} {rest : List (Item α)} (ha : P a) (hrest : ∀ b ∈ rest, P b) :
    P (sweep a rest).item ∧ ∀ b ∈ (sweep a rest).later, P b := by
  fun_induction sweep a rest with
  | case1 => exact ⟨ha, hrest⟩
  | case2 a b rest hn s ih =>
    obtain ⟨hb, hrest⟩ := List.forall_mem_cons.1 hrest
    obtain ⟨hi, hl⟩ := ih ha hrest
    exact ⟨hi, List.forall_mem_cons.2 ⟨hb, hl⟩⟩
  | case3 a b rest a' b' hpush s ih =>
    obtain ⟨hb, hrest⟩ := List.forall_mem_cons.1 hrest
    obtain ⟨ha', hb'⟩ := push?_keeps hP ha hb hpush
    obtain ⟨hi, hl⟩ := ih ha' hrest
    exact ⟨hi, List.forall_mem_cons.2 ⟨hb', hl⟩⟩

/-- **A pass keeps what moves keep.** -/
theorem pass_keeps {items : List (Item α)} (h : ∀ a ∈ items, P a) : ∀ a ∈ (pass items).1, P a := by
  fun_induction pass items with
  | case1 => exact h
  | case2 a rest s later pushes hpass ih =>
    obtain ⟨ha, hrest⟩ := List.forall_mem_cons.1 h
    obtain ⟨hi, hl⟩ := sweep_keeps hP ha hrest
    rw [hpass] at ih
    exact List.forall_mem_cons.2 ⟨hi, ih hl⟩

end Separation

namespace Drawing

open Scalar (epsilon)

/-! ## Following pushes -/

section
variable {α : Type} [Scalar α]

omit [Scalar α] in
/-- The items of a container are its placed elements with their footprints. -/
theorem mem_separationItems {d : Drawing α} {c : String} {item : Separation.Item α} :
    item ∈ d.separationItems c ↔ ∃ e p, e ∈ d.hierarchy.elements c ∧
      d.placements.get? e = some p ∧ item = ⟨e, none, p.footprint⟩ := by
  simp only [separationItems, List.mem_filterMap, Option.map_eq_some_iff]
  refine ⟨?_, ?_⟩
  · rintro ⟨e, he, p, hp, rfl⟩
    exact ⟨e, p, he, hp, rfl⟩
  · rintro ⟨e, p, he, hp, rfl⟩
    exact ⟨e, he, p, hp, rfl⟩

/-- **Following a push** either leaves the drawing alone or shifts the one element, and registers
its new footprint. -/
theorem followPush_eq_or_shift (c : String) (room : Rect α) (zones : List (Rect α)) (d : Drawing α)
    (item : Separation.Item α) :
    followPush c room zones d item = d ∨ ∃ p dx dy, d.placements.get? item.id = some p ∧
      followPush c room zones d item =
        { d with
          placements := d.placements.insert item.id (p.translate dx dy)
          ledger := d.ledger.registerElement c item.id (p.translate dx dy).footprint } := by
  unfold followPush
  split
  · exact .inl rfl
  · rename_i p hp
    split
    · exact .inl rfl
    · dsimp only
      split
      · exact .inl rfl
      · exact .inr ⟨p, _, _, hp, rfl⟩

/-- A property of items that those of a drawing have from the start, and that stays with them when
they are pushed and when elements follow others. -/
structure Tracked (P : Drawing α → Separation.Item α → Prop) : Prop where
  start : ∀ {d : Drawing α} {e : String} {p : Placement α},
    d.placements.get? e = some p → P d ⟨e, none, p.footprint⟩
  pushed : ∀ {d : Drawing α} {item : Separation.Item α} (dx dy : α), P d item →
    P d { item with bounds := item.bounds.translate dx dy }
  followed : ∀ {d : Drawing α} {item : Separation.Item α} (c : String) (room : Rect α)
    (zones : List (Rect α)) (item' : Separation.Item α), P d item →
    P (followPush c room zones d item') item

section
variable {d : Drawing α} {I : Drawing α → Prop} {P : Drawing α → Separation.Item α → Prop}
  (hP : Tracked P) (t : d.hierarchy.IsTree) (book : ∀ {d' m}, I d' → I { d' with metrics := m })
  (follow : ∀ {d' c room item}, SameGround d d' → d'.hierarchy.owners.get? item.id = some c →
    (d'.ledger.allotments.get? c).map (·.available) = some room → P d' item → I d' →
    I (followPush c room (SpaceLedger.childZones d'.hierarchy d'.boxes c) d' item))
include hP t book follow

/-- What is kept where the elements of a container follow items with a tracked property, with the
room and the zones of that container, its separation keeps. -/
theorem separateIn_steps {u : Untangling α} (hg : SameGround d u.drawing) (hu : I u.drawing)
    (c : String) : I (separateIn u c).drawing := by
  unfold separateIn
  dsimp only
  split
  · exact hu
  · split
    · exact hu
    · rename_i a ha
      have hitems : ∀ item ∈ (Separation.pass (u.drawing.separationItems c)).1,
          d.hierarchy.owners.get? item.id = some c ∧ P u.drawing item := by
        refine Separation.pass_keeps (fun item dx dy ⟨ho, hi⟩ => ⟨ho, hP.pushed dx dy hi⟩)
          fun item hi => ?_
        obtain ⟨e, p, he, hp, rfl⟩ := mem_separationItems.1 hi
        rw [hg.hierarchy] at he
        exact ⟨t.mem_elements.1 he, hP.start hp⟩
      refine book (Fold.keeps
        (f := followPush c a.available
          (SpaceLedger.childZones u.drawing.hierarchy u.drawing.boxes c))
        (l := (Separation.pass (u.drawing.separationItems c)).1) (b := u.drawing)
        (fun _ d' => SameGround u.drawing d' ∧ I d' ∧
          ∀ item ∈ (Separation.pass (u.drawing.separationItems c)).1, P d' item)
        ⟨.refl _, hu, fun item hi => (hitems item hi).2⟩
        fun done item rest d' hs ⟨hg', hi', hrest⟩ => ?_).2.1
      have hmem : item ∈ (Separation.pass (u.drawing.separationItems c)).1 :=
        hs ▸ List.mem_append_right _ (.head _)
      have hroom : (d'.ledger.allotments.get? c).map (·.available) = some a.available := by
        rw [hg'.rooms.available, ha, Option.map_some]
      have ho : d'.hierarchy.owners.get? item.id = some c := by
        rw [(hg.trans hg').hierarchy, (hitems item hmem).1]
      have hnext := follow (hg.trans hg') ho hroom (hrest item hmem) hi'
      rw [hg'.hierarchy, hg'.boxes] at hnext
      exact ⟨hg'.trans (followPush_ground _ _ _ _ _), hnext,
        fun item' hi => hP.followed _ _ _ _ (hrest item' hi)⟩

/-- **What is kept where elements follow items with a tracked property, separation keeps.** -/
theorem separate_steps (start : I d) : I d.separate.state :=
  book (Fold.keeps (f := separateIn) (l := d.hierarchy.preOrder) (b := ⟨d, []⟩)
    (fun _ u => SameGround d u.drawing ∧ I u.drawing) ⟨.refl _, start⟩
    fun _ c _ u _ ⟨hg, hu⟩ =>
      ⟨hg.trans (separateIn_ground u c), separateIn_steps hP t book follow hg hu c⟩).2

end

/-- **What every push keeps that the elements of a container follow, separation keeps.** -/
theorem separate_follows {d : Drawing α} {I : Drawing α → Prop} (t : d.hierarchy.IsTree)
    (book : ∀ {d' m}, I d' → I { d' with metrics := m })
    (follow : ∀ {d' c room zones item}, SameGround d d' →
      d.hierarchy.owners.get? item.id = some c → I d' → I (followPush c room zones d' item))
    (start : I d) : I d.separate.state :=
  separate_steps (P := fun _ _ => True) ⟨fun _ => trivial, fun _ _ _ => trivial,
    fun _ _ _ _ _ => trivial⟩ t book (fun hg ho _ _ hd => follow hg (hg.hierarchy ▸ ho) hd) start

end

/-! ## Pushes -/

/-- The second drawing is the first one with one element moved. -/
structure Push (d d' : Drawing ℝ) (c e : String) (room : Rect ℝ) (p p' : Placement ℝ) : Prop where
  ground : SameGround d d'
  owner : d.hierarchy.owners.get? e = some c
  given : (d.ledger.allotments.get? c).map (·.available) = some room
  before : d.placements.get? e = some p
  after : d'.placements = d.placements.insert e p'
  size : p'.footprint.SameSize p.footprint
  within : p.footprint.width ≤ room.width → p.footprint.height ≤ room.height →
    p'.footprint.Within room
  clear : ∀ zone ∈ SpaceLedger.childZones d.hierarchy d.boxes c,
    zone.intersects p'.footprint = false

/-- An item of the size that its element has. -/
def Sized (d : Drawing ℝ) (item : Separation.Item ℝ) : Prop :=
  ∀ p, d.placements.get? item.id = some p → item.bounds.SameSize p.footprint

/-- Elements keep their sizes, and so do the items. -/
theorem sized_tracked : Tracked Sized where
  start hp q hq := by
    cases hp.symm.trans hq
    exact .refl _
  pushed dx dy hi p hp := (Rect.translate_sameSize _ dx dy).trans (hi p hp)
  followed {d item} c room zones item' hi := by
    rcases followPush_eq_or_shift c room zones d item' with he | ⟨p, dx, dy, hp, he⟩
    · rwa [he]
    · intro q hq
      rw [he, Table.get?_insert_eq] at hq
      split at hq
      · rename_i heq
        cases hq
        exact (hi p (heq ▸ hp)).trans (Rect.translate_sameSize _ _ _).symm
      · exact hi q hq

/-- **Following a push** leaves the drawing alone or moves the one element to the place of the item,
brought back into the room, if that is clear of the zones. -/
theorem followPush_eq_or_clamped (c : String) (room : Rect ℝ) (zones : List (Rect ℝ))
    {d : Drawing ℝ} {item : Separation.Item ℝ} (hsize : Sized d item) :
    let d' := followPush c room zones d item
    d' = d ∨ ∃ p dx dy, d.placements.get? item.id = some p ∧
      d'.placements = d.placements.insert item.id (p.translate dx dy) ∧
      p.footprint.translate dx dy = item.bounds.clampWithin room ∧
      ∀ zone ∈ zones, zone.intersects (p.footprint.translate dx dy) = false := by
  intro d'
  show d' = d ∨ _
  unfold d' followPush
  split
  · exact .inl rfl
  · rename_i p hp
    split
    · exact .inl rfl
    · dsimp only
      split
      · exact .inl rfl
      · rename_i hzones
        have hfoot := Rect.translate_onto
          ((Rect.clampWithin_sameSize item.bounds room).trans (hsize p hp))
        refine .inr ⟨p, _, _, hp, rfl, hfoot, fun zone hz => ?_⟩
        rw [hfoot]
        simpa using fun h => hzones (List.any_eq_true.2 ⟨zone, hz, h⟩)

/-- **Following a push** either leaves the drawing alone or moves the one element. -/
theorem followPush_eq_or_push {d : Drawing ℝ} {c : String} {room : Rect ℝ}
    {item : Separation.Item ℝ} (ho : d.hierarchy.owners.get? item.id = some c)
    (hroom : (d.ledger.allotments.get? c).map (·.available) = some room) (hsize : Sized d item) :
    let d' := followPush c room (SpaceLedger.childZones d.hierarchy d.boxes c) d item
    d' = d ∨ ∃ p p', Push d d' c item.id room p p' := by
  intro d'
  refine (followPush_eq_or_clamped c room _ hsize).imp id ?_
  rintro ⟨p, dx, dy, hp, hafter, hfoot, hclear⟩
  have hs := hsize p hp
  refine ⟨p, p.translate dx dy, followPush_ground _ _ _ _ _, ho, hroom, hp, hafter,
    Rect.translate_sameSize _ _ _, fun hw hh => ?_, hclear⟩
  show (p.footprint.translate dx dy).Within room
  rw [hfoot]
  exact Rect.clampWithin_within (hs.width.trans_le hw) (hs.height.trans_le hh)

/-- A push takes no element away. -/
theorem Push.allPlaced {d d' : Drawing ℝ} {c e : String} {room : Rect ℝ} {p p' : Placement ℝ}
    (h : Push d d' c e room p p') (hd : AllPlaced d) : AllPlaced d' := by
  intro c' e' ho
  rw [h.ground.hierarchy] at ho
  rw [h.after, Table.get?_insert_eq]
  split
  · exact ⟨p', rfl⟩
  · exact hd ho

/-! ## The phase -/

section
variable {d : Drawing ℝ} {I : Drawing ℝ → Prop}

/-- What every push keeps is kept where an element follows an item of its size. -/
theorem followPush_keeps
    (push : ∀ {d₁ d₂ c e room p p'}, SameGround d d₁ → Push d₁ d₂ c e room p p' → I d₁ → I d₂)
    {d' : Drawing ℝ} {c : String} {room : Rect ℝ} {item : Separation.Item ℝ} (hg : SameGround d d')
    (ho : d'.hierarchy.owners.get? item.id = some c)
    (hroom : (d'.ledger.allotments.get? c).map (·.available) = some room)
    (hsize : Sized d' item) (hi : I d') :
    I (followPush c room (SpaceLedger.childZones d'.hierarchy d'.boxes c) d' item) := by
  rcases followPush_eq_or_push ho hroom hsize with he | ⟨p, p', hp⟩
  · rwa [he]
  · exact push hg hp hi

theorem separateIn_keeps (t : d.hierarchy.IsTree)
    (book : ∀ {d₁ d₂}, SameView d₁ d₂ → I d₁ → I d₂)
    (push : ∀ {d₁ d₂ c e room p p'}, SameGround d d₁ → Push d₁ d₂ c e room p p' → I d₁ → I d₂)
    {u : Untangling ℝ} (hg : SameGround d u.drawing) (hu : I u.drawing) (c : String) :
    I (separateIn u c).drawing :=
  separateIn_steps (I := I) sized_tracked t (book ⟨rfl, rfl, rfl, rfl, rfl⟩)
    (followPush_keeps push) hg hu c

/-- **What every push keeps, separation keeps.** -/
theorem separate_keeps (t : d.hierarchy.IsTree)
    (book : ∀ {d₁ d₂}, SameView d₁ d₂ → I d₁ → I d₂)
    (push : ∀ {d₁ d₂ c e room p p'}, SameGround d d₁ → Push d₁ d₂ c e room p p' → I d₁ → I d₂)
    (start : I d) : I d.separate.state :=
  separate_steps (I := I) sized_tracked t (book ⟨rfl, rfl, rfl, rfl, rfl⟩)
    (followPush_keeps push) start

theorem separate_allPlaced (t : d.hierarchy.IsTree) (h : AllPlaced d) :
    AllPlaced d.separate.state :=
  separate_keeps t AllPlaced.congr (fun _ hp h => hp.allPlaced h) h

theorem separate_standing (t : d.hierarchy.IsTree) (h : Standing d) :
    Standing d.separate.state := by
  refine separate_keeps t Standing.congr (fun {d₁ d₂ c e room p p'} _ hp h {e' q} hq => ?_) h
  rw [hp.after, Table.get?_insert_eq] at hq
  split at hq
  · cases hq
    exact hp.size.upright (h hp.before)
  · exact h hq

/-- **Separation leaves every element to scale.** -/
theorem separate_toScale {sized : Drawing ℝ} (t : d.hierarchy.IsTree) (h : ToScale sized d) :
    ToScale sized d.separate.state := by
  refine separate_keeps t (fun hv => ToScale.congr hv)
    (fun {d₁ d₂ c e room p p'} _ hp h {e' q x} hq hx hproper => ?_) h
  rw [hp.after, Table.get?_insert_eq] at hq
  split at hq
  · rename_i he
    cases hq
    subst he
    rw [hp.size.width, hp.size.height]
    exact h hp.before hx hproper
  · exact h hq hx hproper

/-- **Separation leaves every element inside its container.** -/
theorem separate_inside (hr : Ready d) (h : Inside d) : Inside d.separate.state := by
  refine separate_keeps hr.tree Inside.congr
    (fun {d₁ d₂ c e room p p'} hg hp h {c' e' q box} ho hq hb => ?_) h
  rw [hp.ground.hierarchy] at ho
  rw [hp.ground.boxes] at hb
  rw [inner_congr hp.ground.settings hp.ground.scale]
  rw [hp.after, Table.get?_insert_eq] at hq
  split at hq
  · rename_i he
    cases hq
    subst he
    cases hp.owner.symm.trans ho
    have hin := h ho hp.before hb
    have hroom := hp.given.symm.trans ((hr.of_ground hg).allotted hb)
    cases hroom
    exact hp.within hin.width_le hin.height_le
  · exact h ho hq hb

/-- **Separation leaves every element clear of the child containers.** -/
theorem separate_clear (t : d.hierarchy.IsTree) (h : Clear d) : Clear d.separate.state := by
  refine separate_keeps t Clear.congr
    (fun {d₁ d₂ c e room p p'} hg hp h {c' b e' q bbox} ho hpar hq hbb => ?_) h
  rw [hp.ground.hierarchy] at ho hpar
  rw [hp.ground.boxes] at hbb
  rw [hp.after, Table.get?_insert_eq] at hq
  split at hq
  · rename_i he
    cases hq
    subst he
    cases hp.owner.symm.trans ho
    have t₁ : d₁.hierarchy.IsTree := hg.hierarchy ▸ t
    exact hp.clear bbox ((mem_childZones t₁).2 ⟨b, hpar, hbb⟩)
  · exact h ho hpar hq hbb

end

end Drawing

end NestedLayout
