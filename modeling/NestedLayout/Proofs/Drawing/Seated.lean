import NestedLayout.Proofs.Drawing.Mirrored
import NestedLayout.Proofs.Space.ExactRoom

/-!
# Elements in any boxes

What placing comes to whatever the boxes and the hints are, also where there is no room for all
elements.

* `spotFor_free`: a spot that was suggested or found keeps a footprint in the room of its container,
  and clear of what stands there and of the child containers.
* `Seated`: what holds of the elements that have been placed so far, kept by `Seated.placeOne`. Of
  two that meet in one container the later one found no place, since the ledger shows each what
  stands there before it.
* `place_seats`: so every element is placed once and counted once, with a note for each that found
  no place.
-/

set_option autoImplicit false

namespace NestedLayout

open Scalar (epsilon)

/-! ## Counters -/

/-- How many elements were placed in one way. -/
def Metrics.placedBy {α : Type} (m : Metrics α) : Drawing.Origin → Nat
  | .hint => m.placedByHint
  | .search => m.placedBySearch
  | .fallback => m.fallbackPlacements

/-- In the second record so many more elements were placed in each way than in the first. -/
structure Metrics.PlacedMore {α : Type} (m m' : Metrics α) (hinted searched fallen : Nat) :
    Prop where
  hint : m'.placedByHint = m.placedByHint + hinted
  search : m'.placedBySearch = m.placedBySearch + searched
  fallback : m'.fallbackPlacements = m.fallbackPlacements + fallen

namespace Drawing

section
variable {α : Type} [Scalar α]

omit [Scalar α] in
theorem placedBy_countPlacement (m : Metrics α) (o o' : Origin) :
    (countPlacement m o).placedBy o' = m.placedBy o' + if o' = o then 1 else 0 := by
  cases o <;> cases o' <;> rfl

theorem flagForResize_placedBy (d : Drawing α) (c : String) (x : Extent α) (o : Origin) :
    (d.flagForResize c x).metrics.placedBy o = d.metrics.placedBy o := by
  unfold flagForResize
  split
  · rfl
  · cases o <;> rfl

/-- What placing one element adds: a placement at the spot that is found, one to a counter, and a
note when no free spot was found. -/
structure Adds (d : Drawing α) (c e : String) (x : Extent α) (out : Drawing α × List Note)
    (p : Placement α) : Prop where
  placements : out.1.placements = d.placements.insert e p
  footprint : p.footprint = Rect.fromCenter (d.spotFor c e (x.unitSize d.scale)).center
    (x.unitSize d.scale).1 (x.unitSize d.scale).2
  fallback : p.fallback = true ↔ (d.spotFor c e (x.unitSize d.scale)).origin = .fallback
  notes : out.2 = if p.fallback then [noPlaceNote c e] else []
  counted : ∀ o, out.1.metrics.placedBy o =
    d.metrics.placedBy o + if o = (d.spotFor c e (x.unitSize d.scale)).origin then 1 else 0

theorem placeOne_adds (d : Drawing α) (c e : String) (x : Extent α) :
    ∃ p, Adds d c e x (d.placeOne c e x) p := by
  unfold placeOne
  dsimp only
  split
  · rename_i hs
    have hscale := (flagForResize_ground d c x).scale
    refine ⟨_, congrArg (Table.insert · e _) (flagForResize_placements d c x), ?_, ?_, ?_,
      fun o => ?_⟩
    · rw [hscale]
    · exact decide_eq_true_iff
    · rw [if_pos (decide_eq_true hs)]
    · exact (placedBy_countPlacement _ _ o).trans
        (congrArg (· + _) (flagForResize_placedBy d c x o))
  · rename_i hs
    refine ⟨_, rfl, rfl, decide_eq_true_iff, ?_, placedBy_countPlacement _ _⟩
    rw [if_neg (by simpa using hs)]

end

/-! ## Free spots -/

section
variable {d : Drawing ℝ} {c e : String} {size : ℝ × ℝ} {a : Allotment ℝ}

/-- **A spot that was suggested or found is free.** -/
theorem spotFor_free (ha : d.ledger.allotments.get? c = some a) (hw : 0 ≤ size.1)
    (hh : 0 ≤ size.2) (hgap : 0 ≤ d.unitGap.1 ∧ 0 ≤ d.unitGap.2)
    (hhalf : 0 ≤ d.ledger.halfGap.1 ∧ 0 ≤ d.ledger.halfGap.2)
    (hs : (d.spotFor c e size).origin ≠ .fallback) :
    a.available.contains (.fromCenter (d.spotFor c e size).center size.1 size.2) = true ∧
      ∀ z ∈ d.ledger.exclusionZones d.hierarchy d.boxes c,
        z.intersects (.fromCenter (d.spotFor c e size).center size.1 size.2) = false := by
  cases hhint : d.hintedCenter? c e size with
  | some center =>
    simp only [spotFor, hhint]
    simp only [hintedCenter?, Option.bind_eq_bind, Option.bind_eq_some_iff, ha] at hhint
    obtain ⟨hint, -, _, hsome, hfits⟩ := hhint
    cases hsome
    split at hfits
    · rename_i hfree
      cases hfits
      simp only [fits, Bool.and_eq_true, List.all_eq_true, Bool.not_eq_true', Scalar.two_real]
        at hfree
      exact ⟨hfree.2, fun z hz => Rect.intersects_mono (.refl z)
        (Rect.within_inflate (by linarith) (by linarith) _) (hfree.1 z hz)⟩
    · cases hfits
  | none =>
    cases hfound : d.ledger.firstPosition? d.hierarchy d.boxes c size d.settings.maxAttempts with
    | some center =>
      simp only [spotFor, hhint, hfound]
      refine ⟨SpaceLedger.firstPosition?_contains ha hw hh hfound, fun z hz => ?_⟩
      exact Rect.intersects_mono (.refl z) (Rect.within_inflate hhalf.1 hhalf.2 _)
        (isClear_iff.1 (SpaceLedger.firstPosition?_isClear hfound) z hz)
    | none =>
      simp only [spotFor, hhint, hfound] at hs
      exact absurd rfl hs

end

/-! ## What placing comes to -/

/-- A drawing in which nothing stands yet: the elements are measured, every container has a box, and
the ledger was started over with these boxes. -/
structure Vacant (d : Drawing ℝ) : Prop where
  tree : d.hierarchy.IsTree
  measured : ∀ {c e}, d.hierarchy.owners.get? e = some c →
    ∃ x, d.extents.get? e = some x ∧ 0 ≤ x.totalWidth ∧ 0 ≤ x.totalHeight
  gap : 0 ≤ d.settings.spacing.gap
  scale : d.scale.Proper
  boxed : ∀ {c}, d.hierarchy.containers.contains c = true → d.boxes.contains c = true
  restarted : ∃ l : SpaceLedger ℝ, l.spacing = d.settings.spacing ∧
    d.ledger = l.restart d.boxes d.scale

/-- Whether a member has a place, and it is one of last resort. -/
def fellBack (d : Drawing ℝ) (m : String × String) : Bool :=
  match d.placements.get? m.2 with
  | some p => p.fallback
  | none => false

/-- Of two members of one container whose footprints meet, the second one found no free place. -/
def YieldsTo (d : Drawing ℝ) (m m' : String × String) : Prop :=
  m.1 = m'.1 → ∀ {p p'}, d.placements.get? m.2 = some p → d.placements.get? m'.2 = some p' →
    p.footprint.intersects p'.footprint = true → p'.fallback = true

/-- What holds of the members that have been placed so far. -/
structure Seated (d : Drawing ℝ) (done : List (String × String)) (s : Step (Drawing ℝ)) :
    Prop where
  mirrored : s.state.Mirrored
  placed : ∀ e, s.state.placements.contains e = true ↔ e ∈ done.map (·.2)
  notes : s.notes = (done.filter s.state.fellBack).map fun m => noPlaceNote m.1 m.2
  /-- Every member is counted once, under the way in which it was placed. -/
  counted : ∃ hinted searched fallen,
    d.metrics.PlacedMore s.state.metrics hinted searched fallen ∧
    fallen = (done.filter s.state.fellBack).length ∧ hinted + searched + fallen = done.length
  free : ∀ {m p a}, m ∈ done → s.state.placements.get? m.2 = some p → p.fallback = false →
    d.ledger.allotments.get? m.1 = some a → a.available.contains p.footprint = true ∧
      ∀ {b box}, d.hierarchy.parent? b = some m.1 → d.boxes.get? b = some box →
        box.intersects p.footprint = false
  apart : done.Pairwise s.state.YieldsTo

namespace Vacant

variable {d : Drawing ℝ} (hv : Vacant d)
include hv

theorem unitGap_nonneg : 0 ≤ d.unitGap.1 ∧ 0 ≤ d.unitGap.2 :=
  ⟨div_nonneg hv.gap hv.scale.width_pos.le, div_nonneg hv.gap hv.scale.height_pos.le⟩

/-- Half the gap is none below zero, as long as the ground is the same. -/
theorem halfGap_nonneg {d' : Drawing ℝ} (hg : SameGround d d') :
    0 ≤ d'.ledger.halfGap.1 ∧ 0 ≤ d'.ledger.halfGap.2 := by
  obtain ⟨l, hs, hl⟩ := hv.restarted
  have hspacing : d'.ledger.spacing = d.settings.spacing := by rw [hg.rooms.spacing, hl, ← hs]; rfl
  have hscale : d'.ledger.scale = d.scale := by rw [hg.rooms.scale, hl]; rfl
  rw [SpaceLedger.halfGap, hspacing, hscale, Scalar.two_real]
  exact ⟨div_nonneg hv.unitGap_nonneg.1 zero_le_two, div_nonneg hv.unitGap_nonneg.2 zero_le_two⟩

theorem allotted {c : String} (hc : d.hierarchy.containers.contains c = true) :
    ∃ a, d.ledger.allotments.get? c = some a := by
  obtain ⟨l, -, hl⟩ := hv.restarted
  obtain ⟨box, hbox⟩ := Table.contains_iff.1 (hv.boxed hc)
  rw [hl, SpaceLedger.restart, Table.get?_map, hbox]
  exact ⟨_, rfl⟩

/-- The start: no element stands anywhere. -/
theorem seated : Seated d [] (.quiet { d with placements := .empty }) where
  mirrored := by
    refine ⟨fun hc => Table.contains_iff.2 (hv.allotted hc), ?_⟩
    refine (SpaceLedger.Records.of_empty fun {c a} ha => ?_).congr fun c e r => ?_
    · obtain ⟨l, -, hl⟩ := hv.restarted
      have ha : d.ledger.allotments.get? c = some a := ha
      rw [hl, SpaceLedger.restart, Table.get?_map] at ha
      obtain ⟨box, -, rfl⟩ := Option.map_eq_some_iff.1 ha
      rfl
    · refine iff_of_false id ?_
      rintro ⟨-, p, hp, -⟩
      cases (Table.get?_empty e).symm.trans hp
  placed e := by simp [Step.quiet, Table.contains, Table.get?_empty]
  notes := rfl
  counted := ⟨0, 0, 0, ⟨rfl, rfl, rfl⟩, rfl, rfl⟩
  free hm := absurd hm List.not_mem_nil
  apart := .nil

end Vacant

/-! ## One more element -/

section
variable {d d' : Drawing ℝ} {c e : String} {x : Extent ℝ} {out : Drawing ℝ × List Note}
  {p : Placement ℝ}

theorem Adds.get?_self (h : Adds d' c e x out p) : out.1.placements.get? e = some p := by
  rw [h.placements, Table.get?_insert_self]

theorem Adds.get?_of_ne (h : Adds d' c e x out p) {e' : String} (hne : e' ≠ e) :
    out.1.placements.get? e' = d'.placements.get? e' := by
  rw [h.placements, Table.get?_insert_ne _ _ hne]

/-- The members so far are seen as before, and the new one as it was placed. -/
theorem Adds.filter_fellBack (h : Adds d' c e x out p) {done : List (String × String)}
    (hnew : ∀ m ∈ done, m.2 ≠ e) : (done ++ [(c, e)]).filter out.1.fellBack =
      done.filter d'.fellBack ++ if p.fallback then [(c, e)] else [] := by
  have hold : ∀ m ∈ done, out.1.fellBack m = d'.fellBack m := fun m hm => by
    rw [fellBack, fellBack, h.get?_of_ne (hnew m hm)]
  have hself : out.1.fellBack (c, e) = p.fallback := by rw [fellBack, h.get?_self]
  rw [List.filter_append, List.filter_congr hold, List.filter_singleton, hself, Bool.cond_eq_ite]

/-- **One more element is counted** under the way in which it was placed. -/
theorem Adds.placedMore (h : Adds d' c e x out p) {m : Metrics ℝ} {hinted searched fallen : Nat}
    (hm : m.PlacedMore d'.metrics hinted searched fallen) :
    ∃ hinted' searched' fallen', m.PlacedMore out.1.metrics hinted' searched' fallen' ∧
      fallen' = fallen + (if p.fallback then 1 else 0) ∧
      hinted' + searched' + fallen' = hinted + searched + fallen + 1 := by
  have hhint := h.counted .hint
  have hsearch := h.counted .search
  have hfall := h.counted .fallback
  have hfb := h.fallback
  simp only [Metrics.placedBy, hm.hint, hm.search, hm.fallback] at hhint hsearch hfall
  generalize (d'.spotFor c e (x.unitSize d'.scale)).origin = origin at *
  refine ⟨_, _, _, ⟨hhint.trans (Nat.add_assoc _ _ _), hsearch.trans (Nat.add_assoc _ _ _),
    hfall.trans (Nat.add_assoc _ _ _)⟩, ?_, ?_⟩
  · simp only [hfb, eq_comm]
  · cases origin <;> simp only [reduceCtorEq, if_true, if_false] <;> omega

theorem Adds.yieldsTo (h : Adds d' c e x out p) {m m' : String × String} (hm : m.2 ≠ e)
    (hm' : m'.2 ≠ e) (hyield : d'.YieldsTo m m') : out.1.YieldsTo m m' := by
  intro he q q' hq hq'
  rw [h.get?_of_ne hm] at hq
  rw [h.get?_of_ne hm'] at hq'
  exact hyield he hq hq'

/-- A container has the room in its allotment that it has from the start. -/
theorem SameGround.allotment (hg : SameGround d d') {a : Allotment ℝ}
    (ha : d.ledger.allotments.get? c = some a) :
    ∃ a', d'.ledger.allotments.get? c = some a' ∧ a'.available = a.available := by
  have havail := hg.rooms.available c
  rw [ha] at havail
  exact Option.map_eq_some_iff.1 havail

/-- **An element that found a free place** lies in the room of its container and clear of all that
the ledger shows there. -/
theorem Adds.free (h : Adds d' c e x out p) (hv : Vacant d) (hg : SameGround d d')
    (ho : d.hierarchy.owners.get? e = some c) (hx : d.extents.get? e = some x) {a : Allotment ℝ}
    (ha : d.ledger.allotments.get? c = some a) (hp : p.fallback = false) :
    a.available.contains p.footprint = true ∧
      ∀ z ∈ d'.ledger.exclusionZones d'.hierarchy d'.boxes c,
        z.intersects p.footprint = false := by
  obtain ⟨a', ha', hroom⟩ := hg.allotment ha
  obtain ⟨x', hx', hw, hh⟩ := hv.measured ho
  cases hx.symm.trans hx'
  have hscale := hg.scale.symm ▸ hv.scale
  rw [h.footprint, ← hroom]
  refine spotFor_free ha' (div_nonneg hw hscale.width_pos.le) (div_nonneg hh hscale.height_pos.le)
    (hg.unitGap ▸ hv.unitGap_nonneg) (hv.halfGap_nonneg hg) fun hor => ?_
  rw [h.fallback.2 hor] at hp
  cases hp

/-- **One more element keeps the others seated** and is seated itself: a free spot is clear of all
that stands in the container, which is what the ledger shows. -/
theorem Seated.placeOne (hv : Vacant d) {done : List (String × String)} {s : Step (Drawing ℝ)}
    (hs : Seated d done s) (hg : SameGround d s.state)
    (hdone : ∀ m ∈ done, d.hierarchy.owners.get? m.2 = some m.1)
    (ho : d.hierarchy.owners.get? e = some c) (hnew : ∀ m ∈ done, m.2 ≠ e)
    (hx : d.extents.get? e = some x) :
    Seated d (done ++ [(c, e)]) { s with
      state := (s.state.placeOne c e x).1
      notes := s.notes ++ (s.state.placeOne c e x).2 } := by
  obtain ⟨p, h⟩ := placeOne_adds s.state c e x
  have hmirrored := hs.mirrored.placeOne (hg.hierarchy ▸ ho) x
  generalize s.state.placeOne c e x = out at h hmirrored ⊢
  obtain ⟨a, ha⟩ := hv.allotted (hv.tree.known_of_owner ho)
  obtain ⟨a', ha', -⟩ := hg.allotment ha
  refine ⟨hmirrored, fun e' => ?_, ?_, ?_, fun {m q b} hm hq hfall hb => ?_, ?_⟩
  · rw [h.placements, Table.contains_insert_iff, hs.placed, List.map_append, List.mem_append,
      List.map_singleton, List.mem_singleton, or_comm]
  · rw [h.filter_fellBack hnew, h.notes, hs.notes, List.map_append]
    split <;> rfl
  · obtain ⟨hinted, searched, fallen, hm, hfallen, hsum⟩ := hs.counted
    obtain ⟨hinted', searched', fallen', hm', hfallen', hsum'⟩ := h.placedMore hm
    refine ⟨_, _, _, hm', ?_, ?_⟩
    · rw [h.filter_fellBack hnew, List.length_append, hfallen', hfallen]
      split <;> rfl
    · rw [hsum', hsum, List.length_append, List.length_singleton]
  · rcases List.mem_append.1 hm with hm | hm
    · rw [h.get?_of_ne (hnew m hm)] at hq
      exact hs.free hm hq hfall hb
    · obtain rfl := List.mem_singleton.1 hm
      cases h.get?_self.symm.trans hq
      obtain ⟨hcontains, hclear⟩ := h.free hv hg ho hx hb hfall
      refine ⟨hcontains, fun {b box} hpar hbox =>
        hclear _ (SpaceLedger.mem_exclusionZones_of_child ?_)⟩
      rw [hg.hierarchy, hg.boxes]
      exact (mem_childZones hv.tree).2 ⟨b, hpar, hbox⟩
  · refine List.pairwise_append.2 ⟨hs.apart.imp_of_mem fun hm hm' hyield =>
      h.yieldsTo (hnew _ hm) (hnew _ hm') hyield, List.pairwise_singleton _ _,
      fun m hm m' hm' => ?_⟩
    obtain rfl := List.mem_singleton.1 hm'
    intro he q q' hq hq' hmeet
    cases h.get?_self.symm.trans hq'
    rw [h.get?_of_ne (hnew m hm)] at hq
    by_contra hp
    -- the ledger showed the footprint of the first one
    have hrecord : (⟨m.2, q.footprint⟩ : OccupiedRegion ℝ) ∈ a'.occupied :=
      (hs.mirrored.records.mem_iff ha').2 ⟨by rw [hg.hierarchy, hdone m hm, he], q, hq, rfl⟩
    obtain ⟨-, hclear⟩ := h.free hv hg ho hx ha (Bool.eq_false_iff.2 hp)
    cases hmeet.symm.trans (hclear _ (SpaceLedger.mem_exclusionZones_of_occupied ha' hrecord))

end

/-- **Placing puts every element somewhere once.** The three counters increase by as much as there
are elements, and there is a note for each element without a free place. All others lie in the room
of their container, up to the tolerance, and clear of its child containers; and of two elements of
one container that meet the one that was placed later had no free place. -/
theorem place_seats {d : Drawing ℝ} (hv : Vacant d) :
    d.place.failure = none ∧
    ((members d.hierarchy).map (·.2)).Perm d.hierarchy.owners.keys ∧
    d.place.state.placements.keys = d.hierarchy.owners.keys ∧
    (∃ hinted searched fallen,
      d.metrics.PlacedMore d.place.state.metrics hinted searched fallen ∧
      hinted + searched + fallen = d.hierarchy.owners.size ∧
      fallen = ((members d.hierarchy).filter d.place.state.fellBack).length) ∧
    d.place.notes = ((members d.hierarchy).filter d.place.state.fellBack).map
      (fun m => noPlaceNote m.1 m.2) ∧
    (∀ {c e p}, d.hierarchy.owners.get? e = some c → d.place.state.placements.get? e = some p →
      p.fallback = false →
      (∃ a, d.ledger.allotments.get? c = some a ∧ a.available.contains p.footprint = true) ∧
      ∀ {b box}, d.hierarchy.parent? b = some c → d.boxes.get? b = some box →
        box.intersects p.footprint = false) ∧
    (members d.hierarchy).Pairwise d.place.state.YieldsTo := by
  have hmem : ∀ m ∈ members d.hierarchy, d.hierarchy.owners.get? m.2 = some m.1 := fun m hm =>
    (mem_members hv.tree).1 hm
  have hseated : Seated d (members d.hierarchy) d.place := by
    refine place_keepsStep hv.seated (fun {done m rest s} hs hx _ => ?_)
      fun {done m rest s x} hs hg hx hd => ?_
    · obtain ⟨x, hx', -⟩ := hv.measured (hmem m (by rw [hs]; simp))
      cases hx.symm.trans hx'
    · refine hd.placeOne hv hg (fun m' hm' => hmem m' (by rw [hs]; simp [hm']))
        (hmem m (by rw [hs]; simp)) (fun m' hm' => ?_) hx
      have hnodup := nodup_members hv.tree
      rw [hs, List.map_append, List.nodup_append] at hnodup
      exact hnodup.2.2 _ (List.mem_map_of_mem hm') _ (.head _)
  have hperm := members_perm hv.tree
  refine ⟨place_failure d, hperm, Table.keys_eq_of_contains fun e => ?_, ?_, hseated.notes,
    fun {c e p} ho hp hfall => ?_, hseated.apart⟩
  · rw [Bool.eq_iff_iff, hseated.placed, hperm.mem_iff, Table.mem_keys_iff]
  · obtain ⟨hinted, searched, fallen, hm, hfallen, hsum⟩ := hseated.counted
    refine ⟨hinted, searched, fallen, hm, hsum.trans ?_, hfallen⟩
    rw [← Table.length_keys, ← hperm.length_eq, List.length_map]
  · obtain ⟨a, ha⟩ := hv.allotted (hv.tree.known_of_owner ho)
    obtain ⟨hcontains, hclear⟩ :=
      hseated.free (m := (c, e)) ((mem_members hv.tree).2 ho) hp hfall ha
    exact ⟨⟨a, ha, hcontains⟩, hclear⟩

/-- Four elements that cross, in an area without room for the last one, and a hint for the first. -/
noncomputable def crossedDrawing : Drawing ℝ :=
  { start crossed { (.standard : LayoutSettings ℝ) with spacing := crossedLedger.spacing } (21, 21)
      crossedTree [] with
    extents := crossedExtents
    boxes := crossedBoxes
    scale := ⟨1, 1⟩
    ledger := (crossedLedger.calculate crossedTree crossedExtents).restart crossedBoxes ⟨1, 1⟩
    hints := .ofList [("a", ⟨2, 5⟩)] }

theorem crossedDrawing_vacant : Vacant crossedDrawing where
  tree := crossed_exactRoom.tree
  measured {c e} ho := by
    have he := crossed_exactRoom.tree.mem_elements.2 ho
    have hc : c ∈ ["sheet"] :=
      Table.mem_keys_iff.2 (crossed_exactRoom.tree.known_of_owner ho)
    obtain rfl := List.mem_singleton.1 hc
    obtain ⟨x, hx, hp⟩ := crossed_exactRoom.measured e he
    exact ⟨x, hx, hp.width.le, hp.height⟩
  gap := zero_le_one
  scale := ⟨le_rfl, le_rfl⟩
  boxed {c} hc := by
    have hc : c ∈ ["sheet"] := Table.mem_keys_iff.2 hc
    obtain rfl := List.mem_singleton.1 hc
    rfl
  restarted := ⟨_, (SpaceLedger.calculate_required crossed_exactRoom.tree crossedLedger
    crossedExtents).spacing, rfl⟩

/-- All four are placed and counted. -/
theorem crossed_seats :
    Vacant crossedDrawing ∧
    crossedDrawing.place.state.placements.keys = ["a", "b", "c", "d"] ∧
    (∃ hinted searched fallen,
      crossedDrawing.metrics.PlacedMore crossedDrawing.place.state.metrics hinted searched fallen ∧
      hinted + searched + fallen = 4 ∧ crossedDrawing.place.notes.length = fallen) ∧
    [("sheet", "a"), ("sheet", "b"), ("sheet", "c"), ("sheet", "d")].Pairwise
      crossedDrawing.place.state.YieldsTo := by
  obtain ⟨-, -, hkeys, ⟨hinted, searched, fallen, hm, hsum, hfallen⟩, hnotes, -, hyield⟩ :=
    place_seats crossedDrawing_vacant
  exact ⟨crossedDrawing_vacant, hkeys,
    ⟨hinted, searched, fallen, hm, hsum, by rw [hnotes, List.length_map, hfallen]⟩, hyield⟩

end Drawing

end NestedLayout
