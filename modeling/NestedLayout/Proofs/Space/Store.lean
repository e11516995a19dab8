import NestedLayout.Proofs.Fold
import NestedLayout.Proofs.Space.Records
import NestedLayout.Scalar.Binary32

/-!
# The ledger as a store

Six calls change what a ledger says about the containers: some start over or go through all of
them, some concern one container, some are ignored where the container has no allotment. `Follows`
says what a new ledger holds after any list of such calls, in terms of the calls alone: the last one
that places a container decides on its box, the last one that touches a region decides on the
region.

* `Call.run_get?`: what one call makes of one allotment.
* `Follows.step`: one more call.
* `perform_follows`: a whole run, what is returned when a region is taken out, and what a call
  leaves alone.
-/

set_option autoImplicit false

namespace NestedLayout.SpaceLedger

variable {α : Type}

/-- A call that changes allotments. -/
inductive Call (α : Type) where
  | restart (boxes : Boxes α) (scale : WorldScale α)
  | updateBounds (container : String) (box : Rect α)
  | register (container element : String) (bounds : Rect α)
  | unregister (container element : String)
  | reserve (container : String) (bounds : Rect α)
  | clearReserved

namespace Call

def run [Scalar α] (l : SpaceLedger α) : Call α → SpaceLedger α
  | restart boxes scale => l.restart boxes scale
  | updateBounds container box => l.updateBounds container box
  | register container element bounds => l.registerElement container element bounds
  | unregister container element => (l.unregisterElement container element).1
  | reserve container bounds => l.reserveRegion container bounds
  | clearReserved => l.clearReserved

/-- The container that a call is about, unless it goes through all of them. -/
def container? : Call α → Option String
  | updateBounds container _ | register container _ _ | unregister container _
  | reserve container _ => some container
  | restart _ _ | clearReserved => none

/-- The scale that a call sets. -/
def scale? : Call α → Option (WorldScale α)
  | restart _ scale => some scale
  | _ => none

/-- Whether a call decides on the box of a container. -/
def places (c : String) : Call α → Bool
  | restart _ _ => true
  | updateBounds container _ => container == c
  | _ => false

/-- The box that a call gives a container. -/
def box? (c : String) : Call α → Option (Rect α)
  | restart boxes _ => boxes.get? c
  | updateBounds container box => if container = c then some box else none
  | _ => none

/-- Whether a call decides on the region of an element in a container. -/
def touches (c e : String) : Call α → Bool
  | restart _ _ => true
  | register container element _ | unregister container element => container == c && element == e
  | _ => false

/-- The region that a call registers. -/
def bounds? : Call α → Option (Rect α)
  | register _ _ bounds => some bounds
  | _ => none

/-- What a call makes of the regions of a container. -/
def regions (c : String) (old : List (OccupiedRegion α)) : Call α → List (OccupiedRegion α)
  | restart _ _ => []
  | register container element bounds => if c = container then occupy element bounds old else old
  | unregister container element =>
    if c = container then old.eraseP fun r => r.id == element else old
  | _ => old

/-- What a call makes of the corridors of a container. -/
def corridors (c : String) (old : List (Rect α)) : Call α → List (Rect α)
  | restart _ _ | clearReserved => []
  | reserve container bounds => if c = container then old ++ [bounds] else old
  | _ => old

end Call

/-- The calls in turn. -/
def perform [Scalar α] (l : SpaceLedger α) (calls : List (Call α)) : SpaceLedger α :=
  calls.foldl Call.run l

/-! ## The history -/

/-- The last call of a list with a property, and the calls before it. -/
def Latest (p : Call α → Bool) (calls before : List (Call α)) (call : Call α) : Prop :=
  ∃ after, calls = before ++ call :: after ∧ p call ∧ ∀ later ∈ after, ¬ p later

/-- The scale of the last restart, or the standard one before the first. -/
def lastScale [Scalar α] (calls : List (Call α)) : WorldScale α :=
  (calls.filterMap Call.scale?).getLast?.getD .standard

/-- The last call to place a container gave it the box. -/
def Given (calls : List (Call α)) (c : String) (box : Rect α) : Prop :=
  ∃ before call, Latest (Call.places c) calls before call ∧ call.box? c = some box

/-- The last call to touch the region of an element registered it, in a container that had been
given a box. -/
def Registered (calls : List (Call α)) (c e : String) (bounds : Rect α) : Prop :=
  ∃ before, Latest (Call.touches c e) calls before (.register c e bounds) ∧
    ∃ box, Given before c box

section
variable {calls before : List (Call α)} {call last : Call α} {c e : String}

theorem latest_nil (p : Call α → Bool) : ¬ Latest p [] before call := by
  rintro ⟨after, h, -⟩
  simp at h

theorem latest_concat {p : Call α → Bool} :
    Latest p (calls ++ [last]) before call ↔
      if p last then before = calls ∧ call = last else Latest p calls before call := by
  constructor
  · rintro ⟨after, heq, hp, hafter⟩
    rcases after.eq_nil_or_concat with rfl | ⟨after, x, rfl⟩
    · obtain ⟨rfl, hlast⟩ := List.append_inj' heq rfl
      cases hlast
      simp [hp]
    · rw [List.concat_eq_append, ← List.cons_append, ← List.append_assoc] at heq
      obtain ⟨rfl, hlast⟩ := List.append_inj' heq rfl
      cases hlast
      rw [if_neg (hafter _ (by simp))]
      exact ⟨after, rfl, hp, fun later hm => hafter later (by simp [hm])⟩
  · split
    · rename_i hp
      rintro ⟨rfl, rfl⟩
      exact ⟨[], rfl, hp, by simp⟩
    · rename_i hp
      rintro ⟨after, rfl, hcall, hafter⟩
      refine ⟨after ++ [last], by simp, hcall, fun later hm => ?_⟩
      rcases List.mem_append.1 hm with hm | hm
      · exact hafter later hm
      · rwa [List.mem_singleton.1 hm]

theorem lastScale_concat [Scalar α] :
    lastScale (calls ++ [last]) = last.scale?.getD (lastScale calls) := by
  rw [lastScale, List.filterMap_append]
  cases last <;> simp [Call.scale?, lastScale]

theorem given_concat {box : Rect α} : Given (calls ++ [last]) c box ↔
    if last.places c then last.box? c = some box else Given calls c box := by
  simp only [Given, latest_concat]
  split
  · constructor
    · rintro ⟨_, _, ⟨rfl, rfl⟩, h⟩
      exact h
    · exact fun h => ⟨_, _, ⟨rfl, rfl⟩, h⟩
  · exact Iff.rfl

theorem registered_concat {b : Rect α} : Registered (calls ++ [last]) c e b ↔
    if last.touches c e then last = .register c e b ∧ ∃ box, Given calls c box
    else Registered calls c e b := by
  simp only [Registered, latest_concat]
  split
  · constructor
    · rintro ⟨_, ⟨rfl, rfl⟩, h⟩
      exact ⟨rfl, h⟩
    · rintro ⟨rfl, h⟩
      exact ⟨_, ⟨rfl, rfl⟩, h⟩
  · exact Iff.rfl

end

/-! ## One call -/

/-- The region of an element among those of a container. -/
def regionIn? (e : String) (rs : List (OccupiedRegion α)) : Option (Rect α) :=
  (rs.find? fun r => r.id == e).map (·.bounds)

theorem region?_eq (l : SpaceLedger α) (c e : String) :
    l.region? c e = (l.allotments.get? c).bind fun a => regionIn? e a.occupied := rfl

theorem regionIn?_occupy (e x : String) (b : Rect α) (rs : List (OccupiedRegion α)) :
    regionIn? x (occupy e b rs) = if x = e then some b else regionIn? x rs := by
  induction rs with
  | nil => by_cases hx : x = e <;> simp [regionIn?, occupy, hx, Ne.symm]
  | cons r rs ih =>
    unfold occupy
    by_cases hr : r.id = e
    · subst hr
      by_cases hx : x = r.id <;> simp [regionIn?, hx, Ne.symm]
    · rw [if_neg hr]
      by_cases hx : r.id = x
      · subst hx
        simp [regionIn?, hr]
      · simpa [regionIn?, hx] using ih

/-- With every region listed once, taking one out leaves the others in their order. -/
theorem eraseP_eq_filter {rs : List (OccupiedRegion α)} (h : (rs.map (·.id)).Nodup) (e : String) :
    (rs.eraseP fun r => r.id == e) = rs.filter fun r => r.id != e := by
  induction rs with
  | nil => rfl
  | cons r rs ih =>
    obtain ⟨hr, hrs⟩ := List.nodup_cons.1 (List.map_cons ▸ h)
    by_cases he : r.id = e
    · subst he
      have hall : ∀ x ∈ rs, (x.id != r.id) = true := fun x hx =>
        bne_iff_ne.2 fun hid => hr (hid ▸ List.mem_map_of_mem hx)
      simp [List.filter_eq_self.2 hall]
    · simp [he, ih hrs]

theorem regionIn?_filter (e x : String) (rs : List (OccupiedRegion α)) :
    regionIn? x (rs.filter fun r => r.id != e) = if x = e then none else regionIn? x rs := by
  rw [regionIn?, List.find?_filter]
  by_cases hx : x = e
  · subst hx
    simp
  · rw [if_neg hx, regionIn?]
    congr 2
    funext r
    by_cases hr : r.id = x <;> simp [hr, hx]

theorem regionIn?_regions {rs : List (OccupiedRegion α)} (h : (rs.map (·.id)).Nodup)
    (call : Call α) (c e : String) : regionIn? e (call.regions c rs) =
      if call.touches c e then call.bounds? else regionIn? e rs := by
  cases call with
  | restart boxes scale => rfl
  | register container element bounds =>
    by_cases hc : c = container
    · by_cases he : e = element <;>
      simp [Call.regions, Call.touches, Call.bounds?, regionIn?_occupy, hc, he, Ne.symm]
    · simp [Call.regions, Call.touches, hc, Ne.symm hc]
  | unregister container element =>
    by_cases hc : c = container
    · by_cases he : e = element <;>
      simp [Call.regions, Call.touches, Call.bounds?, eraseP_eq_filter h, regionIn?_filter, hc, he,
        Ne.symm]
    · simp [Call.regions, Call.touches, hc, Ne.symm hc]
  | updateBounds | reserve | clearReserved => rfl

theorem nodup_regions {rs : List (OccupiedRegion α)} (h : (rs.map (·.id)).Nodup)
    (call : Call α) (c : String) : ((call.regions c rs).map (·.id)).Nodup := by
  cases call with
  | restart boxes scale => exact List.nodup_nil
  | register container element bounds =>
    rw [Call.regions]
    split
    · exact nodup_occupy h
    · exact h
  | unregister container element =>
    rw [Call.regions]
    split
    · exact h.sublist (List.eraseP_sublist.map _)
    · exact h
  | updateBounds | reserve | clearReserved => exact h

/-- What does not place a container does not set the scale either. -/
theorem Call.scale?_of_not_places {call : Call α} {c : String} (h : ¬ call.places c) :
    call.scale? = none := by
  cases call <;> simp_all [Call.places, Call.scale?]

theorem eq_register_iff {call : Call α} {c e : String} {b : Rect α} :
    call = .register c e b ↔ call.touches c e = true ∧ call.bounds? = some b := by
  cases call <;> simp [Call.touches, Call.bounds?, and_assoc]

section
variable [Scalar α]

/-- **What one call makes of one allotment**: a call that places the container gives it the box that
it has for it, if any, with the interior at the scale in force; any other call leaves box and
interior alone. -/
theorem Call.run_get? (l : SpaceLedger α) (call : Call α) (c : String) :
    (call.run l).allotments.get? c =
      if call.places c then
        (call.box? c).map fun box => ⟨box, (call.run l).interior box,
          call.regions c (((l.allotments.get? c).map (·.occupied)).getD []),
          call.corridors c (((l.allotments.get? c).map (·.reserved)).getD [])⟩
      else (l.allotments.get? c).map fun a =>
        { a with
          occupied := call.regions c a.occupied
          reserved := call.corridors c a.reserved } := by
  cases call with
  | restart boxes scale => exact Table.get?_map _ _ _
  | updateBounds container box =>
    rw [Call.run, SpaceLedger.updateBounds, Table.get?_insert_eq]
    by_cases hc : c = container
    · simp [Call.places, Call.box?, Call.regions, Call.corridors, interior, hc]
    · simp [Call.places, Call.regions, Call.corridors, hc, Ne.symm hc]
  | register | unregister | reserve =>
    refine (modify_get? _ _ _ _).trans ?_
    rw [if_neg (by simp [Call.places])]
    congr 1
    funext a
    simp only [Call.regions, Call.corridors]
    split <;> rfl
  | clearReserved => exact Table.get?_map _ _ _

theorem Call.run_spacing (l : SpaceLedger α) (call : Call α) :
    (call.run l).spacing = l.spacing := by
  cases call <;> rfl

theorem Call.run_scale (l : SpaceLedger α) (call : Call α) :
    (call.run l).scale = call.scale?.getD l.scale := by
  cases call <;> rfl

theorem Call.run_total (l : SpaceLedger α) (call : Call α) (c : String) :
    ((call.run l).allotments.get? c).map (·.total) =
      if call.places c then call.box? c else (l.allotments.get? c).map (·.total) := by
  rw [run_get?]
  split <;> simp [Function.comp_def]

/-- **What one call makes of one region.** -/
theorem Call.run_region? {l : SpaceLedger α} {c : String}
    (h : ∀ {a}, l.allotments.get? c = some a → (a.occupied.map (·.id)).Nodup) (call : Call α)
    (e : String) : (call.run l).region? c e =
      if call.touches c e then (l.allotments.get? c).bind fun _ => call.bounds?
      else l.region? c e := by
  cases call with
  | restart boxes scale =>
    simp only [region?_eq, run_get?, places, box?, touches, bounds?, regions, if_true]
    cases boxes.get? c <;> cases l.allotments.get? c <;> rfl
  | updateBounds container box =>
    rw [region?_eq, run_get?]
    by_cases hc : container = c
    · simp only [places, box?, touches, regions, hc, beq_self_eq_true, if_true]
      cases hold : l.allotments.get? c <;> simp [region?_eq, hold, regionIn?]
    · simp [places, touches, regions, hc, region?_eq, Option.bind_map]
  | register | unregister | reserve | clearReserved =>
    rw [region?_eq, run_get?, if_neg (by simp [places]), region?_eq]
    cases hold : l.allotments.get? c with
    | none => simp
    | some a =>
      simp only [Option.map_some, Option.bind_some]
      exact regionIn?_regions (h hold) _ c e

/-! ## Any list of calls -/

/-- A ledger is what the calls say that led to it. -/
structure Follows (spacing : Spacing α) (calls : List (Call α)) (l : SpaceLedger α) : Prop where
  keepsSpacing : l.spacing = spacing
  keepsScale : l.scale = lastScale calls
  /-- The interior is the box without the padding, at the scale of the last restart. -/
  available : ∀ {c a}, l.allotments.get? c = some a → a.available =
    a.total.deflate ((lastScale calls).toUnitX spacing.padding)
      ((lastScale calls).toUnitY spacing.padding)
  total : ∀ {c box}, (l.allotments.get? c).map (·.total) = some box ↔ Given calls c box
  once : ∀ {c a}, l.allotments.get? c = some a → (a.occupied.map (·.id)).Nodup
  region : ∀ {c e b}, l.region? c e = some b ↔ Registered calls c e b

section
variable {spacing : Spacing α} {calls : List (Call α)} {l : SpaceLedger α}

theorem follows_new (spacing : Spacing α) : Follows spacing [] (.new spacing) where
  keepsSpacing := rfl
  keepsScale := rfl
  available ha := by cases ha
  total := by
    simp only [new, Table.get?_empty, Given, latest_nil]
    simp
  once ha := by cases ha
  region := by
    simp only [new, region?, Table.get?_empty, Registered, latest_nil]
    simp

theorem Follows.allotted_iff (f : Follows spacing calls l) {c : String} :
    (∃ a, l.allotments.get? c = some a) ↔ ∃ box, Given calls c box := by
  simp only [← f.total, Option.map_eq_some_iff]
  exact ⟨fun ⟨a, ha⟩ => ⟨_, a, ha, rfl⟩, fun ⟨_, a, ha, _⟩ => ⟨a, ha⟩⟩

/-- **One more call.** -/
theorem Follows.step (f : Follows spacing calls l) (call : Call α) :
    Follows spacing (calls ++ [call]) (call.run l) := by
  have hscale : (call.run l).scale = lastScale (calls ++ [call]) := by
    rw [Call.run_scale, f.keepsScale, lastScale_concat]
  have hspacing := (Call.run_spacing l call).trans f.keepsSpacing
  refine
    { keepsSpacing := hspacing
      keepsScale := hscale
      available := fun {c a} ha => ?_
      total := fun {c box} => ?_
      once := fun {c a} ha => ?_
      region := fun {c e b} => ?_ }
  · rw [Call.run_get?] at ha
    split at ha
    · obtain ⟨box, -, rfl⟩ := Option.map_eq_some_iff.1 ha
      rw [← hscale, ← hspacing]
      rfl
    · rename_i hp
      obtain ⟨a, hold, rfl⟩ := Option.map_eq_some_iff.1 ha
      rw [lastScale_concat, Call.scale?_of_not_places hp]
      exact (f.available hold :)
  · rw [Call.run_total, given_concat]
    split
    · exact Iff.rfl
    · exact f.total
  · rw [Call.run_get?] at ha
    split at ha
    · obtain ⟨box, -, rfl⟩ := Option.map_eq_some_iff.1 ha
      refine nodup_regions ?_ call c
      cases hold : l.allotments.get? c with
      | none => exact List.nodup_nil
      | some a => exact f.once hold
    · obtain ⟨a, hold, rfl⟩ := Option.map_eq_some_iff.1 ha
      exact nodup_regions (f.once hold) call c
  · rw [Call.run_region? f.once, registered_concat]
    split
    · rename_i ht
      rw [Option.bind_eq_some_iff, eq_register_iff, ← f.allotted_iff]
      simp only [ht, true_and]
      exact ⟨fun ⟨a, ha, hb⟩ => ⟨hb, a, ha⟩, fun ⟨hb, a, ha⟩ => ⟨a, ha, hb⟩⟩
    · exact f.region

/-- A call on another container leaves an allotment alone. -/
theorem Call.run_get?_of_other (l : SpaceLedger α) {call : Call α} {c d : String}
    (hd : call.container? = some d) (hne : c ≠ d) :
    (call.run l).allotments.get? c = l.allotments.get? c := by
  rw [run_get?]
  cases call <;> cases hd <;> simp [places, regions, corridors, hne, Ne.symm hne]

end

/-- **A ledger is a store of boxes and regions**: after any calls it holds what they say. Taking a
region out returns it and leaves the other regions of the container in their order, and a call on
one container changes no other one. -/
theorem perform_follows (spacing : Spacing α) (calls : List (Call α)) :
    let l := perform (.new spacing) calls
    Follows spacing calls l ∧
      (∀ c e, (∀ b, (l.unregisterElement c e).2 = some b ↔ Registered calls c e b) ∧
        (l.unregisterElement c e).1.allotments.get? c = (l.allotments.get? c).map fun a =>
          { a with occupied := a.occupied.filter fun r => r.id != e }) ∧
      ∀ (call : Call α) c d, call.container? = some d → c ≠ d →
        (call.run l).allotments.get? c = l.allotments.get? c := by
  intro l
  have f : Follows spacing calls l := Fold.keeps (Follows spacing) (follows_new spacing)
    fun _ call _ _ _ hl => hl.step call
  refine ⟨f, fun c e => ⟨fun b => f.region, ?_⟩, fun call c d => Call.run_get?_of_other l⟩
  refine (modify_get? _ _ _ _).trans (Option.map_congr fun a ha => ?_)
  rw [if_pos rfl, eraseP_eq_filter (f.once ha)]

/-- A region is registered twice, then another container is written to. -/
theorem moved_region :
    let small : Rect Float32 := ⟨0, 0, 0.5, 0.5⟩
    let calls : List (Call Float32) := [.restart (.ofList [("A", .unit), ("B", .unit)]) .standard,
      .register "A" "x" .unit, .register "A" "y" .unit, .register "A" "x" small]
    let l := perform (.new (.standard : LayoutSettings Float32).spacing) calls
    l.region? "A" "x" = some small ∧ (l.unregisterElement "A" "x").2 = some small ∧
      ((Call.updateBounds "B" small).run l).allotments.get? "A" = l.allotments.get? "A" := by
  intro small calls l
  obtain ⟨f, htaken, hother⟩ :=
    perform_follows (.standard : LayoutSettings Float32).spacing calls
  have hx : Registered calls "A" "x" small := by
    refine ⟨calls.take 3, ⟨[], rfl, rfl, by simp⟩, .unit, [], calls.head (by simp [calls]), ?_, rfl⟩
    exact ⟨(calls.take 3).tail, rfl, rfl, by simp [calls, Call.places]⟩
  exact ⟨f.region.2 hx, ((htaken "A" "x").1 small).2 hx,
    hother (.updateBounds "B" small) "A" "B" rfl (by decide)⟩

/-- **A region registered before its container has a box is lost.** -/
theorem early_region_lost :
    let calls : List (Call Float32) := [.register "A" "x" .unit, .updateBounds "A" .unit]
    let l := perform (.new (.standard : LayoutSettings Float32).spacing) calls
    (∃ before, Latest (Call.touches "A" "x") calls before (.register "A" "x" .unit)) ∧
      l.allotments.contains "A" = true ∧ l.region? "A" "x" = none := by
  refine ⟨⟨[], [.updateBounds "A" .unit], rfl, rfl, ?_⟩, rfl, rfl⟩
  simp [Call.touches]

end

end NestedLayout.SpaceLedger
