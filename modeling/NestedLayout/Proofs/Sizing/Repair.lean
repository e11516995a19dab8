import NestedLayout.Proofs.Exact.AxisMap
import NestedLayout.Proofs.Hierarchy.Accepted
import NestedLayout.Proofs.Sizing.Containment

/-!
# Repaired boxes

What a run of `Containment.enforce` that gets through leaves behind, in exact arithmetic. A repair
carries whole subtrees, so what holds of a container and its children after their own repair is
still there at the end: later ones are for containers further in.

* `Carries`, `Shrinks`: how repairs change boxes, with one lemma for each of `refit`,
  `pullInside`, `shrink` and `separate`.
* `enforceAt_repaired`, `enforce_repaired`: what the repair of one container leaves behind, and
  that the whole run keeps it.
* `enforce_validates_iff`: every container is inside its parent's interior, and siblings that came
  apart are apart at the end. The boxes pass the check unless two siblings of which one contained
  the other when their turn came have since been shrunk out of each other, which takes a third
  sibling.
* `huddle_escapes`: three siblings with which this happens.
-/

set_option autoImplicit false

namespace NestedLayout

namespace Containment

variable {h : Hierarchy}

/-! ## Changes of boxes -/

/-- Every container has a box with its sides in order. -/
def Boxed (h : Hierarchy) (boxes : Boxes ℝ) : Prop :=
  ∀ id, h.containers.contains id = true → ∃ box, boxes.get? id = some box ∧ box.Upright

/-- A change that carries subtrees: outside of those with the given roots every box stays. -/
structure Carries (h : Hierarchy) (roots : String → Prop) (boxes boxes' : Boxes ℝ) : Prop where
  outside : ∀ {x}, (∀ id, roots id → ¬ h.Encloses id x) → boxes'.get? x = boxes.get? x
  boxed : Boxed h boxes → Boxed h boxes'

/-- The children of a container have boxes inside the ones they had. -/
def ChildrenWithin (h : Hierarchy) (p : String) (boxes boxes' : Boxes ℝ) : Prop :=
  ∀ c box, h.parent? c = some p → boxes.get? c = some box →
    ∃ box', boxes'.get? c = some box' ∧ box'.Within box

/-- A change below a container in which its children stay in their boxes. -/
structure Shrinks (h : Hierarchy) (p : String) (boxes boxes' : Boxes ℝ) : Prop
    extends Carries h (fun c => h.parent? c = some p) boxes boxes' where
  within : ChildrenWithin h p boxes boxes'

section
variable {roots roots' : String → Prop} {p : String} {boxes boxes₁ boxes₂ : Boxes ℝ}

theorem Carries.refl (roots : String → Prop) (boxes : Boxes ℝ) : Carries h roots boxes boxes :=
  ⟨fun _ => rfl, id⟩

theorem Carries.trans (h₁ : Carries h roots boxes boxes₁) (h₂ : Carries h roots boxes₁ boxes₂) :
    Carries h roots boxes boxes₂ :=
  ⟨fun hx => (h₂.outside hx).trans (h₁.outside hx), fun hb => h₂.boxed (h₁.boxed hb)⟩

theorem Carries.mono (hc : Carries h roots boxes boxes₁) (hroots : ∀ id, roots id → roots' id) :
    Carries h roots' boxes boxes₁ :=
  ⟨fun hx => hc.outside fun id hid => hx id (hroots id hid), hc.boxed⟩

theorem ChildrenWithin.refl (p : String) (boxes : Boxes ℝ) : ChildrenWithin h p boxes boxes :=
  fun _ box _ hb => ⟨box, hb, .refl box⟩

theorem ChildrenWithin.trans (h₁ : ChildrenWithin h p boxes boxes₁)
    (h₂ : ChildrenWithin h p boxes₁ boxes₂) : ChildrenWithin h p boxes boxes₂ :=
  fun c box hc hb => by
    obtain ⟨box₁, hb₁, hw₁⟩ := h₁ c box hc hb
    obtain ⟨box₂, hb₂, hw₂⟩ := h₂ c box₁ hc hb₁
    exact ⟨box₂, hb₂, hw₂.trans hw₁⟩

/-- What is apart stays apart. -/
theorem ChildrenWithin.apart (hs : ChildrenWithin h p boxes boxes₁) {a b : String} {x y : Rect ℝ}
    (ha : h.parent? a = some p) (hb : h.parent? b = some p) (hx : boxes.get? a = some x)
    (hy : boxes.get? b = some y) (hxy : x.intersects y = false) :
    partiallyOverlap boxes₁ a b = false := by
  obtain ⟨x', hx', hwx⟩ := hs a x ha hx
  obtain ⟨y', hy', hwy⟩ := hs b y hb hy
  exact (partiallyOverlap_eq_false_iff hx' hy').2 (.inl (Rect.intersects_mono hwx hwy hxy))

theorem Shrinks.refl (p : String) (boxes : Boxes ℝ) : Shrinks h p boxes boxes :=
  ⟨.refl _ boxes, .refl p boxes⟩

theorem Shrinks.trans (h₁ : Shrinks h p boxes boxes₁) (h₂ : Shrinks h p boxes₁ boxes₂) :
    Shrinks h p boxes boxes₂ :=
  ⟨h₁.toCarries.trans h₂.toCarries, h₁.within.trans h₂.within⟩

end

/-! ## Single repairs -/

theorem get?_mapSubtree (boxes : Boxes ℝ) (root : String) (m : AxisMap ℝ)
    (x : String) : (mapSubtree h boxes root m).get? x =
      (boxes.get? x).map fun box => if x ∈ h.subtree root then m.applyRect box else box := by
  simp only [mapSubtree, Table.get?_map, List.contains_iff_mem]

theorem separate_of_overlap {α : Type} [Scalar α] {a b : String} {n : Nat} {r : Repair α}
    (hab : partiallyOverlap r.boxes a b = true) :
    separate h a b (n + 1) r =
      separate h a b n ⟨(shrink h (shrink h r a) b).boxes, r.corrections + 1⟩ := by
  rw [separate, if_pos hab]

section
variable (t : h.IsTree)
include t

theorem refit_carries (r : Repair ℝ) (id : String) (old new : Rect ℝ) :
    Carries h (· = id) r.boxes (r.refit h id old new).boxes where
  outside {x} hx := by
    rw [Repair.refit, get?_mapSubtree, funext fun box => if_neg fun hm =>
      hx id rfl (t.mem_subtree.1 hm), Option.map_id']
  boxed hb x hx := by
    obtain ⟨box, hbox, hup⟩ := hb x hx
    rw [Repair.refit, get?_mapSubtree, hbox]
    refine ⟨_, rfl, ?_⟩
    split
    · exact AxisMap.applyRect_upright _ _
    · exact hup

/-- The root of the subtree is carried into its new box. -/
theorem refit_within {r : Repair ℝ} {id : String} {old new : Rect ℝ}
    (hold : r.boxes.get? id = some old) (hnew : new.Upright) :
    ∃ box, (r.refit h id old new).boxes.get? id = some box ∧ box.Within new := by
  refine ⟨_, ?_, AxisMap.applyRect_between_within old hnew⟩
  rw [Repair.refit, get?_mapSubtree, hold, Option.map_some, if_pos (t.mem_subtree.2 (.refl id))]

theorem pullInside_carries (inner : Rect ℝ) (r : Repair ℝ) (c : String) :
    Carries h (· = c) r.boxes (pullInside h inner r c).boxes := by
  unfold pullInside
  split
  · exact .refl _ _
  · split
    · exact .refl _ _
    · exact refit_carries t r c _ _

omit t in
/-- A box that is made no larger than the interior can be moved into it. -/
theorem fitted_within (box : Rect ℝ) {inner : Rect ℝ} (hinner : inner.Upright) :
    ((Rect.fromCenter box.center (Scalar.min box.width inner.width)
      (Scalar.min box.height inner.height)).clampWithin inner).Within inner := by
  have hw := max_le (min_le_right box.width inner.width) hinner.width_nonneg
  have hh := max_le (min_le_right box.height inner.height) hinner.height_nonneg
  refine Rect.clampWithin_within ?_ ?_
  · rw [Rect.fromCenter_eq, Rect.width_eq, Scalar.min_real]
    linarith
  · rw [Rect.fromCenter_eq, Rect.height_eq, Scalar.min_real, Scalar.min_real]
    linarith

/-- **A child that was pulled lies in the interior.** -/
theorem pullInside_inside {inner : Rect ℝ} (hinner : inner.Upright) {r : Repair ℝ} {c : String}
    {box : Rect ℝ} (hbox : r.boxes.get? c = some box) :
    ∃ box', (pullInside h inner r c).boxes.get? c = some box' ∧ inner.contains box' = true := by
  simp only [pullInside, hbox]
  split
  · rename_i hin
    exact ⟨box, hbox, hin⟩
  · obtain ⟨box', hb', hw⟩ := refit_within t hbox
      ((Rect.clampWithin_sameSize _ _).upright (Rect.fromCenter_upright _ _ _))
    exact ⟨box', hb', (hw.trans (fitted_within box hinner)).contains⟩

theorem shrink_shrinks {p id : String} (hp : h.parent? id = some p) {r : Repair ℝ}
    (hb : Boxed h r.boxes) : Shrinks h p r.boxes (shrink h r id).boxes := by
  obtain ⟨old, hold, hup⟩ := hb id (Hierarchy.known_of_parent hp)
  have hcarries := refit_carries t r id old (old.scaleAboutCenter 0.9 0.9)
  simp only [shrink, hold]
  refine ⟨hcarries.mono fun _ he => he ▸ hp, fun c box hc hbox => ?_⟩
  by_cases he : c = id
  · subst he
    cases hold.symm.trans hbox
    obtain ⟨box', hb', hw⟩ := refit_within t hold (Rect.fromCenter_upright _ _ _)
    refine ⟨box', hb', hw.trans (Rect.fromCenter_within hup ?_ ?_)⟩
    · norm_num
      linarith [hup.width_nonneg]
    · norm_num
      linarith [hup.height_nonneg]
  · refine ⟨box, ?_, .refl box⟩
    rw [← hbox]
    refine hcarries.outside ?_
    rintro _ rfl hin
    exact he (t.siblings_disjoint hp hc hin (.refl c)).symm

/-- **Two siblings that were separated** do not overlap partially, and nothing but they and what is
in them has changed. -/
theorem separate_shrinks {p a b : String} (ha : h.parent? a = some p) (hb : h.parent? b = some p)
    (n : Nat) {r r' : Repair ℝ} (hboxed : Boxed h r.boxes) (hok : separate h a b n r = .ok r') :
    Shrinks h p r.boxes r'.boxes ∧ partiallyOverlap r'.boxes a b = false := by
  have apart : ∀ {r : Repair ℝ} {n : Nat}, partiallyOverlap r.boxes a b = false →
      separate h a b n r = .ok r' →
        Shrinks h p r.boxes r'.boxes ∧ partiallyOverlap r'.boxes a b = false := by
    intro r n hno hok
    rw [separate_of_apart hno] at hok
    cases hok
    exact ⟨.refl _ _, hno⟩
  induction n generalizing r with
  | zero =>
    cases hab : partiallyOverlap r.boxes a b with
    | false => exact apart hab hok
    | true =>
      rw [separate, if_pos hab] at hok
      cases hok
  | succ n ih =>
    cases hab : partiallyOverlap r.boxes a b with
    | false => exact apart hab hok
    | true =>
      rw [separate_of_overlap hab] at hok
      have h₁ := shrink_shrinks t ha hboxed
      have h₂ := shrink_shrinks t hb (h₁.boxed hboxed)
      obtain ⟨h₃, hno⟩ := ih (r := ⟨(shrink h (shrink h r a) b).boxes, r.corrections + 1⟩)
        (h₂.boxed (h₁.boxed hboxed)) hok
      exact ⟨(h₁.trans h₂).trans h₃, hno⟩

/-! ## The children of one container -/

/-- **Children that were pulled lie in the interior**, all of them: pulling one leaves the others
where they are. -/
theorem pulled_inside {p : String} {inner : Rect ℝ} (hinner : inner.Upright) {r : Repair ℝ}
    (hboxed : Boxed h r.boxes) :
    Carries h (fun c => h.parent? c = some p) r.boxes
        ((h.children p).foldl (pullInside h inner) r).boxes ∧
      ∀ c ∈ h.children p, ∃ box,
        ((h.children p).foldl (pullInside h inner) r).boxes.get? c = some box ∧
          inner.contains box = true := by
  refine Fold.keeps (fun done (r' : Repair ℝ) =>
    Carries h (fun c => h.parent? c = some p) r.boxes r'.boxes ∧
    ∀ c ∈ done, ∃ box, r'.boxes.get? c = some box ∧ inner.contains box = true)
    ⟨.refl _ _, by simp⟩ ?_
  rintro done x rest r' hs ⟨hcarries, hinside⟩
  have hx : h.parent? x = some p := t.mem_children.1 (hs ▸ by simp)
  have hpull := pullInside_carries t inner r' x
  refine ⟨hcarries.trans (hpull.mono fun _ he => he ▸ hx), fun c hc => ?_⟩
  rcases List.mem_append.1 hc with hc | hc
  · have hp : h.parent? c = some p := t.mem_children.1 (hs ▸ List.mem_append_left _ hc)
    have hne : x ≠ c := by
      rintro rfl
      have hnd := hs ▸ t.nodupChildren p
      exact (List.nodup_append.1 hnd).2.2 x hc x (.head _) rfl
    rw [hpull.outside]
    · exact hinside c hc
    · rintro _ rfl hin
      exact hne (t.siblings_disjoint hx hp hin (.refl c))
  · obtain rfl := List.mem_singleton.1 hc
    obtain ⟨box, hbox, -⟩ := hcarries.boxed hboxed _ (Hierarchy.known_of_parent hx)
    exact pullInside_inside t hinner hbox

end

/-! ## The pairs of one container -/

/-- Separates pairs one after the other. -/
def separateAll {α : Type} [Scalar α] (h : Hierarchy) (retries : Nat)
    (pairs : List (String × String)) (r : Repair α) : Except (FailedRepair α) (Repair α) :=
  pairs.foldlM (fun r q => separate h q.1 q.2 retries r) r

/-- Separating the pairs of children of a container, from the boxes of `r` on, leaves two of them
in the boxes `s` when their turn comes. -/
def LeavesPair (h : Hierarchy) (retries : Nat) (p : String) (r : Repair ℝ) (a b : String)
    (s : Boxes ℝ) : Prop :=
  ∃ before after r₁ r₂, pairsOf (h.children p) = before ++ (a, b) :: after ∧
    separateAll h retries before r = .ok r₁ ∧ separate h a b retries r₁ = .ok r₂ ∧ s = r₂.boxes

/-- Two children of a container, left by `left` in some boxes, do not overlap partially there, and
stay in them. -/
def Separated (h : Hierarchy) (p : String) (left : String → String → Boxes ℝ → Prop)
    (boxes : Boxes ℝ) (a b : String) : Prop :=
  ∃ s, left a b s ∧ Boxed h s ∧ partiallyOverlap s a b = false ∧ ChildrenWithin h p s boxes

theorem parent?_of_mem_pairsOf (t : h.IsTree) {p : String} {q : String × String}
    (hq : q ∈ pairsOf (h.children p)) : h.parent? q.1 = some p ∧ h.parent? q.2 = some p :=
  (mem_of_mem_pairsOf (a := q.1) (b := q.2) hq).imp t.mem_children.1 t.mem_children.1

/-- **All pairs of children are separated**, and the last one stays so. -/
theorem separateAll_separated (t : h.IsTree) {retries : Nat} {p : String} {r r' : Repair ℝ}
    (hboxed : Boxed h r.boxes) (hok : separateAll h retries (pairsOf (h.children p)) r = .ok r') :
    Shrinks h p r.boxes r'.boxes ∧
      (∀ q ∈ pairsOf (h.children p),
        Separated h p (LeavesPair h retries p r) r'.boxes q.1 q.2) ∧
      ∀ before q, pairsOf (h.children p) = before ++ [q] →
        partiallyOverlap r'.boxes q.1 q.2 = false := by
  refine (Fold.keepsM (fun done (s : Repair ℝ) => separateAll h retries done r = .ok s ∧
    Shrinks h p r.boxes s.boxes ∧
    (∀ q ∈ done, Separated h p (LeavesPair h retries p r) s.boxes q.1 q.2) ∧
    ∀ before q, done = before ++ [q] → partiallyOverlap s.boxes q.1 q.2 = false)
    ⟨rfl, .refl _ _, by simp, by simp⟩ ?_ hok).2
  rintro done q rest s s' hs ⟨hdone, hshrinks, hpairs, -⟩ hsep
  obtain ⟨ha, hb⟩ := parent?_of_mem_pairsOf t (p := p) (q := q) (by simp [hs])
  have hsboxed := hshrinks.boxed hboxed
  obtain ⟨hstep, hno⟩ := separate_shrinks t ha hb retries hsboxed hsep
  refine ⟨Fold.concatM hdone hsep, hshrinks.trans hstep, fun q' hq' => ?_, fun before q' hl => ?_⟩
  · rcases List.mem_append.1 hq' with hq' | hq'
    · obtain ⟨s₀, hleft, hb₀, hno₀, hwithin⟩ := hpairs q' hq'
      exact ⟨s₀, hleft, hb₀, hno₀, hwithin.trans hstep.within⟩
    · obtain rfl := List.mem_singleton.1 hq'
      exact ⟨s'.boxes, ⟨done, rest, s, s', hs, hdone, hsep, rfl⟩, hstep.boxed hsboxed, hno,
        .refl p s'.boxes⟩
  · obtain ⟨-, he⟩ := List.append_inj' hl rfl
    exact List.singleton_inj.1 he ▸ hno

/-! ## One container -/

/-- What the repair of a container leaves behind. -/
structure Repaired (h : Hierarchy) (padding : ℝ × ℝ) (left : String → String → Boxes ℝ → Prop)
    (p : String) (boxes : Boxes ℝ) : Prop where
  inside : ∀ {c pbox box}, h.parent? c = some p → boxes.get? p = some pbox →
    boxes.get? c = some box → (pbox.deflate padding.1 padding.2).contains box = true
  separated : ∀ q ∈ pairsOf (h.children p), Separated h p left boxes q.1 q.2
  last : ∀ before q, pairsOf (h.children p) = before ++ [q] →
    partiallyOverlap boxes q.1 q.2 = false

/-- Only the boxes of the container and its children matter. -/
theorem Repaired.of_eq {padding : ℝ × ℝ} {left left' : String → String → Boxes ℝ → Prop}
    {p : String} {boxes boxes' : Boxes ℝ} (t : h.IsTree) (hr : Repaired h padding left p boxes)
    (hleft : ∀ a b s, left a b s → left' a b s) (hp : boxes'.get? p = boxes.get? p)
    (hc : ∀ c, h.parent? c = some p → boxes'.get? c = boxes.get? c) :
    Repaired h padding left' p boxes' where
  inside {c pbox box} hpar hpb hb := hr.inside hpar (hp ▸ hpb) (hc c hpar ▸ hb)
  separated q hq := by
    obtain ⟨s, hs, hboxed, hno, hwithin⟩ := hr.separated q hq
    exact ⟨s, hleft _ _ s hs, hboxed, hno, fun c box hpar hb => hc c hpar ▸ hwithin c box hpar hb⟩
  last before q hl := by
    obtain ⟨ha, hb⟩ := parent?_of_mem_pairsOf t (p := p) (q := q) (by simp [hl])
    have hno := hr.last before q hl
    unfold partiallyOverlap at hno ⊢
    rwa [hc _ ha, hc _ hb]

/-- The repair of a container, from the boxes of `r` on, leaves two of its children in the boxes
`s` when their turn comes. -/
def LeavesAt (h : Hierarchy) (padding : ℝ × ℝ) (retries : Nat) (p : String) (r : Repair ℝ)
    (a b : String) (s : Boxes ℝ) : Prop :=
  ∃ pbox, r.boxes.get? p = some pbox ∧ LeavesPair h retries p
    ((h.children p).foldl (pullInside h (pbox.deflate padding.1 padding.2)) r) a b s

/-- **The repair of one container.** -/
theorem enforceAt_repaired (t : h.IsTree) {padding : ℝ × ℝ} {retries : Nat} {r r' : Repair ℝ}
    {p : String} (hp : h.containers.contains p = true) (hboxed : Boxed h r.boxes)
    (hok : enforceAt h padding retries r p = .ok r') :
    Carries h (fun c => h.parent? c = some p) r.boxes r'.boxes ∧
      Repaired h padding (LeavesAt h padding retries p r) p r'.boxes := by
  obtain ⟨pbox, hpbox, -⟩ := hboxed p hp
  unfold enforceAt at hok
  simp only [hpbox] at hok
  obtain ⟨hpulled, hinside⟩ := pulled_inside t (p := p)
    (Rect.deflate_upright pbox padding.1 padding.2) hboxed
  obtain ⟨hshrinks, hpairs, hlast⟩ := separateAll_separated t (hpulled.boxed hboxed) hok
  have hcarries := hpulled.trans hshrinks.toCarries
  refine ⟨hcarries, fun {c pbox' box} hc hpb hb => ?_, fun q hq => ?_, hlast⟩
  · -- the box of the container stays, and its children shrink in place after they were pulled
    rw [hcarries.outside fun c hc hin => t.not_encloses_parent hc hin, hpbox] at hpb
    obtain ⟨box₀, hb₀, hin⟩ := hinside c (t.mem_children.2 hc)
    obtain ⟨box₁, hb₁, hw⟩ := hshrinks.within c box₀ hc hb₀
    cases hpb
    cases hb₁.symm.trans hb
    exact Rect.contains_of_within hw hin
  · obtain ⟨s, hleft, hs⟩ := hpairs q hq
    exact ⟨s, ⟨pbox, hpbox, hleft⟩, hs⟩

/-! ## All containers -/

/-- The run leaves two siblings in the boxes `s` when their turn comes. -/
def Leaves (h : Hierarchy) (boxes : Boxes ℝ) (padding : ℝ × ℝ) (retries : Nat) (a b : String)
    (s : Boxes ℝ) : Prop :=
  ∃ done p rest r, h.preOrder = done ++ p :: rest ∧
    done.foldlM (enforceAt h padding retries) ⟨boxes, 0⟩ = .ok r ∧
    LeavesAt h padding retries p r a b s

/-- The box of one of the two containers contains that of the other one. -/
def Nests (boxes : Boxes ℝ) (a b : String) : Prop :=
  ∃ x y, boxes.get? a = some x ∧ boxes.get? b = some y ∧ (x.contains y = true ∨ y.contains x = true)

/-- Siblings that came apart are apart for good. -/
theorem Separated.apart {p a b : String} {left : String → String → Boxes ℝ → Prop}
    {boxes : Boxes ℝ} (ha : h.parent? a = some p) (hb : h.parent? b = some p)
    (hs : Separated h p left boxes a b)
    (hnests : ∀ s, left a b s → Nests s a b → partiallyOverlap boxes a b = false) :
    partiallyOverlap boxes a b = false := by
  obtain ⟨s, hleft, hboxed, hno, hwithin⟩ := hs
  obtain ⟨x, hx, -⟩ := hboxed a (Hierarchy.known_of_parent ha)
  obtain ⟨y, hy, -⟩ := hboxed b (Hierarchy.known_of_parent hb)
  rcases (partiallyOverlap_eq_false_iff hx hy).1 hno with hapart | hin
  · exact hwithin.apart ha hb hx hy hapart
  · exact hnests s hleft ⟨x, y, hx, hy, hin⟩

/-- **The repair of all containers.** Each keeps an upright box, and what its own repair leaves
behind is there at the end: no later one reaches its box or those of its children. -/
theorem enforce_repaired (t : h.IsTree) {boxes : Boxes ℝ} (hboxed : Boxed h boxes)
    {padding : ℝ × ℝ} {retries : Nat} {r : Repair ℝ}
    (hok : enforce h boxes padding retries = .ok r) :
    Boxed h r.boxes ∧ ∀ p, h.containers.contains p = true →
      Repaired h padding (Leaves h boxes padding retries) p r.boxes := by
  have key := Fold.keepsM (fun done (r : Repair ℝ) =>
    done.foldlM (enforceAt h padding retries) ⟨boxes, 0⟩ = .ok r ∧ Boxed h r.boxes ∧
    ∀ p ∈ done, Repaired h padding (Leaves h boxes padding retries) p r.boxes)
    ⟨rfl, hboxed, by simp⟩ (fun done id rest r r' hs hI hstep => ?_) hok
  · exact ⟨key.2.1, fun p hp => key.2.2 p (t.mem_preOrder.2 hp)⟩
  obtain ⟨hdone, hb, hrepaired⟩ := hI
  have hat := t.preOrder_split hs
  obtain ⟨hcarries, hid⟩ := enforceAt_repaired t hat.known hb hstep
  refine ⟨Fold.concatM hdone hstep, hcarries.boxed hb, fun p hp => ?_⟩
  rcases List.mem_append.1 hp with hp | hp
  · -- nothing nested in a later container is an earlier one, or a child of it
    have hout : ∀ c, h.parent? c = some id → ¬ h.Encloses c p := fun c hc hin =>
      t.not_mem_done_of_encloses hs ((Hierarchy.Encloses.of_parent hc).trans hin) hp
    refine (hrepaired p hp).of_eq t (fun _ _ _ hl => hl) (hcarries.outside hout) fun c hc =>
      hcarries.outside fun c' hc' hin => ?_
    rcases Relation.ReflTransGen.cases_tail hin with rfl | ⟨q, hq, hpar⟩
    · cases hc.symm.trans hc'
      exact hat.notDone hp
    · cases hc.symm.trans hpar
      exact hout c' hc' hq
  · obtain rfl := List.mem_singleton.1 hp
    exact hid.of_eq t (fun _ _ _ hl => ⟨done, p, rest, r, hs, hdone, hl⟩) rfl fun _ _ => rfl

/-- Repaired boxes pass the check when no pair of siblings overlaps partially. -/
theorem validate_of_repaired (t : h.IsTree) {padding : ℝ × ℝ}
    {left : String → String → Boxes ℝ → Prop} {boxes : Boxes ℝ} (hboxed : Boxed h boxes)
    (hrepaired : ∀ p, h.containers.contains p = true → Repaired h padding left p boxes)
    (hall : ∀ p, ∀ q ∈ pairsOf (h.children p), partiallyOverlap boxes q.1 q.2 = false) :
    validate h boxes padding = .ok () := by
  refine (validate_ok_iff t).2 ⟨fun {id} hid => (hboxed id hid).imp fun _ hbox => hbox.1,
    fun {p c pbox box} hc => (hrepaired p (t.parentKnown hc)).inside hc,
    fun {p a b} ha hb hne => ?_⟩
  refine (find?_pairsOf_eq_none_iff t).1 (List.find?_eq_none.2 fun q hq => ?_) a b ha hb hne
  simpa using hall p q hq

/-- **Repaired boxes.** When a run gets through, every container has an upright box in the padded
interior of its parent's box. The boxes pass the check exactly when no two siblings overlap
partially of which one contained the other when their turn came; with at most two children in each
container they always do. -/
theorem enforce_validates_iff {d : Diagram} (he : Hierarchy.extract d = .ok h) {boxes : Boxes ℝ}
    (hboxed : Boxed h boxes) {padding : ℝ × ℝ} {retries : Nat} {r : Repair ℝ}
    (hok : enforce h boxes padding retries = .ok r) :
    Boxed h r.boxes ∧
      (∀ p c pbox box, h.parent? c = some p → r.boxes.get? p = some pbox →
        r.boxes.get? c = some box → (pbox.deflate padding.1 padding.2).contains box = true) ∧
      (validate h r.boxes padding = .ok () ↔
        ∀ a b s, Leaves h boxes padding retries a b s → Nests s a b →
          partiallyOverlap r.boxes a b = false) ∧
      ((∀ p, (h.children p).length ≤ 2) → validate h r.boxes padding = .ok ()) := by
  have t := (Hierarchy.extract_treeOf he).toIsTree
  obtain ⟨hb, hrepaired⟩ := enforce_repaired t hboxed hok
  refine ⟨hb, fun p c pbox box hc => (hrepaired p (t.parentKnown hc)).inside hc,
    ⟨fun hok a b s hleft _ => ?_, fun hnests => ?_⟩, fun htwo => ?_⟩
  · obtain ⟨done, p, rest, r', -, -, pbox, -, before, after, -, -, hpairs, -⟩ := hleft
    have hm : (a, b) ∈ pairsOf (h.children p) := by simp [hpairs]
    obtain ⟨ha, hb⟩ := parent?_of_mem_pairsOf t hm
    exact ((validate_ok_iff t).1 hok).apart ha hb (ne_of_mem_pairsOf (t.nodupChildren p) hm)
  · refine validate_of_repaired t hb hrepaired fun p q hq => ?_
    obtain ⟨hqa, hqb⟩ := parent?_of_mem_pairsOf t hq
    have hseparated := (hrepaired p (t.parentKnown hqa)).separated q hq
    exact hseparated.apart hqa hqb (hnests q.1 q.2)
  · refine validate_of_repaired t hb hrepaired fun p q hq => ?_
    have hlast := (hrepaired p (t.parentKnown (parent?_of_mem_pairsOf t hq).1)).last
    exact hlast [] q (pairsOf_eq_singleton (htwo p) hq)

/-! ## Three siblings -/

/-- Three areas on a sheet. -/
def huddle : Diagram := .build "sheet" [.area "A" "sheet", .area "B" "sheet", .area "C" "sheet"]

def huddleTree : Hierarchy where
  root := "sheet"
  containers := .ofList [("A", ⟨"A", some "sheet", [], [], 1⟩),
    ("B", ⟨"B", some "sheet", [], [], 1⟩), ("C", ⟨"C", some "sheet", [], [], 1⟩),
    ("sheet", ⟨"sheet", none, ["A", "B", "C"], [], 0⟩)]
  owners := .empty

theorem extract_huddle : Hierarchy.extract huddle = .ok huddleTree := rfl

/-- `B` lies in `A`, near its edge, and `C` overlaps `A` on the other side. -/
noncomputable def huddleBoxes : Boxes ℝ :=
  .ofList [("A", ⟨100, 0, 200, 100⟩), ("B", ⟨102, 40, 110, 50⟩), ("C", ⟨198, 0, 298, 100⟩),
    ("sheet", ⟨0, 0, 400, 100⟩)]

theorem huddleBoxes_boxed : Boxed huddleTree huddleBoxes := fun id hid => by
  have hmem := Table.contains_ofList_iff.1 hid
  simp only [List.map_cons, List.map_nil, List.mem_cons, List.not_mem_nil, or_false] at hmem
  rcases hmem with rfl | rfl | rfl | rfl <;> exact ⟨_, rfl, by constructor <;> norm_num⟩

theorem enforceAt_of_leaf {α : Type} [Scalar α] {padding : α × α} {retries : Nat} (r : Repair α)
    {p : String} (hp : h.children p = []) : enforceAt h padding retries r p = .ok r := by
  unfold enforceAt
  split
  · rfl
  · rw [hp]
    rfl

theorem shrink_get? {r : Repair ℝ} {id : String} {box : Rect ℝ} (hbox : r.boxes.get? id = some box)
    (hleaf : h.subtree id = [id]) (hw : Scalar.epsilon < box.width)
    (hh : Scalar.epsilon < box.height) (x : String) :
    (shrink h r id).boxes.get? x =
      if x = id then some (box.scaleAboutCenter 0.9 0.9) else r.boxes.get? x := by
  simp only [shrink, hbox, Repair.refit, get?_mapSubtree, hleaf, List.mem_singleton]
  split
  · rename_i he
    rw [he, hbox, Option.map_some, Rect.scaleAboutCenter,
      AxisMap.applyRect_between hw hh (Rect.fromCenter_upright _ _ _)]
  · exact Option.map_id'

/-- The areas after `A` and `C` have been shrunk once. -/
noncomputable def huddleShrunk : Repair ℝ :=
  ⟨(shrink huddleTree (shrink huddleTree ⟨huddleBoxes, 0⟩ "A") "C").boxes, 1⟩

theorem huddleShrunk_boxes : huddleShrunk.boxes.get? "A" = some ⟨105, 5, 195, 95⟩ ∧
    huddleShrunk.boxes.get? "B" = some ⟨102, 40, 110, 50⟩ ∧
    huddleShrunk.boxes.get? "C" = some ⟨203, 5, 293, 95⟩ := by
  have hA : ∀ x, (shrink huddleTree ⟨huddleBoxes, 0⟩ "A").boxes.get? x =
      if x = "A" then some (Rect.scaleAboutCenter ⟨100, 0, 200, 100⟩ 0.9 0.9)
      else huddleBoxes.get? x :=
    shrink_get? rfl rfl (by norm_num [Scalar.epsilon, Rect.width_eq])
      (by norm_num [Scalar.epsilon, Rect.height_eq])
  have hC : ∀ x, huddleShrunk.boxes.get? x =
      if x = "C" then some (Rect.scaleAboutCenter ⟨198, 0, 298, 100⟩ 0.9 0.9)
      else (shrink huddleTree ⟨huddleBoxes, 0⟩ "A").boxes.get? x :=
    shrink_get? (hA "C") rfl (by norm_num [Scalar.epsilon, Rect.width_eq])
      (by norm_num [Scalar.epsilon, Rect.height_eq])
  refine ⟨(hC "A").trans ((hA "A").trans ?_), (hC "B").trans (hA "B"), (hC "C").trans ?_⟩ <;>
    norm_num [Rect.scaleAboutCenter, Rect.fromCenter_eq, Rect.width_eq, Rect.height_eq]

/-- The pair of `A` and `B` is left as it is, since `A` contains `B`. -/
theorem huddle_separated :
    separateAll huddleTree 8 [("A", "B"), ("A", "C"), ("B", "C")] ⟨huddleBoxes, 0⟩ =
      .ok huddleShrunk := by
  obtain ⟨hA, hB, hC⟩ := huddleShrunk_boxes
  have hAB : separate huddleTree "A" "B" 8 ⟨huddleBoxes, 0⟩ = .ok ⟨huddleBoxes, 0⟩ :=
    separate_of_apart ((partiallyOverlap_eq_false_iff (x := ⟨100, 0, 200, 100⟩)
      (y := ⟨102, 40, 110, 50⟩) rfl rfl).2
      (.inr (.inl (Rect.Within.contains (by constructor <;> norm_num))))) 8
  have hAC : separate huddleTree "A" "C" 8 ⟨huddleBoxes, 0⟩ = .ok huddleShrunk := by
    rw [separate_of_overlap]
    · refine separate_of_apart (r := huddleShrunk) ((partiallyOverlap_eq_false_iff hA hC).2
        (.inl ?_)) 7
      rw [← Bool.not_eq_true, Rect.intersects_iff]
      norm_num
    · rw [← Bool.not_eq_false, partiallyOverlap_eq_false_iff (x := ⟨100, 0, 200, 100⟩)
        (y := ⟨198, 0, 298, 100⟩) rfl rfl, ← Bool.not_eq_true, Rect.intersects_iff,
        Rect.contains_iff, Rect.contains_iff]
      norm_num [Scalar.epsilon]
  have hBC : separate huddleTree "B" "C" 8 huddleShrunk = .ok huddleShrunk := by
    refine separate_of_apart ((partiallyOverlap_eq_false_iff hB hC).2 (.inl ?_)) 8
    rw [← Bool.not_eq_true, Rect.intersects_iff]
    norm_num
  exact Fold.concatM (l := [("A", "B"), ("A", "C")])
    (Fold.concatM (l := [("A", "B")]) (Fold.concatM (l := []) rfl hAB) hAC) hBC

theorem huddle_repaired : enforce huddleTree huddleBoxes (0, 0) 8 = .ok huddleShrunk := by
  have hsheet : (⟨0, 0, 400, 100⟩ : Rect ℝ).deflate 0 0 = ⟨0, 0, 400, 100⟩ := by
    rw [Rect.deflate_of_room] <;> norm_num [Rect.width_eq, Rect.height_eq]
  have hpull : ["A", "B", "C"].foldl
      (pullInside huddleTree (Rect.deflate ⟨0, 0, 400, 100⟩ 0 0)) ⟨huddleBoxes, 0⟩ =
        ⟨huddleBoxes, 0⟩ := by
    refine Fold.stays fun c hc => ?_
    simp only [List.mem_cons, List.not_mem_nil, or_false] at hc
    rw [hsheet]
    rcases hc with rfl | rfl | rfl
    all_goals
      refine pullInside_of_inside rfl (Rect.Within.contains ?_)
      constructor <;> norm_num
  have hfirst : enforceAt huddleTree (0, 0) 8 ⟨huddleBoxes, 0⟩ "sheet" = .ok huddleShrunk := by
    show separateAll huddleTree 8 [("A", "B"), ("A", "C"), ("B", "C")] (["A", "B", "C"].foldl
      (pullInside huddleTree (Rect.deflate ⟨0, 0, 400, 100⟩ 0 0)) ⟨huddleBoxes, 0⟩) = _
    rw [hpull, huddle_separated]
  have hrest : ["A", "B", "C"].foldlM (enforceAt huddleTree (0, 0) 8) huddleShrunk =
      .ok huddleShrunk := Fold.staysM (m := Except (FailedRepair ℝ)) fun p hp => by
    simp only [List.mem_cons, List.not_mem_nil, or_false] at hp
    rcases hp with rfl | rfl | rfl <;> exact enforceAt_of_leaf _ rfl
  show ["sheet", "A", "B", "C"].foldlM (enforceAt huddleTree (0, 0) 8) ⟨huddleBoxes, 0⟩ = _
  rw [List.foldlM_cons, hfirst]
  exact hrest

/-- `A` has been shrunk for the sake of `C`, so that `B` sticks out of it. -/
theorem huddle_overlaps : partiallyOverlap huddleShrunk.boxes "A" "B" = true := by
  obtain ⟨hA, hB, -⟩ := huddleShrunk_boxes
  rw [← Bool.not_eq_false, partiallyOverlap_eq_false_iff hA hB, ← Bool.not_eq_true,
    Rect.intersects_iff, Rect.contains_iff, Rect.contains_iff]
  norm_num [Scalar.epsilon]

theorem huddle_invalid : validate huddleTree huddleShrunk.boxes (0, 0) ≠ .ok () := fun hok => by
  have t := (Hierarchy.extract_treeOf extract_huddle).toIsTree
  have hapart := ((validate_ok_iff t).1 hok).apart (p := "sheet") (a := "A") (b := "B") rfl rfl
    (by decide)
  cases huddle_overlaps.symm.trans hapart

/-- **Repaired boxes that do not pass the check.** -/
theorem huddle_escapes : Hierarchy.extract huddle = .ok huddleTree ∧
    Boxed huddleTree huddleBoxes ∧ ∃ r, enforce huddleTree huddleBoxes (0, 0) 8 = .ok r ∧
      validate huddleTree r.boxes (0, 0) ≠ .ok () :=
  ⟨extract_huddle, huddleBoxes_boxed, _, huddle_repaired, huddle_invalid⟩

/-- One of the three siblings contained another one when their turn came, and does not contain it
at the end. -/
theorem huddle_leaves : ∃ a b s, Leaves huddleTree huddleBoxes (0, 0) 8 a b s ∧ Nests s a b ∧
    partiallyOverlap huddleShrunk.boxes a b = true := by
  obtain ⟨-, -, hiff, -⟩ := enforce_validates_iff extract_huddle huddleBoxes_boxed huddle_repaired
  by_contra hnone
  refine huddle_invalid (hiff.2 fun a b s hleft hnests => ?_)
  by_contra hab
  exact hnone ⟨a, b, s, hleft, hnests, by simpa using hab⟩

end Containment

end NestedLayout
