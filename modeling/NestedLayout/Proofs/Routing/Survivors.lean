import NestedLayout.Proofs.Routing.Settled

/-!
# What survives simplification

The last point of a path survives as it is. The first one is lost when the whole path is near it:
then the path shrinks to its last point. A point that is near the one kept before it goes as a
repetition, even if it is pinned. The one that stays in its place need not be pinned, so a sweep may
take it away; and the last point may replace it, which need not be near, as nearness does not carry
over.

* `head?_simplify_iff`: when the first point survives.
* `mem_simplify_of_isPinned`: a pinned point that is no repetition survives.
* `exists_kept`: a point near a repetition is kept, or replaced by the last point.
* `simplify_keeps`: so a point stays in sight when all that may stand in its place is pinned
  (`Held`).
* `shrunk_not_kept`: a path that loses its first point and a pinned one.
-/

set_option autoImplicit false

namespace NestedLayout

/-- Both coordinates are finite numbers. -/
def Point.Finite (p : Point Float32) : Prop := p.x.isFinite = true ∧ p.y.isFinite = true

instance : DecidablePred Point.Finite := fun _ => inferInstanceAs (Decidable (_ ∧ _))

theorem Point.Finite.near_self {p : Point Float32} (h : p.Finite) : p.near p = true := by
  simp only [Point.near, Binary32.abs_sub_self_le h.1, Binary32.abs_sub_self_le h.2, decide_true,
    Bool.and_self]

namespace Polyline

variable {α : Type} [Scalar α] {pinned path rest : List (Point α)} {a b p q : Point α}

/-! ## Ends -/

omit [Scalar α] in
/-- A path with two points or more runs from its first point to its last one. -/
theorem exists_runs_cons (a p : Point α) (rest : List (Point α)) :
    ∃ b, Runs (a :: p :: rest) a b := by
  obtain ⟨inner, b, hrest⟩ :=
    (List.eq_nil_or_concat (p :: rest)).resolve_left (List.cons_ne_nil _ _)
  exact ⟨b, inner, by rw [hrest, List.concat_eq_append]⟩

omit [Scalar α] in
theorem exists_runs (hpath : 2 ≤ path.length) : ∃ a b, Runs path a b := by
  match path, hpath with
  | a :: p :: rest, _ => exact ⟨a, exists_runs_cons a p rest⟩

/-- The last point of a path survives. -/
theorem getLast?_simplify (path pinned : List (Point α)) :
    (simplify path pinned).getLast? = path.getLast? := by
  by_cases hpath : 2 ≤ path.length
  · obtain ⟨a, b, hruns⟩ := exists_runs hpath
    obtain ⟨start, -, hsimple⟩ := simplify_runs pinned hruns
    rw [hsimple.getLast?, hruns.getLast?]
  · rw [simplify, if_pos (Nat.le_of_not_le hpath)]

/-- Sweeps keep the first point, so only repetitions can replace it. -/
theorem head?_simplify (hpath : 2 < path.length) (pinned : List (Point α)) :
    (simplify path pinned).head? = (dedup path).head? := by
  obtain ⟨a, b, hruns⟩ := exists_runs hpath.le
  obtain ⟨start, -, hdedup⟩ := dedup_runs hruns
  rw [simplify, if_neg (Nat.not_le.2 hpath), (settle_runs pinned hdedup).head?, hdedup.head?]

/-- A path that is near its first point shrinks to its last one. -/
theorem dedupFrom_of_near (hrest : ∀ p ∈ rest, a.near p = true) (hne : rest ≠ []) :
    dedupFrom a rest = [rest.getLast hne] := by
  fun_induction dedupFrom a rest with
  | case1 => exact absurd rfl hne
  | case2 => rfl
  | case3 a p hnear => exact absurd (hrest p (.head _)) hnear
  | case4 a p q rest _ ih =>
    rw [ih (fun p hp => hrest p (.tail _ hp)) (List.cons_ne_nil _ _), List.getLast_cons_cons]
  | case5 a p q rest hnear => exact absurd (hrest p (.head _)) hnear

/-- A path that leaves its first point keeps it. -/
theorem dedupFrom_of_far (hrest : ∃ p ∈ rest, a.near p = false) :
    ∃ q kept, dedupFrom a rest = a :: q :: kept := by
  fun_induction dedupFrom a rest with
  | case1 =>
    obtain ⟨p, hp, -⟩ := hrest
    cases hp
  | case2 a p hnear =>
    obtain ⟨p', hp, hfar⟩ := hrest
    rw [List.mem_singleton.1 hp, hnear] at hfar
    cases hfar
  | case3 a p => exact ⟨p, [], rfl⟩
  | case4 a p q rest hnear ih =>
    obtain ⟨p', hp, hfar⟩ := hrest
    rcases List.mem_cons.1 hp with rfl | hp
    · rw [hnear] at hfar
      cases hfar
    · exact ih ⟨p', hp, hfar⟩
  | case5 a p q rest =>
    obtain ⟨p', kept, hkept⟩ := List.exists_cons_of_ne_nil (dedupFrom_ne_nil p (q :: rest))
    exact ⟨p', kept, by rw [hkept]⟩

/-- **The first point of a path survives** if the path has no inner points, or leaves it, or comes
back to it in the end. -/
theorem head?_simplify_iff (a : Point α) (rest pinned : List (Point α)) :
    (simplify (a :: rest) pinned).head? = some a ↔
      rest.length ≤ 1 ∨ (∃ p ∈ rest, a.near p = false) ∨ (a :: rest).getLast? = some a := by
  by_cases hshort : rest.length ≤ 1
  · have hpath : (a :: rest).length ≤ 2 := Nat.succ_le_succ hshort
    rw [simplify, if_pos hpath]
    exact iff_of_true rfl (.inl hshort)
  have hlong : 1 < rest.length := Nat.lt_of_not_le hshort
  have hpath : 2 < (a :: rest).length := Nat.succ_lt_succ hlong
  rw [head?_simplify hpath, dedup]
  by_cases hfar : ∃ p ∈ rest, a.near p = false
  · obtain ⟨q, kept, hkept⟩ := dedupFrom_of_far hfar
    rw [hkept]
    exact iff_of_true rfl (.inr (.inl hfar))
  · have hne : rest ≠ [] := List.ne_nil_of_length_pos (Nat.zero_lt_of_lt hlong)
    have hnear : ∀ p ∈ rest, a.near p = true := fun p hp => by
      by_contra hp'
      exact hfar ⟨p, hp, Bool.eq_false_iff.2 hp'⟩
    rw [dedupFrom_of_near hnear hne, or_iff_right hshort, or_iff_right hfar,
      List.getLast?_cons, List.head?_cons, List.getLast?_eq_some_getLast hne, Option.getD_some]

/-! ## Pinned points -/

theorem mem_sweepFrom_of_isPinned (hp : p ∈ path) (hpinned : isPinned p pinned = true)
    (prev : Point α) : p ∈ sweepFrom pinned prev path := by
  fun_induction sweepFrom pinned prev path with
  | case1 => exact hp
  | case2 => exact hp
  | case3 prev p' q rest hdrop ih =>
    rcases List.mem_cons.1 hp with rfl | hp
    · rw [hpinned] at hdrop
      cases hdrop
    · exact ih hp
  | case4 prev p' q rest _ ih =>
    rcases List.mem_cons.1 hp with rfl | hp
    · exact .head _
    · exact .tail _ (ih hp)

theorem mem_sweep_of_isPinned (hp : p ∈ path) (hpinned : isPinned p pinned = true) :
    p ∈ sweep pinned path := by
  cases path with
  | nil => exact hp
  | cons first rest =>
    rcases List.mem_cons.1 hp with rfl | hp
    · exact .head _
    · exact .tail _ (mem_sweepFrom_of_isPinned hp hpinned first)

/-- **Sweeps keep pinned points.** -/
theorem mem_settle_of_isPinned (hp : p ∈ path) (hpinned : isPinned p pinned = true) :
    p ∈ settle pinned path := by
  fun_induction settle pinned path with
  | case1 => exact hp
  | case2 path _ next _ ih => exact ih (mem_sweep_of_isPinned hp hpinned)
  | case3 path _ next _ => exact mem_sweep_of_isPinned hp hpinned

/-- A pinned point that does not go as a repetition survives. -/
theorem mem_simplify_of_isPinned (hp : p ∈ dedup path) (hpinned : isPinned p pinned = true) :
    p ∈ simplify path pinned := by
  unfold simplify
  split
  · exact dedup_subset _ hp
  · exact mem_settle_of_isPinned hp hpinned

/-- The first point is kept, or the whole path is near it and so the last point replaces it. -/
theorem head_kept (a p : Point α) (rest : List (Point α)) : a ∈ dedupFrom a (p :: rest) ∨
    a.near ((a :: p :: rest).getLast (List.cons_ne_nil _ _)) = true := by
  obtain ⟨b, hruns⟩ := exists_runs_cons a p rest
  have hlast : (a :: p :: rest).getLast (List.cons_ne_nil _ _) = b :=
    Option.some.inj ((List.getLast?_eq_some_getLast _).symm.trans hruns.getLast?)
  rw [hlast]
  refine (dedupFrom_runs hruns).imp (fun h => ?_) And.right
  exact List.mem_of_mem_head? h.head?

/-- **In the place of each point** there is one near it, which is kept unless the last point of the
path replaces it. -/
theorem exists_kept (hnumbers : ∀ p ∈ a :: rest, p.near p = true) (hq : q ∈ a :: rest) :
    ∃ p ∈ a :: rest, p.near q = true ∧ (p ∈ dedupFrom a rest ∨
      p.near ((a :: rest).getLast (List.cons_ne_nil _ _)) = true) := by
  fun_induction dedupFrom a rest with
  | case1 a => exact ⟨q, hq, hnumbers q hq, .inl hq⟩
  | case2 a p hnear =>
    rcases List.mem_cons.1 hq with rfl | hp
    · exact ⟨q, hq, hnumbers q hq, .inr hnear⟩
    · exact ⟨q, hq, hnumbers q hq, .inl hp⟩
  | case3 a p => exact ⟨q, hq, hnumbers q hq, .inl hq⟩
  | case4 a p p' rest hnear ih =>
    have hsub : ∀ r ∈ a :: p' :: rest, r ∈ a :: p :: p' :: rest :=
      fun r hr => (List.mem_cons.1 hr).elim (fun h => h ▸ .head _) fun h => .tail _ (.tail _ h)
    by_cases hqp : q = p
    · -- the point repeats the first one, and that one is in its place
      exact ⟨a, .head _, hqp ▸ hnear, head_kept a p' rest⟩
    · have hq : q ∈ a :: p' :: rest := by
        simp only [List.mem_cons, hqp, false_or] at hq ⊢
        exact hq
      obtain ⟨r, hr, hrq, hkept⟩ := ih (fun r hr => hnumbers r (hsub r hr)) hq
      exact ⟨r, hsub r hr, hrq, hkept⟩
  | case5 a p p' rest hnear ih =>
    rcases List.mem_cons.1 hq with rfl | hq
    · exact ⟨q, .head _, hnumbers q (.head _), .inl (.head _)⟩
    · obtain ⟨r, hr, hrq, hkept⟩ := ih (fun r hr => hnumbers r (.tail _ hr)) hq
      exact ⟨r, .tail _ hr, hrq, hkept.imp (.tail _) id⟩

/-- The pinned points hold a point of a path: all that may stand in its place is pinned, and the
last point of the path is near it if that may replace what stands in its place. -/
def Held (pinned path : List (Point α)) (q : Point α) : Prop :=
  ∀ p ∈ path, p.near q = true → isPinned p pinned = true ∧
    ∀ last ∈ path.getLast?, p.near last = true → last.near q = true

theorem mem_dedup_of_mem_dedupFrom (hp : p ∈ dedupFrom a rest) : p ∈ dedup (a :: rest) := by
  rw [dedup]
  split
  · rename_i q hq
    rw [hq, List.mem_singleton] at hp
    exact hp ▸ .head _
  · exact hp

/-- **What the pinned points hold stays in sight.** -/
theorem Held.inSight (hheld : Held pinned path q) (hnumbers : ∀ p ∈ path, p.near p = true)
    (hq : q ∈ path) : ∃ p ∈ simplify path pinned, p.near q = true := by
  cases path with
  | nil => cases hq
  | cons a rest =>
    obtain ⟨p, hp, hpq, hkept⟩ := exists_kept hnumbers hq
    obtain ⟨hpinned, hlast⟩ := hheld p hp hpq
    rcases hkept with hkept | hnear
    · exact ⟨p, mem_simplify_of_isPinned (mem_dedup_of_mem_dedupFrom hkept) hpinned, hpq⟩
    · have hend := List.getLast?_eq_some_getLast (List.cons_ne_nil a rest)
      refine ⟨_, List.mem_of_getLast? ?_, hlast _ hend hnear⟩
      rw [getLast?_simplify, hend]

/-- The first point stays in sight. -/
theorem start_inSight (hnumbers : ∀ p ∈ a :: rest, p.near p = true) (pinned : List (Point α)) :
    ∃ start, (simplify (a :: rest) pinned).head? = some start ∧ a.near start = true := by
  have ha := hnumbers a (.head _)
  cases rest with
  | nil => exact ⟨a, rfl, ha⟩
  | cons p rest =>
    obtain ⟨b, hruns⟩ := exists_runs_cons a p rest
    obtain ⟨start, hmeets, hsimple⟩ := simplify_runs pinned hruns
    refine ⟨start, hsimple.head?, ?_⟩
    rcases hmeets with rfl | hnear
    · exact ha
    · exact hnear

/-- **What simplification keeps** of a path of finite points. Its last point survives. Its first one
stays in sight, and survives if the path has no inner points, or leaves it, or comes back to it in
the end. A pinned point survives when it does not go as a repetition, and when it does it stays in
sight if it is held. -/
theorem simplify_keeps {a : Point Float32} {rest : List (Point Float32)}
    (pinned : List (Point Float32)) (hfinite : ∀ p ∈ a :: rest, p.Finite) :
    (simplify (a :: rest) pinned).getLast? = (a :: rest).getLast? ∧
    (∃ start, (simplify (a :: rest) pinned).head? = some start ∧ a.near start = true) ∧
    ((simplify (a :: rest) pinned).head? = some a ↔
      rest.length ≤ 1 ∨ (∃ p ∈ rest, a.near p = false) ∨ (a :: rest).getLast? = some a) ∧
    (∀ q ∈ dedup (a :: rest), isPinned q pinned = true → q ∈ simplify (a :: rest) pinned) ∧
    ∀ q ∈ a :: rest, Held pinned (a :: rest) q →
      ∃ p ∈ simplify (a :: rest) pinned, p.near q = true := by
  have hnumbers : ∀ p ∈ a :: rest, p.near p = true := fun p hp => (hfinite p hp).near_self
  exact ⟨getLast?_simplify _ _, start_inSight hnumbers pinned, head?_simplify_iff a rest pinned,
    fun _ hq hpinned => mem_simplify_of_isPinned hq hpinned,
    fun _ hq hheld => hheld.inSight hnumbers hq⟩

/-- A path along an edge with a stop, which is nearly repeated. -/
def halting : List (Point Float32) := [⟨0.0, 0.0⟩, ⟨0.5, 0.0⟩, ⟨0.500004, 0.0⟩, ⟨1.0, 0.0⟩]

/-- With the stop pinned, the point that repeats it stays in sight. -/
theorem halting_keeps :
    (∀ p ∈ halting, p.Finite) ∧ Held [⟨0.5, 0.0⟩] halting ⟨0.500004, 0.0⟩ ∧
    (simplify halting [⟨0.5, 0.0⟩]).getLast? = some ⟨1.0, 0.0⟩ ∧
    (simplify halting [⟨0.5, 0.0⟩]).head? = some ⟨0.0, 0.0⟩ ∧
    ∃ p ∈ simplify halting [⟨0.5, 0.0⟩], p.near ⟨0.500004, 0.0⟩ = true := by
  have hfinite : ∀ p ∈ halting, p.Finite := by decide +kernel
  have hheld : Held [⟨0.5, 0.0⟩] halting ⟨0.500004, 0.0⟩ := by
    unfold Held
    decide +kernel
  obtain ⟨hlast, -, hfirst, -, hsight⟩ := simplify_keeps [⟨0.5, 0.0⟩] hfinite
  exact ⟨hfinite, hheld, hlast, hfirst.2 (.inr (.inl (by decide +kernel))),
    hsight _ (.tail _ (.tail _ (.head _))) hheld⟩

/-- A path of three points that are all near the first one. -/
def shrunk : List (Point Float32) := [⟨0.0, 0.0⟩, ⟨-0.000009, 0.0⟩, ⟨0.000009, 0.0⟩]

/-- **A path that loses its first point and a pinned one**: it shrinks to its last point, which is
near the first one but not near the other. -/
theorem shrunk_not_kept :
    shrunk ≠ [] ∧ (∀ p ∈ shrunk, p.Finite) ∧
    ((simplify shrunk [⟨-0.000009, 0.0⟩]).head?.map (·.x) ≠ shrunk.head?.map (·.x)) ∧
    ∃ q ∈ shrunk, isPinned q [⟨-0.000009, 0.0⟩] = true ∧
      ∀ p ∈ simplify shrunk [⟨-0.000009, 0.0⟩], p.near q = false := by
  refine ⟨List.cons_ne_nil _ _, ?_, ?_, ⟨-0.000009, 0.0⟩, .tail _ (.head _), ?_, ?_⟩
  all_goals decide +kernel

-- A pinned point can go without the help of the last one: the point in its place is not pinned, so
-- a sweep takes it away.
example : (simplify [⟨0.0, 0.0⟩, ⟨0.5, 0.0⟩, ⟨0.500009, 0.0⟩, ⟨1.0, 0.0⟩]
    [(⟨0.500018, 0.0⟩ : Point Float32)]).map (·.x) = [0.0, 1.0] := by decide +kernel

end Polyline

end NestedLayout
