import NestedLayout.Proofs.Routing.Between
import NestedLayout.Proofs.Routing.Rectilinear

/-!
# Simplification comes to rest

A sweep tests every point against the last one that it has kept and the next one of the old path, so
a point that goes changes the neighbours of others. Therefore the sweeps are repeated, and it is the
last one, in which nothing goes, that has seen every inner point between its final neighbours.

* `Settles`: the loop of sweeps itself, with the number of its rounds.
* `settle_settles`: it ends after at most as many rounds as the path has inner points.
* `Settles.sharp`: where it ends, every inner point is pinned or a turn that counts.
-/

set_option autoImplicit false

namespace NestedLayout.Polyline

variable {α : Type} [Scalar α] {pinned path out : List (Point α)} {rounds : Nat}

/-! ## The loop -/

/-- The first path ends up as the second one when it is swept for as long as it has inner points and
the sweep before has changed something. The number counts the sweeps. -/
inductive Settles (pinned : List (Point α)) : List (Point α) → Nat → List (Point α) → Prop where
  | bare {path : List (Point α)} (hpath : path.length ≤ 2) : Settles pinned path 0 path
  | still {path : List (Point α)} (hpath : 2 < path.length) (hsweep : sweep pinned path = path) :
    Settles pinned path 1 path
  | again {path out : List (Point α)} {rounds : Nat} (hpath : 2 < path.length)
    (hsweep : sweep pinned path ≠ path) (h : Settles pinned (sweep pinned path) rounds out) :
    Settles pinned path (rounds + 1) out

/-- A sweep that keeps the number of points has changed nothing. -/
theorem length_sweep_lt_iff :
    (sweep pinned path).length < path.length ↔ sweep pinned path ≠ path := by
  refine ⟨fun hlt he => ?_, fun hne => ?_⟩
  · rw [he] at hlt
    exact Nat.lt_irrefl _ hlt
  · exact (sweep_sublist pinned path).length_le.lt_of_ne fun he =>
      hne ((sweep_sublist pinned path).eq_of_length he)

/-- **The loop ends**: each round but the last takes an inner point away. -/
theorem settle_settles (pinned path : List (Point α)) :
    ∃ rounds ≤ bends path, Settles pinned path rounds (settle pinned path) := by
  fun_induction settle pinned path with
  | case1 path hpath => exact ⟨0, Nat.zero_le _, .bare hpath⟩
  | case2 path hpath next hlt ih =>
    obtain ⟨rounds, hrounds, hsettles⟩ := ih
    refine ⟨rounds + 1, ?_, .again (Nat.lt_of_not_le hpath) (length_sweep_lt_iff.1 hlt) hsettles⟩
    unfold bends at hrounds ⊢
    omega
  | case3 path hpath next hlt =>
    have hstill : sweep pinned path = path := by
      by_contra hne
      exact hlt (length_sweep_lt_iff.2 hne)
    refine ⟨1, ?_, ?_⟩
    · unfold bends
      omega
    · show Settles pinned path 1 (sweep pinned path)
      rw [hstill]
      exact .still (Nat.lt_of_not_le hpath) hstill

/-! ## Where it ends -/

theorem sharp_of_sweepFrom {prev : Point α} (h : sweepFrom pinned prev path = path) :
    Sharp pinned (prev :: path) := by
  fun_induction sweepFrom pinned prev path with
  | case1 => trivial
  | case2 => trivial
  | case3 prev p q rest _ ih =>
    -- what is left is too short to be the path with `p`
    have hle := length_sweepFrom_le pinned prev (q :: rest)
    rw [h] at hle
    exact absurd hle (Nat.not_succ_le_self _)
  | case4 prev p q rest hkept ih =>
    obtain ⟨-, hrest⟩ := List.cons.inj h
    refine ⟨?_, ih hrest⟩
    simpa [Classical.or_iff_not_imp_left] using hkept

/-- **A sweep that changes nothing** has found every inner point pinned or a turn that counts. -/
theorem sharp_of_sweep (h : sweep pinned path = path) : Sharp pinned path := by
  cases path with
  | nil => trivial
  | cons p rest => exact sharp_of_sweepFrom (List.cons.inj h).2

theorem Settles.sharp (h : Settles pinned path rounds out) : Sharp pinned out := by
  induction h with
  | @bare path hpath =>
    match path, hpath with
    | [], _ => trivial
    | [_], _ => trivial
    | [_, _], _ => trivial
  | still _ hsweep => exact sharp_of_sweep hsweep
  | again _ _ _ ih => exact ih

/-- In a sharp path this can be said of every point between two others. -/
theorem Sharp.of_infix {a b c : Point α} (h : Sharp pinned path) (hbetween : [a, b, c] <:+: path) :
    isPinned b pinned = true ∨ collinear a b c = false := by
  obtain ⟨pre, post, rfl⟩ := hbetween
  induction pre with
  | nil => exact h.1
  | cons p pre ih =>
    refine ih ?_
    match pre, h with
    | [], h => exact h.2
    | [_], h => exact h.2
    | _ :: _ :: _, h => exact h.2

/-! ## Simplification -/

theorem length_dedup_le (hpath : 2 ≤ path.length) : (dedup path).length ≤ path.length := by
  cases path with
  | nil => exact Nat.le_refl _
  | cons p rest =>
    have hle := (dedupFrom_sublist p rest).length_le
    rw [dedup]
    split
    · exact hpath
    · exact hle

/-- **Simplification comes to rest.** Its loop of sweeps ends, after at most as many rounds as the
path has inner points. What is left is no longer than the path and has no other points, and every
point between two others is pinned or a turn that counts. -/
theorem simplify_settles (pinned : List (Point α)) (hpath : 2 < path.length) :
    (∃ rounds ≤ bends path, Settles pinned (dedup path) rounds (simplify path pinned)) ∧
    (simplify path pinned).length ≤ path.length ∧
    (∀ p ∈ simplify path pinned, p ∈ path) ∧
    ∀ a b c, [a, b, c] <:+: simplify path pinned →
      isPinned b pinned = true ∨ collinear a b c = false := by
  have hsettle : simplify path pinned = settle pinned (dedup path) := if_neg (Nat.not_le.2 hpath)
  have hdedup := length_dedup_le hpath.le
  obtain ⟨rounds, hrounds, hsettles⟩ := settle_settles pinned (dedup path)
  rw [hsettle]
  refine ⟨⟨rounds, hrounds.trans (Nat.sub_le_sub_right hdedup 2), hsettles⟩,
    (settle_sublist pinned _).length_le.trans hdedup,
    fun p hp => dedup_subset path ((settle_sublist pinned _).subset hp),
    fun a b c hbetween => hsettles.sharp.of_infix hbetween⟩

/-- A path that goes back and forth on a detour. -/
def detour : List (Point Float32) :=
  [⟨0.0, 0.0⟩, ⟨1.0, 0.0⟩, ⟨1.0, 1.0⟩, ⟨1.0, 0.0⟩, ⟨2.0, 0.0⟩, ⟨2.0, 1.0⟩]

/-- The point where the detour starts is a turn at first, and only goes once the detour has gone. -/
theorem detour_settles :
    2 < detour.length ∧
    sweep [] detour ≠ detour ∧ sweep [] (sweep [] detour) ≠ sweep [] detour ∧
    (∃ rounds ≤ 4, Settles [] (dedup detour) rounds (simplify detour [])) ∧
    (simplify detour []).map (fun p => (p.x, p.y)) = [(0.0, 0.0), (2.0, 0.0), (2.0, 1.0)] ∧
    ∀ a b c, [a, b, c] <:+: simplify detour [] →
      isPinned b [] = true ∨ collinear a b c = false := by
  have hpath : 2 < detour.length := by decide
  obtain ⟨hends, -, -, hsharp⟩ := simplify_settles [] hpath
  have hfirst : (sweep [] detour).length < detour.length := by decide +kernel
  have hsecond : (sweep [] (sweep [] detour)).length < (sweep [] detour).length := by
    decide +kernel
  exact ⟨hpath, length_sweep_lt_iff.1 hfirst, length_sweep_lt_iff.1 hsecond, hends,
    by decide +kernel, hsharp⟩

end NestedLayout.Polyline
