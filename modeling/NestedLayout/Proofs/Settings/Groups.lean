import NestedLayout.Proofs.Binary32.Ranges
import NestedLayout.Proofs.Document.Places
import NestedLayout.Settings.File

/-!
# Groups of settings

A settings file holds groups, each a record of settings that may be left out. What a group comes to
is said once, for every group and every notation.

* `Follows`: a setting is the standard one unless the file gives it, and then it is the value given,
  brought into its range.
* `ReadsGroup.record`: a group has what each of its settings keeps; `Follows.within` is for the
  settings of a group inside the file.
* `Follows.le`, `Follows.share`: the range of a setting. A share that is given as no number is kept
  as it is.
-/

set_option autoImplicit false

namespace NestedLayout

open Places
open Scalar (atLeast)

namespace Settings

section
variable {R : Type → Type} [Format R] [Places R]

/-! ## What a file gives -/

/-- Where the group of settings at `p` gives the one at position `i` of the list of their names:
under its name, or at its position if the group is a list. A `null` gives nothing. -/
def Gives (names : List String) (p : Place R) (i : Nat) (q : Place R) : Prop :=
  ((∃ name, names.idxOf? name = some i ∧ Member p name q) ∨ i < names.length ∧ Item p i q) ∧
    ¬ IsNull q

/-- **A setting is the standard one** unless the file gives it, and then it is the value given,
brought into its range. The file gives it once at most. -/
structure Follows {β γ : Type} (given : Place R → Prop) (r : R β) (bring : β → γ)
    (standard value : γ) : Prop where
  unset : (∀ q, ¬ given q) → value = standard
  set : ∀ q, given q → ∃ v, Reads r q v ∧ value = bring v
  unique : ∀ q q', given q → given q' → q = q'

/-- A setting that is raised to a lower bound. -/
abbrev Raised (given : Place R → Prop) (lo standard value : Float32) : Prop :=
  Follows given Format.single (atLeast · lo) standard value

/-- A setting that is clamped between two bounds. -/
abbrev Clamped (given : Place R → Prop) (lo hi standard value : Float32) : Prop :=
  Follows given Format.single (between lo hi) standard value

namespace Follows

variable {β γ : Type} {given : Place R → Prop} {r : R β} {bring : β → γ} {std value : γ}

theorem standard : Follows (fun _ => False) r bring std std where
  unset _ := rfl
  set _ := False.elim
  unique _ _ := False.elim

theorem read {q : Place R} {v : β} (hv : Reads r q v) : Follows (· = q) r bring std (bring v) where
  unset h := absurd rfl (h q)
  set := fun _ h => ⟨v, h ▸ hv, rfl⟩
  unique := fun _ _ h h' => h.trans h'.symm

/-- The value is the standard one or what the file gives. -/
theorem cases (h : Follows given r bring std value) :
    value = std ∨ ∃ q v, given q ∧ Reads r q v ∧ value = bring v := by
  by_cases hg : ∃ q, given q
  · obtain ⟨q, hq⟩ := hg
    obtain ⟨v, hv, hvalue⟩ := h.set q hq
    exact .inr ⟨q, v, hq, hv, hvalue⟩
  · exact .inl (h.unset (not_exists.1 hg))

end Follows

/-! ## Reading a group -/

variable {σ : Type} {P : (Nat → Place R → Prop) → σ → Prop}

/-- Reading a setting keeps a property of the settings so far and of the places that gave them. -/
structure Kept (P : (Nat → Place R → Prop) → σ → Prop) (i : Nat) (f : Field R σ) :
    Prop where
  exact : Exact f.read
  aliases : f.aliases = []
  step : ∀ {q : Place R} {update : σ → σ}, Reads f.read q update →
    (IsNull q ∧ ∀ s, update s = s) ∨ ¬ IsNull q ∧ ∀ {given : Nat → Place R → Prop} {s : σ},
      P given s → P (Function.update given i (· = q)) (update s)

theorem kept_setting {β : Type} {i : Nat} {name : String} {r : R β} {set : β → σ → σ} (hr : Exact r)
    (hstep : ∀ {q : Place R} {v : β} {given : Nat → Place R → Prop} {s : σ},
      Reads r q v → P given s → P (Function.update given i (· = q)) (set v s)) :
    Kept P i (setting name r set) where
  exact := exact_map _ (exact_optional hr)
  aliases := rfl
  step h := by
    obtain ⟨v, hv, rfl⟩ := reads_map h
    obtain ⟨hnull, rfl⟩ | ⟨hnull, u, hu, rfl⟩ := reads_optional hv
    · exact .inl ⟨hnull, fun s => rfl⟩
    · exact .inr ⟨hnull, fun hs => hstep hu hs⟩

/-- Every setting of a group is kept, from position `i` on. -/
def AllKept (P : (Nat → Place R → Prop) → σ → Prop) : Nat → List (Field R σ) → Prop
  | _, [] => True
  | i, f :: fields => Kept P i f ∧ AllKept P (i + 1) fields

section
variable {fields : List (Field R σ)} {k : Nat} {f : Field R σ}

theorem AllKept.get (h : AllKept P k fields) {i : Nat} (hf : fields[i]? = some f) :
    Kept P (k + i) f := by
  induction fields generalizing k i with
  | nil => cases hf
  | cons g fields ih =>
    cases i with
    | zero =>
      cases hf
      exact h.1
    | succ i => exact (Nat.succ_add_eq_add_succ k i) ▸ ih h.2 hf

theorem AllKept.of_mem (h : AllKept P k fields) (hf : f ∈ fields) : ∃ i, Kept P i f := by
  obtain ⟨i, hi⟩ := List.getElem?_of_mem hf
  exact ⟨k + i, h.get hi⟩

end

/-- A place with `null` counts as none. -/
theorem given_null {given : Nat → Place R → Prop} {i : Nat} {q : Place R}
    (hnew : ∀ q', ¬ given i q') (hnull : IsNull q) :
    (fun j q' => Function.update given i (· = q) j q' ∧ ¬ IsNull q') =
      fun j q' => given j q' ∧ ¬ IsNull q' := by
  funext j q'
  by_cases hj : j = i
  · subst hj
    rw [Function.update_self]
    exact propext ⟨fun ⟨h, hvalue⟩ => absurd (h ▸ hnull) hvalue, fun h => absurd h.1 (hnew q')⟩
  · rw [Function.update_of_ne hj]

/-- A place with a value is the only one of its setting. -/
theorem given_value {given : Nat → Place R → Prop} {i : Nat} {q : Place R} (hvalue : ¬ IsNull q) :
    (fun j q' => Function.update given i (· = q) j q' ∧ ¬ IsNull q') =
      Function.update (fun j q' => given j q' ∧ ¬ IsNull q') i (· = q) := by
  funext j q'
  by_cases hj : j = i
  · subst hj
    simp only [Function.update_self]
    exact propext ⟨And.left, fun h => ⟨h, h ▸ hvalue⟩⟩
  · simp only [Function.update_of_ne hj]

/-- **What a group of settings has**, with the places that give its settings. -/
structure ReadsGroup (P : (Nat → Place R → Prop) → σ → Prop) (names : List String)
    (r : R σ) : Prop where
  exact : Exact r
  reads : ∀ {p : Place R} {s : σ}, Reads r p s → P (Gives names p) s

/-- A group has what each of its settings keeps. -/
theorem ReadsGroup.record {names : List String} {fields : List (Field R σ)} {start : σ}
    (hnames : fields.map Field.name = names) (hkept : AllKept P 0 fields)
    (hstart : P (fun _ _ => False) start) : ReadsGroup P names (Format.record start fields) := by
  have hexact (f : Field R σ) (hf : f ∈ fields) : Exact f.read :=
    (hkept.of_mem hf).elim fun _ h => h.exact
  have haliases (f : Field R σ) (hf : f ∈ fields) : f.aliases = [] :=
    (hkept.of_mem hf).elim fun _ h => h.aliases
  refine ⟨exact_record start hexact, fun {p s} h => ?_⟩
  have hgives : Gives names p = fun i q =>
      (Field.leads fields (Member p) i q ∨ i < fields.length ∧ Item p i q) ∧ ¬ IsNull q := by
    funext i q
    simp only [Gives, Field.leads, Field.index?_eq_idxOf? haliases, ← hnames, List.length_map]
  rw [hgives]
  refine (reads_record hexact h).keeps
    (P := fun given s => P (fun i q => given i q ∧ ¬ IsNull q) s)
    (fun {given i f q update acc} hf hnew hread hacc => ?_) (by simpa only [false_and] using hstart)
  have hfield : Kept P i f := i.zero_add ▸ hkept.get hf
  obtain ⟨hnull, hid⟩ | ⟨hvalue, hstep⟩ := hfield.step hread
  · rw [given_null hnew hnull, hid]
    exact hacc
  · rw [given_value hvalue]
    exact hstep hacc

/-- **A group inside the settings** follows the file if it follows the place of the group. -/
theorem Follows.within {names : List String} {r : R σ} {given : Place R → Prop} {std s : σ}
    (h : Follows given r id std s) (hr : ReadsGroup P names r) (hstd : P (fun _ _ => False) std) :
    P (fun i q => ∃ g, given g ∧ Gives names g i q) s := by
  by_cases hg : ∃ g, given g
  · obtain ⟨g, hg⟩ := hg
    obtain ⟨s, hs, rfl⟩ := h.set g hg
    refine cast (congrArg (P · s) (funext₂ fun i q => propext ?_)) (hr.reads hs)
    exact ⟨fun hq => ⟨g, hg, hq⟩, fun ⟨g', hg', hq⟩ => h.unique g g' hg hg' ▸ hq⟩
  · rw [h.unset (not_exists.1 hg)]
    refine cast (congrArg (P · std) (funext₂ fun i q => propext ?_)) hstd
    exact ⟨False.elim, fun ⟨g, hq, _⟩ => hg ⟨g, hq⟩⟩

/-! ## Ranges -/

/-- A share between two bounds, which is no number where `nan` says so. -/
structure Share (nan : Prop) (lo hi x : Float32) : Prop where
  mem : ¬ nan → lo ≤ x ∧ x ≤ hi
  isNaN : nan → x.isNaN = true

theorem Follows.le {given : Place R → Prop} {lo std value : Float32} (hstd : lo ≤ std)
    (h : Raised given lo std value) : lo ≤ value := by
  obtain rfl | ⟨q, v, -, -, rfl⟩ := h.cases
  · exact hstd
  · exact Binary32.le_atLeast (Binary32.le_self_iff.2 (Binary32.isNaN_of_le hstd).1) v

/-- **A share is in its range**, unless the file gives it as no number, and then it is none. -/
theorem Follows.share {given : Place R → Prop} {lo hi std value : Float32} (hlo : lo ≤ std)
    (hhi : std ≤ hi) (hrange : lo ≤ hi) (h : Clamped given lo hi std value) :
    Share (∃ q, given q ∧ IsNaN q) lo hi value where
  mem hnumber := by
    obtain rfl | ⟨q, v, hq, hv, rfl⟩ := h.cases
    · exact ⟨hlo, hhi⟩
    · rw [between, dif_pos hrange]
      refine Binary32.clamp_mem hrange (Bool.eq_false_of_not_eq_true fun hnan => ?_)
      exact hnumber ⟨q, hq, (isNaN_single_iff hv).1 hnan⟩
  isNaN := fun ⟨q, hq, hnan⟩ => by
    obtain ⟨v, hv, rfl⟩ := h.set q hq
    have hnan := (isNaN_single_iff hv).2 hnan
    rw [between, dif_pos hrange, Binary32.clamp_of_isNaN hrange hnan]
    exact hnan

end

end Settings

end NestedLayout
