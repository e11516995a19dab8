import Mathlib.Order.Basic

/-!
# Folds with a record of what is done

A layout walks over lists of containers and elements, and what it has to keep depends on which of
them came before. The invariant of such a walk is a relation `I done b` between the members that
were taken and the state they led to:

* `Fold.keeps` for plain folds, `Fold.keepsM` for folds that may stop, both from one fact per step;
* `Fold.failsM` for the member at which a fold stops, `Fold.eq_none_iff` and `Fold.keepsSome` for
  folds that stop without a word;
* `Fold.ok_iff` for folds that depend on the members alone in whether they stop, `Fold.guarded` for
  plain folds behind such a check;
* `Fold.reaches` for folds that never stop, whatever the monad (`Option`, `Except`).
-/

set_option autoImplicit false

namespace NestedLayout.Fold

variable {α β ε : Type}

/-- **A plain fold keeps an invariant** that each member of the list keeps in its place. -/
theorem keeps {f : β → α → β} {l : List α} {b : β} (I : List α → β → Prop) (start : I [] b)
    (step : ∀ done x rest b, l = done ++ x :: rest → I done b → I (done ++ [x]) (f b x)) :
    I l (l.foldl f b) := by
  suffices h : ∀ (rest done : List α) (b : β), l = done ++ rest → I done b →
      I l (rest.foldl f b) from h l [] b rfl start
  intro rest
  induction rest with
  | nil => intro done b hl hb; rw [hl, List.append_nil]; exact hb
  | cons x rest ih =>
    intro done b hl hb
    exact ih (done ++ [x]) (f b x) (by simpa using hl) (step done x rest b hl hb)

/-- A plain fold stays where each of its steps stays. -/
theorem stays {f : β → α → β} {l : List α} {b : β} (h : ∀ x ∈ l, f b x = b) : l.foldl f b = b := by
  refine keeps (fun _ b' => b' = b) rfl fun done x rest b' hl hb => ?_
  rw [hb]
  exact h x (by rw [hl]; simp)

/-- **A fold that may stop keeps an invariant** as far as it gets. -/
theorem keepsM {f : β → α → Except ε β} {l : List α} {b b' : β} (I : List α → β → Prop)
    (start : I [] b)
    (step : ∀ done x rest b b', l = done ++ x :: rest → I done b → f b x = .ok b' →
      I (done ++ [x]) b')
    (h : l.foldlM f b = .ok b') : I l b' := by
  suffices key : ∀ (rest done : List α) (b : β), l = done ++ rest → I done b →
      rest.foldlM f b = .ok b' → I l b' from key l [] b rfl start h
  intro rest
  induction rest with
  | nil => intro done b hl hb h; cases h; rw [hl, List.append_nil]; exact hb
  | cons x rest ih =>
    intro done b hl hb h
    rw [List.foldlM_cons] at h
    cases hx : f b x with
    | error e => rw [hx] at h; cases h
    | ok b₁ =>
      rw [hx] at h
      exact ih (done ++ [x]) b₁ (by simpa using hl) (step done x rest b b₁ hl hb hx) h

/-- One more step of a fold that got through. -/
theorem concatM {f : β → α → Except ε β} {l : List α} {x : α} {b b₁ b₂ : β}
    (hl : l.foldlM f b = .ok b₁) (hx : f b₁ x = .ok b₂) : (l ++ [x]).foldlM f b = .ok b₂ := by
  rw [List.foldlM_append, hl]
  show (f b₁ x >>= pure) = .ok b₂
  rw [hx]
  rfl

/-- **A fold that stops** does so at one member, in a state with the invariant. -/
theorem failsM {f : β → α → Except ε β} {l : List α} {b : β} {e : ε} (I : List α → β → Prop)
    (start : I [] b)
    (step : ∀ done x rest b b', l = done ++ x :: rest → I done b → f b x = .ok b' →
      I (done ++ [x]) b')
    (h : l.foldlM f b = .error e) :
    ∃ done x rest b', l = done ++ x :: rest ∧ I done b' ∧ f b' x = .error e := by
  suffices key : ∀ (rest done : List α) (b : β), l = done ++ rest → I done b →
      rest.foldlM f b = .error e →
      ∃ done x rest b', l = done ++ x :: rest ∧ I done b' ∧ f b' x = .error e from
    key l [] b rfl start h
  intro rest
  induction rest with
  | nil => intro done b hl hb h; cases h
  | cons x rest ih =>
    intro done b hl hb h
    rw [List.foldlM_cons] at h
    cases hx : f b x with
    | error e' =>
      rw [hx] at h
      cases h
      exact ⟨done, x, rest, b, hl, hb, hx⟩
    | ok b₁ =>
      rw [hx] at h
      exact ih (done ++ [x]) b₁ (by simpa using hl) (step done x rest b b₁ hl hb hx) h

/-- **A fold never stops** exactly when each of its steps goes on, where that depends on the member
alone. -/
theorem ok_iff {f : β → α → Except ε β} {P : α → Prop} {l : List α} {b : β}
    (hf : ∀ x ∈ l, ∀ b, (∃ b', f b x = .ok b') ↔ P x) :
    (∃ b', l.foldlM f b = .ok b') ↔ ∀ x ∈ l, P x := by
  induction l generalizing b with
  | nil => exact iff_of_true ⟨b, rfl⟩ (by simp)
  | cons x l ih =>
    obtain ⟨hx, hl⟩ := List.forall_mem_cons.1 hf
    rw [List.forall_mem_cons, ← hx b, List.foldlM_cons]
    cases hb : f b x with
    | error e => exact iff_of_false (fun ⟨_, h⟩ => nomatch h) (fun ⟨⟨_, h⟩, _⟩ => nomatch h)
    | ok b₁ =>
      show (∃ b', l.foldlM f b₁ = .ok b') ↔ _
      rw [ih hl]
      exact ⟨fun h => ⟨⟨b₁, rfl⟩, h⟩, fun h => h.2⟩

/-- **A plain fold behind a check** of each member. -/
theorem guarded {f : β → α → Except ε β} {g : β → α → β} {P : α → Prop}
    (hf : ∀ b x b', f b x = .ok b' ↔ P x ∧ g b x = b') {l : List α} {b b' : β} :
    l.foldlM f b = .ok b' ↔ (∀ x ∈ l, P x) ∧ l.foldl g b = b' := by
  induction l generalizing b with
  | nil => simp [pure, Except.pure]
  | cons x l ih =>
    rw [List.foldlM_cons, List.forall_mem_cons, and_assoc, List.foldl_cons, ← ih]
    by_cases hx : P x
    · rw [(hf b x _).2 ⟨hx, rfl⟩]
      exact (and_iff_right hx).symm
    · refine iff_of_false (fun h => ?_) fun h => hx h.1
      cases hb : f b x with
      | error e => rw [hb] at h; cases h
      | ok b₁ => exact hx ((hf b x b₁).1 hb).1

/-- A fold in `Option` that gets through keeps what each of its steps keeps. -/
theorem keepsSome {f : β → α → Option β} {l : List α} {b b' : β} (I : β → Prop) (start : I b)
    (step : ∀ x ∈ l, ∀ b b', I b → f b x = some b' → I b') (h : l.foldlM f b = some b') :
    I b' := by
  induction l generalizing b with
  | nil =>
    cases h
    exact start
  | cons x l ih =>
    rw [List.foldlM_cons] at h
    obtain ⟨b₁, hx, h⟩ := Option.bind_eq_some_iff.1 h
    exact ih (step x (.head _) b b₁ start hx) (fun y hy => step y (.tail _ hy)) h

/-- A fold in `Option` stops exactly when it comes to a member at which it does. -/
theorem eq_none_iff {f : β → α → Option β} {l : List α} {b : β} :
    l.foldlM f b = none ↔
      ∃ done x rest b', l = done ++ x :: rest ∧ done.foldlM f b = some b' ∧ f b' x = none := by
  induction l generalizing b with
  | nil => simp [pure]
  | cons x l ih =>
    rw [List.foldlM_cons]
    cases hx : f b x with
    | none =>
      refine ⟨fun _ => ⟨[], x, l, b, rfl, rfl, hx⟩, fun _ => rfl⟩
    | some b₁ =>
      show l.foldlM f b₁ = none ↔ _
      rw [ih]
      refine ⟨?_, ?_⟩
      · rintro ⟨done, y, rest, b', rfl, hdone, hy⟩
        refine ⟨x :: done, y, rest, b', rfl, ?_, hy⟩
        rw [List.foldlM_cons, hx]
        exact hdone
      · rintro ⟨done, y, rest, b', hsplit, hdone, hy⟩
        cases done with
        | nil =>
          cases hsplit
          cases hdone
          rw [hx] at hy
          cases hy
        | cons z done =>
          cases hsplit
          rw [List.foldlM_cons, hx] at hdone
          exact ⟨done, y, rest, b', rfl, hdone, hy⟩

/-- **A fold whose steps all succeed** ends in a state with the invariant. -/
theorem reaches {m : Type → Type} [Monad m] [LawfulMonad m] {f : β → α → m β} {l : List α} {b : β}
    (I : List α → β → Prop) (start : I [] b)
    (step : ∀ done x rest b, l = done ++ x :: rest → I done b →
      ∃ b', f b x = pure b' ∧ I (done ++ [x]) b') :
    ∃ b', l.foldlM f b = pure b' ∧ I l b' := by
  suffices h : ∀ (rest done : List α) (b : β), l = done ++ rest → I done b →
      ∃ b', rest.foldlM f b = pure b' ∧ I l b' from h l [] b rfl start
  intro rest
  induction rest with
  | nil => intro done b hl hb; exact ⟨b, rfl, by rw [hl, List.append_nil]; exact hb⟩
  | cons x rest ih =>
    intro done b hl hb
    obtain ⟨b₁, hx, hb₁⟩ := step done x rest b hl hb
    obtain ⟨b', hr, hb'⟩ := ih (done ++ [x]) b₁ (by simpa using hl) hb₁
    exact ⟨b', by rw [List.foldlM_cons, hx, pure_bind, hr], hb'⟩

/-- A fold stays where each of its steps stays. -/
theorem staysM {m : Type → Type} [Monad m] [LawfulMonad m] {f : β → α → m β} {l : List α} {b : β}
    (h : ∀ x ∈ l, f b x = pure b) : l.foldlM f b = pure b := by
  obtain ⟨b', hb', rfl⟩ := reaches (m := m) (f := f) (l := l) (fun _ b' => b' = b) rfl
    fun done x rest b' hl hb => ⟨b, hb ▸ h x (by rw [hl]; simp), rfl⟩
  exact hb'

end NestedLayout.Fold
