import NestedLayout.Proofs.Pipeline
import Mathlib.Data.List.FinRange
import Mathlib.Data.Set.Basic

/-!
# The order of phases

`Pipeline.arrange` takes one phase after the other, always the first in the list that has what it
needs. Phases may share a name, so their order is one of places in the list.

* `arrangeAfter_round`: a round takes the earliest place that is met, or none is met.
* `Greedy`, `arrangeAfter_rounds`: an order in which every place is the earliest left that is met;
  the rounds make such an order of all places, or they stop at places of which none is met.
* `Deadlock`, `deadlock_of_stuck`: places that wait for each other, as those that are left do when
  none of them is met; `Greedy.not_deadlock`: in a greedy order of all places there are none.
* `Provided`, `Deadlock.exists_outside`: what the phases can provide one after the other, and not
  from within a deadlock alone.
* `arrange_spec`: when phases can be arranged, in which order, and what the error names otherwise.
-/

set_option autoImplicit false

namespace NestedLayout.Pipeline

/-! ## The first member with a property -/

section
variable {β γ : Type} {p : β → Bool} {l : List β}

theorem extractFirst?_eq_some {b : β} {rest : List β} (h : extractFirst? p l = some (b, rest)) :
    ∃ before after, l = before ++ b :: after ∧ rest = before ++ after ∧ p b = true ∧
      ∀ x ∈ before, p x = false := by
  induction l generalizing rest with
  | nil => cases h
  | cons a l ih =>
    rw [extractFirst?] at h
    split at h
    · rename_i ha
      cases h
      exact ⟨[], l, rfl, rfl, ha, by simp⟩
    · rename_i ha
      obtain ⟨⟨b', rest'⟩, hfound, he⟩ := Option.map_eq_some_iff.1 h
      cases he
      obtain ⟨before, after, rfl, rfl, hb, hbefore⟩ := ih hfound
      exact ⟨a :: before, after, rfl, rfl, hb,
        List.forall_mem_cons.2 ⟨Bool.eq_false_iff.2 ha, hbefore⟩⟩

theorem extractFirst?_eq_none (h : extractFirst? p l = none) : ∀ x ∈ l, p x = false := by
  induction l with
  | nil => simp
  | cons a l ih =>
    rw [extractFirst?] at h
    split at h
    · cases h
    · rename_i ha
      exact List.forall_mem_cons.2 ⟨Bool.eq_false_iff.2 ha, ih (Option.map_eq_none_iff.1 h)⟩

theorem extractFirst?_map (f : β → γ) (p : γ → Bool) (l : List β) :
    extractFirst? p (l.map f) =
      (extractFirst? (p ∘ f) l).map fun found => (f found.1, found.2.map f) := by
  induction l with
  | nil => rfl
  | cons a l ih =>
    rw [List.map_cons, extractFirst?, extractFirst?, ih]
    by_cases ha : p (f a) = true
    · simp [ha]
    · simp [ha, Function.comp_def]

end

/-! ## Rounds -/

variable {σ : Type} {phases : List (Phase σ)}

/-- Everything that the phase at a place needs is carried at one of the places. -/
def MetBy (places : List (Fin phases.length)) (i : Fin phases.length) : Prop :=
  ∀ need ∈ phases[i].needs, ∃ j ∈ places, phases[j].name = need

/-- The names at the places, the last one first. -/
def namesAt (places : List (Fin phases.length)) : List String :=
  (places.map fun i => phases[i].name).reverse

theorem namesAt_concat (places : List (Fin phases.length)) (i : Fin phases.length) :
    namesAt (places ++ [i]) = phases[i].name :: namesAt places := by
  simp [namesAt]

theorem mem_namesAt {places : List (Fin phases.length)} {need : String} :
    need ∈ namesAt places ↔ ∃ j ∈ places, phases[j].name = need := by
  simp [namesAt]

theorem ready_iff {places : List (Fin phases.length)} {i : Fin phases.length} :
    ready (namesAt places) phases[i] = true ↔ MetBy places i := by
  simp only [ready, List.all_eq_true, List.contains_iff_mem, mem_namesAt, MetBy]

/-- **A round** takes the earliest place that is met behind those taken before, or no place is
met. Then the error is about the first place left and something that it needs. -/
theorem arrangeAfter_round (start : List (Fin phases.length)) (first : Fin phases.length)
    (left : List (Fin phases.length)) :
    (∃ before i after, first :: left = before ++ i :: after ∧ MetBy start i ∧
      (∀ k ∈ before, ¬ MetBy start k) ∧
      arrangeAfter (namesAt start) ((first :: left).map phases.get) =
        (arrangeAfter (namesAt (start ++ [i])) ((before ++ after).map phases.get)).map
          (phases.get i :: ·)) ∨
    (∀ k ∈ first :: left, ¬ MetBy start k) ∧ ∃ need ∈ phases[first].needs,
      (∀ j ∈ start, phases[j].name ≠ need) ∧
      arrangeAfter (namesAt start) ((first :: left).map phases.get) =
        .error (.phaseOrder phases[first].name need) := by
  have hready : ∀ {k}, (ready (namesAt start) ∘ phases.get) k = false ↔ ¬ MetBy start k :=
    fun {k} => by
      rw [← ready_iff, Bool.not_eq_true]
      rfl
  have hmap := extractFirst?_map phases.get (ready (namesAt start)) (first :: left)
  cases hfound : extractFirst? (ready (namesAt start) ∘ phases.get) (first :: left) with
  | some found =>
    obtain ⟨i, rest⟩ := found
    obtain ⟨before, after, hsplit, rfl, hi, hbefore⟩ := extractFirst?_eq_some hfound
    rw [hfound, Option.map_some] at hmap
    refine .inl ⟨before, i, after, hsplit, ready_iff.1 hi, fun k hk => hready.1 (hbefore k hk), ?_⟩
    rw [arrangeAfter_of_some hmap, namesAt_concat]
    rfl
  | none =>
    have hnone : ∀ k ∈ first :: left, ¬ MetBy start k := fun k hk =>
      hready.1 (extractFirst?_eq_none hfound k hk)
    rw [hfound, Option.map_none] at hmap
    have hfirst : ready (namesAt start) phases[first] = false := hready.2 (hnone first (.head _))
    obtain ⟨need, hmissing⟩ : ∃ need, missing? (namesAt start) phases[first] = some need :=
      Option.ne_none_iff_exists'.1 fun h => by
        rw [missing?_eq_none_iff_ready.1 h] at hfirst
        cases hfirst
    obtain ⟨hneed, hnot⟩ := missing?_eq_some hmissing
    refine .inr ⟨hnone, need, hneed, fun j hj hname => hnot (mem_namesAt.2 ⟨j, hj, hname⟩), ?_⟩
    calc arrangeAfter (namesAt start) (phases.get first :: left.map phases.get)
      _ = .error (.phaseOrder phases[first].name
          ((missing? (namesAt start) phases[first]).getD "")) := arrangeAfter_of_none hmap
      _ = .error (.phaseOrder phases[first].name need) := by rw [hmissing, Option.getD_some]

/-! ## Greedy orders -/

/-- An order of places behind those taken at the start: each is met by the places before it, and of
the places that are left it is the earliest that is. -/
structure Greedy (start order : List (Fin phases.length)) : Prop where
  met : ∀ done i rest, order = done ++ i :: rest → MetBy (start ++ done) i
  earliest : ∀ done i rest, order = done ++ i :: rest →
    ∀ k ∈ rest, k < i → ¬ MetBy (start ++ done) k

theorem Greedy.nil (start : List (Fin phases.length)) : Greedy start [] where
  met done _ _ h := by simp at h
  earliest done _ _ h := by simp at h

theorem Greedy.cons {start order : List (Fin phases.length)} {i : Fin phases.length}
    (hi : MetBy start i) (hfirst : ∀ k ∈ order, k < i → ¬ MetBy start k)
    (h : Greedy (start ++ [i]) order) : Greedy start (i :: order) where
  met done j rest he := by
    rcases List.cons_eq_append_iff.1 he with ⟨rfl, he⟩ | ⟨done, rfl, rfl⟩
    · cases he
      rwa [List.append_nil]
    · simpa using h.met done j rest rfl
  earliest done j rest he k hk hlt := by
    rcases List.cons_eq_append_iff.1 he with ⟨rfl, he⟩ | ⟨done, rfl, rfl⟩
    · cases he
      rw [List.append_nil]
      exact hfirst k hk hlt
    · simpa using h.earliest done j rest rfl k hk hlt

theorem Greedy.tail {start order : List (Fin phases.length)} {i : Fin phases.length}
    (h : Greedy start (i :: order)) : Greedy (start ++ [i]) order where
  met done j rest he := by
    subst he
    simpa using h.met (i :: done) j rest rfl
  earliest done j rest he := by
    subst he
    simpa using h.earliest (i :: done) j rest rfl

/-- **The rounds** take all places that are left, in a greedy order, or they stop at places of which
none is met. Then the error is about one of these, and something that no place before carries. -/
theorem arrangeAfter_rounds (start rest : List (Fin phases.length))
    (hrest : rest.Pairwise (· < ·)) :
    (∃ order, order.Perm rest ∧ Greedy start order ∧
      arrangeAfter (namesAt start) (rest.map phases.get) = .ok (order.map phases.get)) ∨
    ∃ taken i left, (taken ++ i :: left).Perm rest ∧
      (∀ k ∈ i :: left, ¬ MetBy (start ++ taken) k) ∧ ∃ need ∈ phases[i].needs,
        (∀ j ∈ start ++ taken, phases[j].name ≠ need) ∧
        arrangeAfter (namesAt start) (rest.map phases.get) =
          .error (.phaseOrder phases[i].name need) := by
  -- on the number of places left, as the one that is taken may stand anywhere among them
  induction hlen : rest.length generalizing start rest with
  | zero =>
    obtain rfl := List.length_eq_zero_iff.1 hlen
    exact .inl ⟨[], .refl _, .nil start, by rw [List.map_nil, arrangeAfter]⟩
  | succ n ih =>
    obtain ⟨first, left, rfl⟩ := List.exists_cons_of_length_eq_add_one hlen
    rcases arrangeAfter_round start first left with
      ⟨before, i, after, hsplit, hi, hbefore, hround⟩ | ⟨hnone, need, hneed, hnot, hround⟩
    · rw [hsplit] at hrest hlen ⊢
      rw [hsplit] at hround
      have hperm : (before ++ i :: after).Perm (i :: (before ++ after)) := List.perm_middle
      have hlen' : (before ++ after).length = n := by simpa using hperm.length_eq.symm.trans hlen
      have hsorted : (before ++ after).Pairwise (· < ·) :=
        hrest.sublist ((List.sublist_cons_self i after).append_left before)
      have hafter : ∀ k ∈ after, i < k :=
        (List.pairwise_cons.1 (List.pairwise_append.1 hrest).2.1).1
      rcases ih (start ++ [i]) (before ++ after) hsorted hlen' with
        ⟨order, horder, hgreedy, hok⟩ | ⟨taken, j, left', hall, hstuck, need, hneed, hnot, herr⟩
      · have hfirst : ∀ k ∈ order, k < i → ¬ MetBy start k := fun k hk hlt => by
          rcases List.mem_append.1 (horder.mem_iff.1 hk) with hk | hk
          · exact hbefore k hk
          · exact absurd (hafter k hk) hlt.asymm
        refine .inl ⟨i :: order, (horder.cons i).trans hperm.symm, hgreedy.cons hi hfirst, ?_⟩
        rw [hround, hok]
        rfl
      · refine .inr ⟨i :: taken, j, left', (hall.cons i).trans hperm.symm, by simpa using hstuck,
          need, hneed, by simpa using hnot, ?_⟩
        rw [hround, herr]
        rfl
    · refine .inr ⟨[], first, left, .refl _, by simpa using hnone, need, hneed, by simpa using hnot,
        hround⟩

/-! ## What can be provided -/

/-- Some phase carries the name, and everything that this phase needs is provided in turn. -/
inductive Provided (phases : List (Phase σ)) : String → Prop
  | carried {p : Phase σ} (mem : p ∈ phases) (needs : ∀ need ∈ p.needs, Provided phases need) :
    Provided phases p.name

/-- Places that wait for each other: each needs a name that is carried at no other places. -/
structure Deadlock (places : Set (Fin phases.length)) : Prop where
  nonempty : places.Nonempty
  waits : ∀ i ∈ places, ∃ need ∈ phases[i].needs, ∀ j, phases[j].name = need → j ∈ places

/-- A deadlock does not hold all places that carry a name that can be provided. -/
theorem Deadlock.exists_outside {places : Set (Fin phases.length)} (h : Deadlock places)
    {name : String} (hname : Provided phases name) : ∃ j, phases[j].name = name ∧ j ∉ places := by
  induction hname with
  | carried mem _ ih =>
    obtain ⟨i, hi, rfl⟩ := List.getElem_of_mem mem
    refine ⟨⟨i, hi⟩, rfl, fun hplace => ?_⟩
    obtain ⟨need, hneed, hinside⟩ := h.waits _ hplace
    obtain ⟨j, hj, hout⟩ := ih need hneed
    exact hout (hinside j hj)

/-- With the names at the start those at the places of a greedy order are provided. -/
theorem Greedy.provided {start order : List (Fin phases.length)} (h : Greedy start order)
    (hstart : ∀ i ∈ start, Provided phases phases[i].name) :
    ∀ i ∈ order, Provided phases phases[i].name := by
  induction order generalizing start with
  | nil => simp
  | cons i order ih =>
    have hi : Provided phases phases[i].name := by
      refine .carried (List.getElem_mem _) fun need hneed => ?_
      obtain ⟨j, hj, rfl⟩ := h.met [] i order rfl need hneed
      exact hstart j (by simpa using hj)
    refine List.forall_mem_cons.2 ⟨hi, ih h.tail fun j hj => ?_⟩
    rcases List.mem_append.1 hj with hj | hj
    · exact hstart j hj
    · obtain rfl := List.mem_singleton.1 hj
      exact hi

/-- **In a greedy order of all places** none wait for each other. -/
theorem Greedy.not_deadlock {order : List (Fin phases.length)} (h : Greedy [] order)
    (hall : ∀ i, i ∈ order) (places : Set (Fin phases.length)) : ¬ Deadlock places := by
  intro hdead
  obtain ⟨i, hi⟩ := hdead.nonempty
  obtain ⟨need, hneed, hinside⟩ := hdead.waits i hi
  obtain ⟨done, rest, hsplit⟩ := List.append_of_mem (hall i)
  obtain ⟨j, -, rfl⟩ := h.met done i rest hsplit need hneed
  obtain ⟨k, hk, hout⟩ := hdead.exists_outside (h.provided (by simp) j (hall j))
  exact hout (hinside k hk)

/-- **Places that are left** when none of them is met wait for each other, if every name that they
need is declared. -/
theorem deadlock_of_stuck {taken left : List (Fin phases.length)} (hne : left ≠ [])
    (hall : ∀ k, k ∈ taken ∨ k ∈ left) (hstuck : ∀ k ∈ left, ¬ MetBy taken k) :
    Deadlock {k | k ∈ left} where
  nonempty := List.exists_mem_of_ne_nil left hne
  waits i hi := by
    obtain ⟨need, hneed, hnot⟩ : ∃ need ∈ phases[i].needs, ∀ j ∈ taken, phases[j].name ≠ need := by
      simpa [MetBy] using hstuck i hi
    exact ⟨need, hneed, fun j hj => (hall j).resolve_left fun hj' => hnot j hj' hj⟩

/-! ## Arrangements -/

/-- Either some phase needs a name that is not declared, or the order is that of the rounds. -/
theorem arrange_eq_rounds (phases : List (Phase σ)) :
    (∃ p ∈ phases, ∃ need ∈ p.needs, (∀ q ∈ phases, q.name ≠ need) ∧
      arrange phases = .error (.phaseOrder p.name need)) ∨
    (∀ p ∈ phases, ∀ need ∈ p.needs, ∃ q ∈ phases, q.name = need) ∧
      arrange phases = arrangeAfter [] phases := by
  have hdeclared : ∀ {need}, need ∈ phases.map (·.name) ↔ ∃ q ∈ phases, q.name = need :=
    List.mem_map
  cases hfound : phases.findSome? fun p =>
      (missing? (phases.map (·.name)) p).map (LayoutError.phaseOrder p.name) with
  | some e =>
    obtain ⟨p, hp, he⟩ := List.exists_of_findSome?_eq_some hfound
    obtain ⟨need, hmissing, rfl⟩ := Option.map_eq_some_iff.1 he
    obtain ⟨hneed, hnot⟩ := missing?_eq_some hmissing
    refine .inl ⟨p, hp, need, hneed, fun q hq hname => hnot (hdeclared.2 ⟨q, hq, hname⟩), ?_⟩
    simp only [arrange, hfound]
  | none =>
    refine .inr ⟨fun p hp need hneed => ?_, by simp only [arrange, hfound]⟩
    have hnone := Option.map_eq_none_iff.1 (List.findSome?_eq_none_iff.1 hfound p hp)
    exact hdeclared.1 (missing?_eq_none_iff.1 hnone need hneed)

/-- Phases of which all needs are declared are arranged in a greedy order of all places, or there is
a deadlock and the error is about something that cannot be provided. -/
theorem arrangeAfter_cases (phases : List (Phase σ)) :
    (∃ order : List (Fin phases.length), order.Perm (List.finRange phases.length) ∧
      Greedy [] order ∧ arrangeAfter [] phases = .ok (order.map phases.get)) ∨
    (∃ places : Set (Fin phases.length), Deadlock places) ∧
      ∃ p ∈ phases, ∃ need ∈ p.needs, ¬ Provided phases need ∧
        arrangeAfter [] phases = .error (.phaseOrder p.name need) := by
  have hrounds := arrangeAfter_rounds [] (List.finRange phases.length) (List.pairwise_lt_finRange _)
  rw [List.map_get_finRange] at hrounds
  refine hrounds.imp id ?_
  rintro ⟨taken, i, left, hperm, hstuck, need, hneed, hnot, herr⟩
  have hall : ∀ k, k ∈ taken ∨ k ∈ i :: left := fun k =>
    List.mem_append.1 (hperm.mem_iff.2 (List.mem_finRange k))
  have hdead := deadlock_of_stuck (List.cons_ne_nil i left) hall hstuck
  refine ⟨⟨_, hdead⟩, phases[i], List.getElem_mem _, need, hneed, fun hprovided => ?_, herr⟩
  obtain ⟨j, hj, hout⟩ := hdead.exists_outside hprovided
  exact hnot j ((hall j).resolve_right hout) hj

/-- **The order of phases.** Phases can be arranged when every name that they need is declared and
no phases are in a deadlock. The arrangement is then a greedy order of all places. Otherwise the
error names a phase and something it needs that is not declared or cannot be provided. -/
theorem arrange_spec (phases : List (Phase σ)) :
    ((∃ arranged, arrange phases = .ok arranged) ↔
      (∀ p ∈ phases, ∀ need ∈ p.needs, ∃ q ∈ phases, q.name = need) ∧
        ¬ ∃ places : Set (Fin phases.length), Deadlock places) ∧
    (∀ arranged, arrange phases = .ok arranged →
      ∃ order : List (Fin phases.length), order.Perm (List.finRange phases.length) ∧
        arranged = order.map phases.get ∧ Greedy [] order) ∧
    ∀ e, arrange phases = .error e → ∃ p ∈ phases, ∃ need ∈ p.needs,
      e = .phaseOrder p.name need ∧
        ((∀ q ∈ phases, q.name ≠ need) ∨ ¬ Provided phases need) := by
  rcases arrange_eq_rounds phases with ⟨p, hp, need, hneed, hnot, herr⟩ | ⟨hdeclared, hrounds⟩
  · refine ⟨⟨?_, fun ⟨hdeclared, _⟩ => ?_⟩, ?_, ?_⟩
    · rintro ⟨arranged, hok⟩
      cases herr.symm.trans hok
    · obtain ⟨q, hq, hname⟩ := hdeclared p hp need hneed
      exact absurd hname (hnot q hq)
    · intro arranged hok
      cases herr.symm.trans hok
    · intro e he
      cases herr.symm.trans he
      exact ⟨p, hp, need, hneed, rfl, .inl hnot⟩
  rw [hrounds]
  rcases arrangeAfter_cases phases with
    ⟨order, hperm, hgreedy, hok⟩ | ⟨hdead, p, hp, need, hneed, hnot, herr⟩
  · have hall : ∀ i, i ∈ order := fun i => hperm.mem_iff.2 (List.mem_finRange i)
    refine ⟨⟨fun _ => ⟨hdeclared, ?_⟩, fun _ => ⟨_, hok⟩⟩, ?_, ?_⟩
    · rintro ⟨places, hdead⟩
      exact hgreedy.not_deadlock hall places hdead
    · intro arranged he
      cases hok.symm.trans he
      exact ⟨order, hperm, rfl, hgreedy⟩
    · intro e he
      cases hok.symm.trans he
  · refine ⟨⟨?_, fun ⟨_, hfree⟩ => absurd hdead hfree⟩, ?_, ?_⟩
    · rintro ⟨arranged, hok⟩
      cases herr.symm.trans hok
    · intro arranged hok
      cases herr.symm.trans hok
    · intro e he
      cases herr.symm.trans he
      exact ⟨p, hp, need, hneed, rfl, .inr hnot⟩

end NestedLayout.Pipeline
