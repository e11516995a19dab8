import NestedLayout.Pipeline

/-!
# Runs of pipelines

* `arrangeAfter_of_some`, `arrangeAfter_of_none`: what one round of the arrangement comes to.
* `arrange_of_inOrder`: phases that already stand behind those that they need keep their order.
* `Completes`: from one state the phases lead to another one without a failure;
  `execute_completed_iff` finds this in the completed runs.
* `execute_map`: a change to the state that every phase passes on shows in the last state only.
* `execute_completed_split`: the report of one phase in a completed run, between the others.
* `execute_names`: whatever happens, every phase has its report.
* `execute_cases`: a run goes through, or one phase fails and the next ones are skipped.
* `execute_noting`: with such a change and one more note in the first phase, the report of that
  phase has the note as well.
-/

set_option autoImplicit false

namespace NestedLayout

variable {σ : Type}

/-- The step with a change to the state it leaves. -/
def Step.map (f : σ → σ) (step : Step σ) : Step σ := { step with state := f step.state }

/-- The step with one more note, the first. -/
def Step.noting (note : Note) (step : Step σ) : Step σ :=
  { step with notes := note :: step.notes }

/-- The run with a change to its last state. -/
def Run.map (f : σ → σ) (run : Run σ) : Run σ := { run with state := f run.state }

/-- The report with one more note, the first, if it is the one of the phase. -/
def PhaseReport.noting (phase : String) (note : Note) (r : PhaseReport) : PhaseReport :=
  if r.name = phase then { r with diagnostics := note.at phase :: r.diagnostics } else r

/-- The run with one more note in the report of a phase. -/
def Run.noting (phase : String) (note : Note) (run : Run σ) : Run σ :=
  { run with reports := run.reports.map (PhaseReport.noting phase note) }

/-- The run after a phase that gave this report. -/
def Run.after (report : PhaseReport) (run : Run σ) : Run σ :=
  { run with reports := report :: run.reports }

/-- Notes of which none is an error. -/
def Note.Calm (notes : List Note) : Prop := ∀ n ∈ notes, n.severity ≠ .error

theorem Note.calm_nil : Note.Calm [] := by
  intro n hn
  cases hn

theorem Note.Calm.append {l l' : List Note} (h : Note.Calm l) (h' : Note.Calm l') :
    Note.Calm (l ++ l') := by
  intro n hn
  rcases List.mem_append.1 hn with hn | hn
  · exact h n hn
  · exact h' n hn

/-- A report without an error among its diagnostics. -/
def PhaseReport.Calm (r : PhaseReport) : Prop := ∀ d ∈ r.diagnostics, d.severity ≠ .error

/-- The report of a phase that went through without an error. -/
def PhaseReport.CompletedCalmly (r : PhaseReport) : Prop := r.status = .completed ∧ r.Calm

end NestedLayout

namespace NestedLayout.Pipeline

variable {σ : Type}

/-! ## Order -/

theorem arrangeAfter_of_some {done : List String} {pending rest : List (Phase σ)} {next : Phase σ}
    (h : extractFirst? (ready done) pending = some (next, rest)) :
    arrangeAfter done pending = (arrangeAfter (next.name :: done) rest).map (next :: ·) := by
  cases pending with
  | nil => cases h
  | cons p pending =>
    rw [arrangeAfter]
    split
    · rename_i next' rest' htaken
      cases htaken.symm.trans h
      cases arrangeAfter (next.name :: done) rest <;> rfl
    · rename_i hnone
      cases hnone.symm.trans h

theorem arrangeAfter_of_none {done : List String} {p : Phase σ} {rest : List (Phase σ)}
    (h : extractFirst? (ready done) (p :: rest) = none) :
    arrangeAfter done (p :: rest) = .error (.phaseOrder p.name ((missing? done p).getD "")) := by
  rw [arrangeAfter]
  split
  · rename_i htaken
    cases htaken.symm.trans h
  · rfl

/-- The missing name of a phase is one of its needs, and it is not among the names. -/
theorem missing?_eq_some {names : List String} {p : Phase σ} {need : String}
    (h : missing? names p = some need) : need ∈ p.needs ∧ need ∉ names :=
  ⟨List.mem_of_find?_eq_some h, by simpa using List.find?_some h⟩

theorem missing?_eq_none_iff {names : List String} {p : Phase σ} :
    missing? names p = none ↔ ∀ need ∈ p.needs, need ∈ names := by
  simp [missing?]

theorem missing?_eq_none_iff_ready {names : List String} {p : Phase σ} :
    missing? names p = none ↔ ready names p = true := by
  simp [missing?_eq_none_iff, ready]

/-- Each phase comes after those that it needs, which may also be among the given names. -/
def InOrder : List String → List (Phase σ) → Prop
  | _, [] => True
  | done, p :: rest => ready done p = true ∧ InOrder (p.name :: done) rest

theorem arrangeAfter_of_inOrder {done : List String} {phases : List (Phase σ)}
    (h : InOrder done phases) : arrangeAfter done phases = .ok phases := by
  induction phases generalizing done with
  | nil => rw [arrangeAfter]
  | cons p rest ih =>
    have hfirst : extractFirst? (ready done) (p :: rest) = some (p, rest) := by
      rw [extractFirst?, if_pos h.1]
    rw [arrangeAfter_of_some hfirst, ih h.2]
    rfl

theorem missing?_eq_none_of_ready {names done : List String} {p : Phase σ}
    (h : ready done p = true) (hsub : ∀ n ∈ done, n ∈ names) : missing? names p = none := by
  have hdone := missing?_eq_none_iff.1 (missing?_eq_none_iff_ready.2 h)
  exact missing?_eq_none_iff.2 fun need hneed => hsub need (hdone need hneed)

/-- The names that phases in order need are among theirs. -/
theorem InOrder.missing? {done names : List String} {phases : List (Phase σ)}
    (h : InOrder done phases) (hdone : ∀ n ∈ done, n ∈ names)
    (hnames : ∀ p ∈ phases, p.name ∈ names) : ∀ p ∈ phases, Pipeline.missing? names p = none := by
  induction phases generalizing done with
  | nil => simp
  | cons p rest ih =>
    obtain ⟨hp, hrest⟩ := List.forall_mem_cons.1 hnames
    exact List.forall_mem_cons.2 ⟨missing?_eq_none_of_ready h.1 hdone,
      ih h.2 (List.forall_mem_cons.2 ⟨hp, hdone⟩) hrest⟩

/-- **Phases in order stay in their order.** -/
theorem arrange_of_inOrder {phases : List (Phase σ)} (h : InOrder [] phases) :
    arrange phases = .ok phases := by
  have hnone : (phases.findSome? fun p =>
      (missing? (phases.map (·.name)) p).map (LayoutError.phaseOrder p.name)) = none := by
    refine List.findSome?_eq_none_iff.2 fun p hp => ?_
    rw [h.missing? (by simp) (fun q hq => List.mem_map_of_mem hq) p hp, Option.map_none]
  simp only [arrange, hnone]
  exact arrangeAfter_of_inOrder h

/-! ## Execution -/

/-- The phases lead from one state to another one, and none of them fails. -/
inductive Completes : List (Phase σ) → σ → σ → Prop
  | nil (s : σ) : Completes [] s s
  | cons {p : Phase σ} {rest : List (Phase σ)} {s s' : σ} {step : Step σ}
      (ran : p.run s = some step) (quiet : step.failure = none)
      (more : Completes rest step.state s') : Completes (p :: rest) s s'

theorem completes_nil_iff {s s' : σ} : Completes [] s s' ↔ s' = s := by
  refine ⟨?_, ?_⟩
  · rintro ⟨⟩
    rfl
  · rintro rfl
    exact .nil _

theorem completes_cons_iff {p : Phase σ} {rest : List (Phase σ)} {s s' : σ} :
    Completes (p :: rest) s s' ↔
      ∃ step, p.run s = some step ∧ step.failure = none ∧ Completes rest step.state s' := by
  refine ⟨?_, ?_⟩
  · rintro ⟨⟩
    exact ⟨_, ‹_›, ‹_›, ‹_›⟩
  · rintro ⟨step, ran, quiet, more⟩
    exact .cons ran quiet more

/-- A phase that always ends, and here without a failure, leads on to the next ones. -/
theorem completes_sure_iff {name : String} {needs : List String} {f : σ → Step σ}
    {rest : List (Phase σ)} {s s' : σ} (hf : (f s).failure = none) :
    Completes (⟨name, needs, fun s => some (f s)⟩ :: rest) s s' ↔
      Completes rest (f s).state s' := by
  rw [completes_cons_iff]
  refine ⟨?_, ?_⟩
  · rintro ⟨step, ran, -, more⟩
    cases ran
    exact more
  · exact fun more => ⟨f s, rfl, hf, more⟩

theorem completes_last_iff {name : String} {needs : List String} {f : σ → Step σ} {s s' : σ} :
    Completes [⟨name, needs, fun s => some (f s)⟩] s s' ↔
      (f s).failure = none ∧ s' = (f s).state := by
  rw [completes_cons_iff]
  refine ⟨?_, ?_⟩
  · rintro ⟨step, ran, quiet, more⟩
    cases ran
    exact ⟨quiet, completes_nil_iff.1 more⟩
  · exact fun ⟨quiet, he⟩ => ⟨f s, rfl, quiet, completes_nil_iff.2 he⟩

/-- **Completed runs** are those in which no phase fails. -/
theorem execute_completed_iff {phases : List (Phase σ)} {s s' : σ} :
    (∃ run, execute phases s = some run ∧ run.status = .completed ∧ run.state = s') ↔
      Completes phases s s' := by
  induction phases generalizing s with
  | nil =>
    refine ⟨?_, fun h => ?_⟩
    · rintro ⟨run, h, -, rfl⟩
      cases h
      exact .nil s
    · cases h
      exact ⟨_, rfl, rfl, rfl⟩
  | cons p rest ih =>
    refine ⟨?_, fun h => ?_⟩
    · rintro ⟨run, h, hc, hs⟩
      obtain ⟨step, hstep, h⟩ := Option.bind_eq_some_iff.1 h
      dsimp only at h
      split at h
      · rename_i hquiet
        obtain ⟨run', hrun, h⟩ := Option.bind_eq_some_iff.1 h
        cases h
        exact .cons hstep hquiet (ih.1 ⟨run', hrun, hc, hs⟩)
      · cases h
        cases hc
    · cases h with
      | @cons _ _ _ _ step ran quiet more =>
        obtain ⟨run, hrun, hc, hs⟩ := ih.2 more
        refine ⟨{ run with reports := report p.name step.notes none :: run.reports }, ?_, hc, hs⟩
        rw [execute, ran]
        simp only [Option.bind_eq_bind, Option.bind_some, quiet, hrun]
        rfl

/-! ## Reports -/

/-- **Every phase has its report**, in the order of the phases. -/
theorem execute_names {phases : List (Phase σ)} {s : σ} {run : Run σ}
    (h : execute phases s = some run) : run.reports.map (·.name) = phases.map (·.name) := by
  induction phases generalizing s run with
  | nil => cases h; rfl
  | cons p rest ih =>
    obtain ⟨step, -, h⟩ := Option.bind_eq_some_iff.1 h
    dsimp only at h
    have hname : (report p.name step.notes step.failure).name = p.name := by
      cases step.failure <;> rfl
    split at h
    · obtain ⟨run', hrun, h⟩ := Option.bind_eq_some_iff.1 h
      cases h
      simp only [List.map_cons, hname, ih hrun]
    · cases h
      simp only [List.map_cons, List.map_map, hname]
      rfl

theorem completedCalmly_report {phase : String} {notes : List Note} (h : Note.Calm notes) :
    (report phase notes none).CompletedCalmly := by
  refine ⟨rfl, fun d hd => ?_⟩
  obtain ⟨n, hn, rfl⟩ := List.mem_map.1 hd
  exact h n hn

/-- **A run goes through all phases, or it stops at the first that fails.** Then the reports of the
phases before it are completed and those of the phases after it skipped. No error is reported but
the one that ends the run. An invariant of the phases that go through holds where one fails. -/
theorem execute_cases {I : σ → Prop} {phases : List (Phase σ)} {s : σ} {run : Run σ}
    (hcalm : ∀ p ∈ phases, ∀ s step, p.run s = some step → Note.Calm step.notes)
    (hkeep : ∀ p ∈ phases, ∀ s step, p.run s = some step → step.failure = none → I s →
      I step.state)
    (hs : I s) (h : execute phases s = some run) :
    (run.status = .completed ∧ ∀ r ∈ run.reports, r.CompletedCalmly) ∨
    (run.status = .failed ∧ ∃ before p after mid step e done,
      phases = before ++ p :: after ∧ I mid ∧ p.run mid = some step ∧ step.failure = some e ∧
      run.state = step.state ∧
      run.reports = done ++ report p.name step.notes (some e) :: after.map skipped ∧
      ∀ r ∈ done, r.CompletedCalmly) := by
  induction phases generalizing s run with
  | nil =>
    cases h
    exact .inl ⟨rfl, by simp⟩
  | cons p rest ih =>
    obtain ⟨hcalm₁, hcalm⟩ := List.forall_mem_cons.1 hcalm
    obtain ⟨hkeep₁, hkeep⟩ := List.forall_mem_cons.1 hkeep
    obtain ⟨step, hstep, h⟩ := Option.bind_eq_some_iff.1 h
    dsimp only at h
    split at h
    · rename_i hquiet
      obtain ⟨run', hrun, h⟩ := Option.bind_eq_some_iff.1 h
      cases h
      have hfirst : (report p.name step.notes step.failure).CompletedCalmly := by
        rw [hquiet]
        exact completedCalmly_report (hcalm₁ s step hstep)
      rcases ih hcalm hkeep (hkeep₁ s step hstep hquiet hs) hrun with
        ⟨hdone, hall⟩ | ⟨hfail, before, q, after, mid, st, e, done, hsplit, hI, hq, he, hstate,
          hreports, hall⟩
      · exact .inl ⟨hdone, List.forall_mem_cons.2 ⟨hfirst, hall⟩⟩
      · refine .inr ⟨hfail, p :: before, q, after, mid, st, e,
          report p.name step.notes step.failure :: done, ?_, hI, hq, he, hstate, ?_,
          List.forall_mem_cons.2 ⟨hfirst, hall⟩⟩
        · rw [hsplit]
          rfl
        · simp only [hreports]
          rfl
    · rename_i e he
      cases h
      refine .inr ⟨rfl, [], p, rest, s, step, e, [], rfl, hs, hstep, he, rfl, ?_, by simp⟩
      rw [he]
      rfl

/-- The report of one of the phases, when it has not failed. -/
def ReportedBy (phases : List (Phase σ)) (r : PhaseReport) : Prop :=
  ∃ p ∈ phases, ∃ s step, p.run s = some step ∧ r = report p.name step.notes none

theorem ReportedBy.cons {phases : List (Phase σ)} {r : PhaseReport} (p : Phase σ)
    (h : ReportedBy phases r) : ReportedBy (p :: phases) r := by
  obtain ⟨q, hq, hr⟩ := h
  exact ⟨q, .tail p hq, hr⟩

/-- A completed run reports on its first phase, and then on the others. -/
theorem execute_completed_cons {p : Phase σ} {rest : List (Phase σ)} {s : σ} {run : Run σ}
    (h : execute (p :: rest) s = some run) (hdone : run.status = .completed) :
    ∃ step later, p.run s = some step ∧ step.failure = none ∧
      execute rest step.state = some later ∧ later.status = .completed ∧
      run = later.after (report p.name step.notes none) := by
  obtain ⟨step, hstep, h⟩ := Option.bind_eq_some_iff.1 h
  cases hf : step.failure with
  | some e =>
    simp only [hf] at h
    cases h
    cases hdone
  | none =>
    simp only [hf] at h
    obtain ⟨later, hlater, h⟩ := Option.bind_eq_some_iff.1 h
    cases h
    exact ⟨step, later, hstep, hf, hlater, hdone, rfl⟩

theorem execute_completed_reports {phases : List (Phase σ)} {s : σ} {run : Run σ}
    (h : execute phases s = some run) (hdone : run.status = .completed) :
    ∀ r ∈ run.reports, ReportedBy phases r := by
  induction phases generalizing s run with
  | nil =>
    cases h
    exact fun _ hr => nomatch hr
  | cons p rest ih =>
    obtain ⟨step, later, hstep, -, hlater, hdone', rfl⟩ := execute_completed_cons h hdone
    refine List.forall_mem_cons.2 ⟨⟨p, .head _, s, step, hstep, rfl⟩, fun r hr => ?_⟩
    exact (ih hlater hdone' r hr).cons p

/-- **A completed run comes to each of its phases**, and reports on it between the phases before and
after it. -/
theorem execute_completed_split {before after : List (Phase σ)} {p : Phase σ} {s : σ} {run : Run σ}
    (h : execute (before ++ p :: after) s = some run) (hdone : run.status = .completed) :
    ∃ mid step earlier later, Completes before s mid ∧ p.run mid = some step ∧
      run.reports = earlier ++ report p.name step.notes none :: later ∧
      (∀ r ∈ earlier, ReportedBy before r) ∧ ∀ r ∈ later, ReportedBy after r := by
  induction before generalizing s run with
  | nil =>
    obtain ⟨step, rest, hstep, -, hrest, hdone', rfl⟩ := execute_completed_cons h hdone
    exact ⟨s, step, [], rest.reports, .nil s, hstep, rfl, fun _ hr => (nomatch hr),
      execute_completed_reports hrest hdone'⟩
  | cons q before ih =>
    obtain ⟨first, rest, hfirst, hf, hrest, hdone', rfl⟩ := execute_completed_cons h hdone
    obtain ⟨mid, step, earlier, later, hmid, hstep, hreports, hearlier, hlater⟩ := ih hrest hdone'
    refine ⟨mid, step, report q.name first.notes none :: earlier, later, .cons hfirst hf hmid,
      hstep, congrArg _ hreports, List.forall_mem_cons.2 ⟨⟨q, .head _, s, first, hfirst, rfl⟩,
        fun r hr => (hearlier r hr).cons q⟩, hlater⟩

/-- Phases that always end make runs that always end. -/
theorem execute_isSome {phases : List (Phase σ)}
    (hsure : ∀ p ∈ phases, ∀ s, (p.run s).isSome = true) (s : σ) :
    (execute phases s).isSome = true := by
  induction phases generalizing s with
  | nil => rfl
  | cons p rest ih =>
    obtain ⟨hp, hrest⟩ := List.forall_mem_cons.1 hsure
    obtain ⟨step, hstep⟩ := Option.isSome_iff_exists.1 (hp s)
    obtain ⟨run, hrun⟩ := Option.isSome_iff_exists.1 (ih hrest step.state)
    simp only [execute, hstep, Option.bind_eq_bind, Option.bind_some, hrun]
    cases step.failure <;> rfl

/-! ## Changes that the phases pass on -/

/-- **A change that every phase passes on** shows in the last state and nowhere else. -/
theorem execute_map {f : σ → σ} {phases : List (Phase σ)}
    (hf : ∀ p ∈ phases, ∀ s, p.run (f s) = (p.run s).map (Step.map f)) (s : σ) :
    execute phases (f s) = (execute phases s).map (Run.map f) := by
  induction phases generalizing s with
  | nil => rfl
  | cons p rest ih =>
    obtain ⟨hp, hrest⟩ := List.forall_mem_cons.1 hf
    rw [execute, execute, hp s]
    cases hstep : p.run s with
    | none => rfl
    | some step =>
      obtain ⟨state, notes, failure⟩ := step
      cases failure with
      | some e => rfl
      | none =>
        show (execute rest (f state)).bind _ = ((execute rest state).bind _).map _
        rw [ih hrest]
        cases execute rest state <;> rfl

/-- A phase that does not fail adds its report to those of the next ones. -/
theorem execute_cons {p : Phase σ} {rest : List (Phase σ)} {s : σ} {step : Step σ}
    (hp : p.run s = some step) (hf : step.failure = none) : execute (p :: rest) s =
      (execute rest step.state).map (Run.after (report p.name step.notes none)) := by
  rw [execute, hp]
  show Option.bind (some step) _ = _
  rw [Option.bind_some, hf]
  cases execute rest step.state <;> rfl

/-- A phase that always ends quietly adds its report to those of the next ones. -/
theorem execute_quiet {name : String} {needs : List String} {f : σ → σ} {rest : List (Phase σ)}
    {s : σ} : execute (⟨name, needs, fun s => some (.quiet (f s))⟩ :: rest) s =
      (execute rest (f s)).map (Run.after (report name [] none)) := by
  let p : Phase σ := ⟨name, needs, fun s => some (.quiet (f s))⟩
  have hp : p.run s = some (.quiet (f s)) := rfl
  exact execute_cons hp rfl

/-- The last phase ends the run, with its report, whether it fails or not. -/
theorem execute_last {p : Phase σ} {s : σ} {step : Step σ} (hp : p.run s = some step) :
    ∃ run, execute [p] s = some run ∧ run.state = step.state ∧
      run.reports = [report p.name step.notes step.failure] := by
  rw [execute, hp]
  cases hf : step.failure with
  | none => exact ⟨⟨step.state, .completed, _⟩, by simp [hf, execute], rfl, rfl⟩
  | some e => exact ⟨⟨step.state, .failed, _⟩, by simp [hf], rfl, rfl⟩

theorem noting_of_fresh {phase : String} {note : Note} {reports : List PhaseReport}
    (h : phase ∉ reports.map (·.name)) :
    reports.map (PhaseReport.noting phase note) = reports := by
  have hother : ∀ r ∈ reports, r.noting phase note = r := fun r hr =>
    if_neg fun he => h (List.mem_map.2 ⟨r, hr, he⟩)
  rw [List.map_congr_left hother, List.map_id']

theorem report_noting (phase : String) (note : Note) (notes : List Note)
    (failure : Option LayoutError) :
    report phase (note :: notes) failure = (report phase notes failure).noting phase note := by
  cases failure <;> simp [report, PhaseReport.noting]

/-- **One more note of the first phase** shows in its report. -/
theorem execute_noting {f : σ → σ} {p q : Phase σ} {rest : List (Phase σ)} {note : Note} {s : σ}
    (hname : p.name = q.name)
    (hp : p.run s = (q.run s).map fun step => (step.map f).noting note)
    (hf : ∀ r ∈ rest, ∀ s, r.run (f s) = (r.run s).map (Step.map f))
    (hfresh : q.name ∉ rest.map (·.name)) :
    execute (p :: rest) s =
      (execute (q :: rest) s).map fun run => (run.map f).noting q.name note := by
  rw [execute, execute, hp, hname]
  cases q.run s with
  | none => rfl
  | some step =>
    obtain ⟨state, notes, failure⟩ := step
    cases failure with
    | some e =>
      have hskipped : q.name ∉ (rest.map skipped).map (·.name) := by
        rwa [List.map_map]
      show some (Run.mk _ _ (report q.name (note :: notes) (some e) :: _)) =
        some (Run.mk _ _ (_ :: _))
      rw [noting_of_fresh hskipped, report_noting]
      rfl
    | none =>
      show (execute rest (f state)).bind _ = ((execute rest state).bind _).map _
      rw [execute_map hf]
      cases hrun : execute rest state with
      | none => rfl
      | some run =>
        have hreports : q.name ∉ run.reports.map (·.name) := by rwa [execute_names hrun]
        show some (Run.mk _ _ (report q.name (note :: notes) none :: _)) =
          some (Run.mk _ _ (_ :: run.reports.map _))
        rw [noting_of_fresh hreports, report_noting]
        rfl

end NestedLayout.Pipeline
