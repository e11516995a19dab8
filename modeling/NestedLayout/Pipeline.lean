import NestedLayout.Report

/-!
# Pipelines

A pipeline is a list of phases that work on one state. Each phase names the phases that it needs.

* `Pipeline.arrange` puts phases in an order in which each comes after those that it needs; of the
  phases that are ready the one declared first goes first.
* `Pipeline.execute` runs phases one after the other. The first that fails ends the run, with the
  state as it left it; the phases after it are skipped.
-/

set_option autoImplicit false

namespace NestedLayout

/-- What a phase comes to: the state it leaves, what it has to say, and whether it failed. -/
structure Step (σ : Type) where
  state : σ
  notes : List Note
  failure : Option LayoutError

namespace Step

variable {σ : Type}

/-- A step that has nothing to say. -/
def quiet (state : σ) : Step σ := ⟨state, [], none⟩

end Step

/-- A phase. It has no result at all when the coordinates break down. -/
structure Phase (σ : Type) where
  name : String
  needs : List String
  run : σ → Option (Step σ)

/-- The end of a run. -/
structure Run (σ : Type) where
  state : σ
  status : RunStatus
  reports : List PhaseReport

namespace Pipeline

variable {σ : Type}

/-! ## Order -/

/-- Takes the first member with a property out of a list. -/
def extractFirst? {β : Type} (p : β → Bool) : List β → Option (β × List β)
  | [] => none
  | b :: rest =>
    if p b then some (b, rest)
    else (extractFirst? p rest).map fun found => (found.1, b :: found.2)

theorem length_extractFirst? {β : Type} (p : β → Bool) {l rest : List β} {b : β}
    (h : extractFirst? p l = some (b, rest)) : rest.length < l.length := by
  induction l generalizing rest with
  | nil => simp [extractFirst?] at h
  | cons head tail ih =>
    unfold extractFirst? at h
    split at h
    · simp_all
    · obtain ⟨found, hf, he⟩ := Option.map_eq_some_iff.1 h
      cases he
      simpa using ih hf

/-- Whether everything that a phase needs is among the names. -/
def ready (names : List String) (p : Phase σ) : Bool := p.needs.all names.contains

/-- The first name that a phase needs and that is not among the names. -/
def missing? (names : List String) (p : Phase σ) : Option String :=
  p.needs.find? fun need => !names.contains need

/-- Arranges the pending phases behind those that are done, given by their names. Where none is
ready the first pending phase is at fault. -/
def arrangeAfter (done : List String) : List (Phase σ) → Except LayoutError (List (Phase σ))
  | [] => .ok []
  | p :: rest =>
    match _taken : extractFirst? (ready done) (p :: rest) with
    | some (next, pending) => do
      let arranged ← arrangeAfter (next.name :: done) pending
      return next :: arranged
    | none => .error (.phaseOrder p.name ((missing? done p).getD ""))
termination_by pending => pending.length
decreasing_by exact length_extractFirst? _ _taken

/-- The phases in an order in which each comes after those that it needs. -/
def arrange (phases : List (Phase σ)) : Except LayoutError (List (Phase σ)) :=
  let names := phases.map (·.name)
  match phases.findSome? fun p => (missing? names p).map (LayoutError.phaseOrder p.name) with
  | some e => .error e
  | none => arrangeAfter [] phases

/-! ## Execution -/

/-- The report of a phase that was run; a failure has the last word. -/
def report (phase : String) (notes : List Note) : Option LayoutError → PhaseReport
  | none => ⟨phase, .completed, notes.map (Note.at phase)⟩
  | some e => ⟨phase, .failed, (notes ++ [Note.ofError e]).map (Note.at phase)⟩

/-- The report of a phase that was not run. -/
def skipped (phase : Phase σ) : PhaseReport := ⟨phase.name, .skipped, []⟩

/-- Runs phases one after the other until one of them fails. -/
def execute : List (Phase σ) → σ → Option (Run σ)
  | [], state => some ⟨state, .completed, []⟩
  | p :: rest, state => do
    let step ← p.run state
    let report := report p.name step.notes step.failure
    match step.failure with
    | none =>
      let run ← execute rest step.state
      return { run with reports := report :: run.reports }
    | some _ => return ⟨step.state, .failed, report :: rest.map skipped⟩

/-- Arranges the phases and runs them. Phases that cannot be arranged fail as a whole. -/
def run (phases : List (Phase σ)) (state : σ) : Option (Run σ) :=
  match arrange phases with
  | .ok arranged => execute arranged state
  | .error e => some ⟨state, .failed, [report "pipeline" [] (some e)]⟩

end Pipeline

end NestedLayout
