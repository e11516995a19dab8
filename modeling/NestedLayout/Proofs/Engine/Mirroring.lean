import NestedLayout.Proofs.Drawing.Mirrored
import NestedLayout.Proofs.Engine.Completeness
import Mathlib.Tactic.IntervalCases

/-!
# The ledger during a run

From the placement of elements on, the ledger of a run mirrors its drawing, whatever the sizer and
the settings: `phase_mirrors`. After compaction it also has the final boxes and the corridors of the
final routes.
-/

set_option autoImplicit false

namespace NestedLayout.Engine

section
variable {α : Type} [Scalar α] {settings : Settings α} {sizer : Sizer α} {diagram : Diagram}
  {h : Hierarchy} {connectors : List Connector}

/-- The phases before one that places or moves elements, and what they start with. -/
theorem phases_split {before after : List (Phase (Drawing α))} {p : Phase (Drawing α)}
    (hphases : phases sizer = before ++ p :: after)
    (hp : p.name = "positioning" ∨ p.name = "collisions" ∨ p.name = "compaction") :
    ∃ middle, before = measurePhase :: requirementsPhase :: sizingPhase sizer :: middle ∧
      (middle = [] ∧ p = positioningPhase ∨ middle = [positioningPhase] ∧ p = collisionsPhase ∨
        middle = [positioningPhase, collisionsPhase, hooksPhase, routingPhase] ∧
          p = compactionPhase) := by
  obtain ⟨n, hn⟩ : ∃ n, before.length = n := ⟨_, rfl⟩
  have hbefore : before = (phases sizer).take n := by rw [hphases, ← hn, List.take_left]
  have hat : (phases sizer)[n]? = some p := by
    rw [hphases, ← hn, List.getElem?_append_right le_rfl]
    simp
  have hlt : n < 8 := by
    have := (List.getElem?_eq_some_iff.1 hat).1
    exact this
  subst hbefore
  clear hphases hn
  interval_cases n <;> cases Option.some.inj hat <;>
    simp [phases, measurePhase, requirementsPhase, sizingPhase, positioningPhase, collisionsPhase,
      hooksPhase, routingPhase, compactionPhase] at hp ⊢

/-- **The ledger mirrors the drawing** after each phase that places or moves elements: the regions
that are occupied in a container are the footprints of its own placed elements, each once. After
compaction every container has its final box there, with the corridors of the final routes of just
those connectors whose area it is. -/
theorem phase_mirrors (hh : Hierarchy.extract diagram = .ok h)
    (hc : Connector.derive diagram h = .ok connectors)
    {before after : List (Phase (Drawing α))} {p : Phase (Drawing α)}
    (hphases : phases sizer = before ++ p :: after)
    (hp : p.name = "positioning" ∨ p.name = "collisions" ∨ p.name = "compaction") {d : Drawing α}
    (hd : Pipeline.Completes (before ++ [p])
      (.start diagram settings.layout settings.canvas h connectors) d) :
    d.hierarchy = h ∧ d.connectors = connectors ∧ d.Mirrored ∧
      (p.name = "compaction" → d.Reckoned) := by
  obtain ⟨middle, rfl, hmiddle⟩ := phases_split hphases hp
  obtain ⟨sized, notes, hsize, hd⟩ := sizing_complete_iff.1 hd
  obtain ⟨hsub, -⟩ := Drawing.size_subject hsize
  obtain ⟨-, l, hledger⟩ := Drawing.size_boxed hsize
  have hsh : sized.hierarchy = h := hsub.hierarchy
  have hsc : sized.connectors = connectors := hsub.connectors
  have t : sized.hierarchy.IsTree := hsh ▸ (Hierarchy.extract_treeOf hh).toIsTree
  have hempty : ∀ {c a}, sized.ledger.allotments.get? c = some a → a.occupied = [] :=
    fun {c a} ha => by
      rw [hledger, SpaceLedger.restart, Table.get?_map] at ha
      obtain ⟨box, -, rfl⟩ := Option.map_eq_some_iff.1 ha
      rfl
  have hplaced : sized.place.state.Mirrored := Drawing.place_mirrored t
    (fun {c} hc => Drawing.size_allotted hsize (hsub.hierarchy ▸ hc)) hempty
  have hph : sized.place.state.hierarchy = h := (Drawing.place_ground sized).hierarchy.trans hsh
  have hpc : sized.place.state.connectors = connectors := (Drawing.place_connectors sized).trans hsc
  have hcast := Drawing.separate_cast sized.place.state
  -- the phase places, separates or compacts, and what is before it is known
  rcases hmiddle with ⟨rfl, rfl⟩ | ⟨rfl, rfl⟩ | ⟨rfl, rfl⟩
  · obtain ⟨-, rfl⟩ := Pipeline.completes_last_iff.1 hd
    exact ⟨hph, hpc, hplaced, fun hn => by simp [positioningPhase] at hn⟩
  · have hlast := (Pipeline.completes_sure_iff (Drawing.place_failure sized)).1 hd
    obtain ⟨-, rfl⟩ := Pipeline.completes_last_iff.1 hlast
    exact ⟨hcast.hierarchy.trans hph, hcast.connectors.trans hpc,
      Drawing.separate_mirrored (hph ▸ hsh ▸ t) hplaced, fun hn => by simp [collisionsPhase] at hn⟩
  · obtain ⟨hf, rfl⟩ := later_complete_iff.1 hd
    have hfc : sized.furnished.connectors = connectors :=
      (Drawing.furnished_connectors sized).trans hsc
    obtain ⟨hfh', hfc'⟩ := Drawing.compact_subject hf
    obtain ⟨hmirrored, hreckoned⟩ := Drawing.compact_reckoned
      (by rw [hfc]; exact (Connector.derive_spec hc).ids) hf
    exact ⟨hfh'.trans (sized.furnished_ground.hierarchy.trans hsh), hfc'.trans hfc, hmirrored,
      fun _ => hreckoned⟩

end

/-- When the run of the diagram ends, the area has the region of the vertex in it, and the sheet
the corridors of the connector. -/
theorem twoLevels_mirrors : ∃ (d : Drawing ℝ) (p : Placement ℝ) (inner outer : Allotment ℝ),
    Pipeline.Completes (phases Proportional.sizer) (.start twoLevels Settings.standard.layout
      Settings.standard.canvas twoLevelsTree [⟨"v--w", ["v", "w"], "v", "root"⟩]) d ∧
    d.placements.get? "w" = some p ∧ d.ledger.allotments.get? "A" = some inner ∧
    ⟨"w", p.footprint⟩ ∈ inner.occupied ∧ inner.reserved = [] ∧
    d.ledger.allotments.get? "root" = some outer ∧
    outer.reserved = d.corridorsOf ⟨"v--w", ["v", "w"], "v", "root"⟩ := by
  have hc : Connector.derive twoLevels twoLevelsTree =
      .ok [⟨"v--w", ["v", "w"], "v", "root"⟩] := rfl
  obtain ⟨run, sized, hrun, hdone, -⟩ := proportional_run
    [⟨"v--w", ["v", "w"], "v", "root"⟩] extract_twoLevels Settings.standard_inRange
  obtain ⟨-, -, -, hcomplete⟩ := completed_complete extract_twoLevels hc hrun hdone
  rw [execute, Pipeline.run, Pipeline.arrange_of_inOrder (phases_inOrder _)] at hrun
  have hd := Pipeline.execute_completed_iff.1 ⟨run, hrun, hdone, rfl⟩
  have hphases : phases Proportional.sizer = [measurePhase, requirementsPhase,
      sizingPhase Proportional.sizer, positioningPhase, collisionsPhase, hooksPhase,
      routingPhase] ++ compactionPhase (α := ℝ) :: [] := rfl
  obtain ⟨hh, hcs, hmirrored, hreckoned⟩ := phase_mirrors extract_twoLevels hc hphases
    (.inr (.inr rfl)) hd
  have hreckoned := hreckoned rfl
  obtain ⟨p, hp⟩ : ∃ p, run.state.placements.get? "w" = some p :=
    Table.contains_iff.1 ((hcomplete.placed "w").trans (by rw [hh]; rfl))
  obtain ⟨inner, hinner⟩ : ∃ a, run.state.ledger.allotments.get? "A" = some a :=
    Table.contains_iff.1 (hmirrored.allotted (by rw [hh]; rfl))
  obtain ⟨outer, houter⟩ : ∃ a, run.state.ledger.allotments.get? "root" = some a :=
    Table.contains_iff.1 (hmirrored.allotted (by rw [hh]; rfl))
  refine ⟨run.state, p, inner, outer, hd, hp, hinner, ?_, ?_, houter, ?_⟩
  · exact (hmirrored.records.mem_iff hinner).2 ⟨by rw [hh]; rfl, p, hp, rfl⟩
  · rw [hreckoned.reserved hinner, hcs]
    rfl
  · rw [hreckoned.reserved houter, hcs]
    exact List.append_nil _

end NestedLayout.Engine
