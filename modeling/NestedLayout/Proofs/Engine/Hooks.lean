import NestedLayout.Proofs.Binary32.Order
import NestedLayout.Proofs.Drawing.Failures
import NestedLayout.Proofs.Drawing.Moves
import NestedLayout.Proofs.Engine.Completeness
import NestedLayout.Proofs.Routing.Rotation

/-!
# The hooks of a run

A completed run shows a hook for every endpoint of every connector, and its metrics count them:
`hooks_complete_turning`. The count is taken when hooks are assigned. It stays right when compaction
moves hooks, and it is taken again when compaction assigns them anew.
-/

set_option autoImplicit false

namespace NestedLayout

variable {α : Type} [Scalar α]

namespace Drawing

/-- The metrics count the hooks. -/
def HooksCounted (d : Drawing α) : Prop := d.metrics.hooksAssigned = d.hooks.size

theorem attachHooks_hooksCounted (d : Drawing α) : HooksCounted d.attachHooks := rfl

theorem route_hooksCounted {d : Drawing α} (h : HooksCounted d) : HooksCounted d.route := h

omit [Scalar α] in
theorem setBox_hooksCounted {d : Drawing α} (id : String) (box : Rect α) (h : HooksCounted d) :
    HooksCounted (d.setBox id box) := by
  unfold setBox
  split <;> exact h

theorem translateSubtree_hooksCounted {d : Drawing α} (root : String) (dx dy : α)
    (h : HooksCounted d) : HooksCounted (d.translateSubtree root dx dy) := by
  refine Fold.keeps (fun _ (hooks : HookTable α) => d.metrics.hooksAssigned = hooks.size) h
    fun _ id _ hooks _ hs => ?_
  rw [hs, HookTable.translateElement, ← Table.length_keys, ← Table.length_keys, Table.keys_map]

/-- **A compaction that succeeds** has counted the hooks that it leaves. -/
theorem compact_hooksCounted {d : Drawing α} (h : HooksCounted d)
    (hf : d.compact.failure = none) : HooksCounted d.compact.state := by
  cases hfold : d.hierarchy.postOrder.foldlM compactOne ⟨d, 0⟩ with
  | error f => simp [compact, hfold] at hf
  | ok s =>
    have hs : HooksCounted s.drawing := foldlM_compactOne_keeps translateSubtree_hooksCounted
      setBox_hooksCounted hfold h
    rw [compact_eq_finished hfold]
    unfold Shifting.finished
    dsimp only
    split
    · exact route_hooksCounted (attachHooks_hooksCounted _)
    · exact route_hooksCounted hs

end Drawing

namespace Engine

section
variable {settings : Settings α} {sizer : Sizer α} {diagram : Diagram} {h : Hierarchy}
  {connectors : List Connector}

/-- A completed run ends with counted hooks. -/
theorem completed_hooksCounted {r : Run (Drawing α)}
    (hrun : execute settings sizer diagram h connectors = some r) (hdone : r.status = .completed) :
    r.state.HooksCounted := by
  obtain ⟨sized, notes, -, hf, hstate⟩ := execute_completed_iff.1 ⟨r, hrun, hdone, rfl⟩
  rw [hstate]
  refine Drawing.compact_hooksCounted ?_ hf
  exact Drawing.route_hooksCounted (Drawing.attachHooks_hooksCounted _)

end

/-- **Hooks are complete and turn around their hubs**, for all connectors that can be hooked and
wherever the elements stand. So a completed run, whatever the settings and the sizer, shows a hook
for every endpoint of every connector and no other one, and its metrics tell how many these are. -/
theorem hooks_complete_turning [Std.TransCmp (Scalar.compareTotal (α := α))] :
    (∀ (cs : List Connector) (placements : Placements α) (ring : α × α), Connector.Hookable cs →
      HookTable.Turning cs placements (HookTable.assign cs placements ring)) ∧
    ∀ (settings : Settings α) (sizer : Sizer α) (diagram : Diagram) (h : Hierarchy)
      (cs : List Connector) (o : Outcome α), Hierarchy.extract diagram = .ok h →
      Connector.derive diagram h = .ok cs → run settings sizer diagram = .ok (some o) →
      o.status = .completed →
        (∀ k : HookKey, o.picture.hooks.contains k = true ↔ ∃ c ∈ cs, k.OfConnector c) ∧
        o.picture.hooks.size = (cs.map (·.endpoints.length)).sum ∧
        o.metrics.hooksAssigned = (cs.map (·.endpoints.length)).sum := by
  refine ⟨fun cs placements ring hcs => HookTable.assign_turning hcs placements ring,
    fun settings sizer diagram h cs o hh hc ho hdone => ?_⟩
  rw [run_eq hh hc] at ho
  obtain ⟨r, hr, rfl⟩ := Option.map_eq_some_iff.1 (Except.ok.inj ho)
  obtain ⟨-, -, hcs, hcomplete⟩ := completed_complete hh hc hr hdone
  have hhooked : ∀ k : HookKey, r.state.hooks.contains k = true ↔ ∃ c ∈ cs, k.OfConnector c :=
    hcs ▸ hcomplete.hooked
  have hshown : ∀ k : HookKey, (outcome settings r).picture.hooks.contains k = true ↔
      ∃ c ∈ cs, k.OfConnector c := fun k => by
    rw [← hhooked k]
    exact Bool.eq_iff_iff.1 (Table.contains_map _ _ k)
  have hhookable := (Connector.derive_spec hc).hookable
  refine ⟨hshown, HookTable.size_of_contains hhookable hshown, ?_⟩
  exact (completed_hooksCounted hr hdone).trans (HookTable.size_of_contains hhookable hhooked)

/-- A predicate that is the hub of five connectors and a plain endpoint of a sixth. -/
def star : Diagram where
  root := "sheet"
  areas := .ofList [("sheet", ⟨none, ["p", "q", "a", "b", "c", "d", "e"]⟩)]
  elements := .ofList [("p", ⟨.predicate, "P", ["a", "b", "c", "d", "e"]⟩),
    ("q", ⟨.predicate, "Q", ["p"]⟩), ("a", ⟨.vertex, "", []⟩), ("b", ⟨.vertex, "", []⟩),
    ("c", ⟨.vertex, "", []⟩), ("d", ⟨.vertex, "", []⟩), ("e", ⟨.vertex, "", []⟩)]
  connections := []

def spokesOfStar : List Connector :=
  [⟨"p--a", ["p", "a"], "p", "sheet"⟩, ⟨"p--b", ["p", "b"], "p", "sheet"⟩,
    ⟨"p--c", ["p", "c"], "p", "sheet"⟩, ⟨"p--d", ["p", "d"], "p", "sheet"⟩,
    ⟨"p--e", ["p", "e"], "p", "sheet"⟩, ⟨"q--p", ["q", "p"], "q", "sheet"⟩]

/-- The star has twelve hooks, and around `p` they turn, in single precision as well. -/
theorem star_complete_turning : ∃ (h : Hierarchy) (o : Outcome ℝ),
    Hierarchy.extract star = .ok h ∧ Connector.derive star h = .ok spokesOfStar ∧
      run Settings.standard Proportional.sizer star = .ok (some o) ∧ o.status = .completed ∧
      o.picture.hooks.size = 12 ∧ o.metrics.hooksAssigned = 12 ∧
      Connector.Hookable spokesOfStar ∧
      HookTable.Turning spokesOfStar .empty
        (HookTable.assign spokesOfStar .empty ((1.0 : Float32), 1.0)) := by
  obtain ⟨h, hh⟩ : ∃ h, Hierarchy.extract star = .ok h := ⟨_, rfl⟩
  have hc : Connector.derive star h = .ok spokesOfStar := by
    cases hh
    rfl
  obtain ⟨r, -, hrun, hdone, -⟩ := proportional_run spokesOfStar hh Settings.standard_inRange
  have ho : run Settings.standard Proportional.sizer star =
      .ok (some (outcome Settings.standard r)) := by
    rw [run_eq hh hc, hrun]
    rfl
  have hhookable := (Connector.derive_spec hc).hookable
  obtain ⟨-, hsize, hcount⟩ :=
    (hooks_complete_turning (α := ℝ)).2 _ _ star h spokesOfStar _ hh hc ho hdone
  exact ⟨h, _, hh, hc, ho, hdone, hsize, hcount, hhookable,
    (hooks_complete_turning (α := Float32)).1 _ _ _ hhookable⟩

end Engine

end NestedLayout
