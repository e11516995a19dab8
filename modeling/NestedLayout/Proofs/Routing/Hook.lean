import NestedLayout.Proofs.Hierarchy.Connectors
import NestedLayout.Routing.Hook

/-!
# Which hooks there are

`HookTable.assign` makes one hook for every endpoint of every connector and no other:
`contains_assign_iff`. Whatever the angles and places, they only decide where the hooks are.
-/

set_option autoImplicit false

namespace NestedLayout

variable {α : Type} [Scalar α]

/-- The key is an endpoint of the connector. -/
def HookKey.OfConnector (k : HookKey) (c : Connector) : Prop :=
  k.connector = c.id ∧ k.endpoint ∈ c.endpoints

/-- The key is the hub of the connector or an endpoint of it. A hub should be an endpoint. -/
def HookKey.HookedBy (k : HookKey) (c : Connector) : Prop :=
  k.connector = c.id ∧ (k.endpoint = c.hub ∨ k.endpoint ∈ c.endpoints)

theorem HookKey.hookedBy_iff {k : HookKey} {c : Connector} (hhub : c.hub ∈ c.endpoints) :
    k.HookedBy c ↔ k.OfConnector c :=
  and_congr_right fun _ => or_iff_right_of_imp fun he => he ▸ hhub

namespace Connector

/-- The other endpoints are the same by angle. -/
theorem othersByAngle_perm (c : Connector) (placements : Placements α) :
    ((c.othersByAngle placements).map (·.2)).Perm c.others := by
  have hseen := (List.mergeSort_perm (c.others.map fun id =>
    ((Placement.centerOf placements c.hub).angleTo (Placement.centerOf placements id), id))
      beforeByAngle).map (·.2)
  simpa [othersByAngle, Function.comp_def] using hseen

end Connector

namespace HookTable

theorem mem_hubs_iff {cs : List Connector} {hub : String} :
    hub ∈ hubs cs ↔ ∃ c ∈ cs, c.hub = hub := by
  simp [hubs, Table.mem_keys_iff, Table.contains_ofList_iff]

theorem mem_spokes_iff {cs : List Connector} {placements : Placements α} {hub : String}
    {spoke : α × Connector} :
    spoke ∈ spokes cs placements hub ↔
      spoke.2 ∈ cs ∧ spoke.2.hub = hub ∧ spoke.1 = spoke.2.angle placements := by
  obtain ⟨angle, c⟩ := spoke
  simp only [spokes, List.mem_mergeSort, List.mem_map, List.mem_filter, beq_iff_eq,
    Prod.mk.injEq]
  refine ⟨?_, ?_⟩
  · rintro ⟨c', ⟨hc, hh⟩, rfl, rfl⟩
    exact ⟨hc, hh, rfl⟩
  · rintro ⟨hc, hh, rfl⟩
    exact ⟨c, ⟨hc, hh⟩, rfl, rfl⟩

variable {placements : Placements α} {ring : α × α}

/-- One connector adds its hub and its endpoints. -/
theorem contains_assignOne_iff {hooks : HookTable α} {c : Connector} {side : Side} {k : HookKey} :
    (assignOne placements ring hooks c side).contains k = true ↔
      hooks.contains k = true ∨ k.HookedBy c := by
  have hstep : ∀ id ∈ c.others, ∀ (hooks : HookTable α) (j : HookKey),
      (hooks.insert ⟨c.id, id⟩ (.on (Placement.bodyOf placements id)
        (.facing (Placement.bodyOf placements id).center
          (Placement.bodyOf placements c.hub).center) ring)).contains j = true ↔
        hooks.contains j = true ∨ j = ⟨c.id, id⟩ := fun id _ hooks j => by
    rw [Table.contains_insert_iff, or_comm]
  rw [assignOne, Table.contains_foldl_iff hstep, Table.contains_insert_iff]
  obtain ⟨connector, endpoint⟩ := k
  simp only [Connector.mem_others, HookKey.HookedBy, HookKey.mk.injEq]
  grind

/-- The connectors at a hub add their hub and their endpoints. -/
theorem contains_assignAround_iff {cs : List Connector} {hooks : HookTable α} {hub : String}
    {k : HookKey} :
    (assignAround cs placements ring hooks hub).contains k = true ↔
      hooks.contains k = true ∨ ∃ c ∈ cs, c.hub = hub ∧ k.HookedBy c := by
  rw [assignAround, Table.contains_foldl_iff (P := fun spoke k => k.HookedBy spoke.1.2)]
  · refine or_congr_right ⟨?_, ?_⟩
    · rintro ⟨⟨⟨angle, c⟩, i⟩, hspoke, hk⟩
      obtain ⟨hc, hh, -⟩ := mem_spokes_iff.1 (List.fst_mem_of_mem_zipIdx hspoke)
      exact ⟨c, hc, hh, hk⟩
    · rintro ⟨c, hc, hh, hk⟩
      have hspoke : (c.angle placements, c) ∈ spokes cs placements hub :=
        mem_spokes_iff.2 ⟨hc, hh, rfl⟩
      obtain ⟨i, hi, he⟩ := List.mem_iff_getElem.1 hspoke
      exact ⟨((c.angle placements, c), i), List.mem_zipIdx_iff_getElem?.2
        (he ▸ List.getElem?_eq_getElem hi), hk⟩
  · exact fun _ _ _ _ => contains_assignOne_iff

/-- Every hub and every endpoint has a hook, and nothing else has one. -/
theorem contains_assign_iff_hookedBy {cs : List Connector} {k : HookKey} :
    (assign cs placements ring).contains k = true ↔ ∃ c ∈ cs, k.HookedBy c := by
  have hstep : ∀ hub ∈ hubs cs, ∀ (hooks : HookTable α) (j : HookKey),
      (assignAround cs placements ring hooks hub).contains j = true ↔
        hooks.contains j = true ∨ ∃ c ∈ cs, c.hub = hub ∧ j.HookedBy c :=
    fun _ _ _ _ => contains_assignAround_iff
  rw [assign, Table.contains_foldl_iff hstep]
  simp only [mem_hubs_iff]
  refine ⟨?_, ?_⟩
  · rintro (h | ⟨hub, -, c, hc, -, hk⟩)
    · cases h
    · exact ⟨c, hc, hk⟩
  · rintro ⟨c, hc, hk⟩
    exact .inr ⟨c.hub, ⟨c, hc, rfl⟩, c, hc, rfl, hk⟩

/-- **Every endpoint of every connector has a hook**, and nothing else has one. -/
theorem contains_assign_iff {cs : List Connector} (hhub : ∀ c ∈ cs, c.hub ∈ c.endpoints)
    {k : HookKey} :
    (assign cs placements ring).contains k = true ↔ ∃ c ∈ cs, k.OfConnector c := by
  rw [contains_assign_iff_hookedBy]
  exact exists_congr fun c => and_congr_right fun hc => HookKey.hookedBy_iff (hhub c hc)

end HookTable

end NestedLayout
