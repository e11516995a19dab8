import NestedLayout.Proofs.Binary32.Order
import NestedLayout.Proofs.Routing.Rotation

/-!
# Hooks of reordered connectors

`HookTable.assign` goes through the hubs in the order of their ids, and through the connectors of a
hub by angle. Neither depends on the order in which the connectors are listed:

* `hubs_eq_of_perm`: the hubs are the keys of a table, so the list matters by its members only.
* `spokes_eq_of_perm`: where two connectors leave a hub at one angle, or at none that is a number,
  their ids decide. So connectors with different ids have one order around it.
* `assign_eq_of_perm`: the hooks of reordered connectors are the same, wherever the elements stand;
  `assign_reordered` is the case of single precision.
-/

set_option autoImplicit false

namespace NestedLayout.HookTable

variable {α : Type} [Scalar α] {cs cs' : List Connector}

theorem hubs_eq_of_perm (h : cs.Perm cs') : hubs cs = hubs cs' := by
  refine Table.keys_eq_of_contains fun hub => Bool.eq_iff_iff.2 ?_
  rw [Table.contains_ofList_iff, Table.contains_ofList_iff]
  exact ((h.map _).map _).mem_iff

section
variable [Std.TransCmp (Scalar.compareTotal (α := α))] (hids : (cs.map (·.id)).Nodup)
  (h : cs.Perm cs')
include hids h

/-- **Around a hub** the order of the connectors is that of their angles and ids. -/
theorem spokes_eq_of_perm (placements : Placements α) (hub : String) :
    spokes cs placements hub = spokes cs' placements hub := by
  have hlisted : ((cs.filter fun c => c.hub == hub).map fun c => (c.angle placements, c)).Perm
      ((cs'.filter fun c => c.hub == hub).map fun c => (c.angle placements, c)) :=
    (h.filter _).map _
  have hperm : (spokes cs placements hub).Perm (spokes cs' placements hub) :=
    (List.mergeSort_perm _ _).trans (hlisted.trans (List.mergeSort_perm _ _).symm)
  refine hperm.eq_of_pairwise (fun a b ha hb hab hba => ?_) (spokes_pairwise cs placements hub)
    (spokes_pairwise cs' placements hub)
  -- connectors that are before each other have one id, so they are one
  obtain ⟨hac, -, hangle⟩ := mem_spokes_iff.1 ha
  obtain ⟨hbc, -, hangle'⟩ := mem_spokes_iff.1 hb
  have hid : a.2.id = b.2.id := eq_of_beforeByAngle hab hba
  have hsame : a.2 = b.2 := List.inj_on_of_nodup_map hids hac (h.mem_iff.2 hbc) hid
  exact Prod.ext (by rw [hangle, hangle', hsame]) hsame

/-- **Hooks do not depend on the order of the connectors**, in any arithmetic with a total order of
the angles. -/
theorem assign_eq_of_perm (placements : Placements α) (ring : α × α) :
    assign cs placements ring = assign cs' placements ring := by
  have haround : assignAround cs placements ring = assignAround cs' placements ring := by
    funext hooks hub
    rw [assignAround, assignAround, spokes_eq_of_perm hids h]
  rw [assign, assign, haround, hubs_eq_of_perm h]

end

/-- **In single precision** connectors with different ids have the same hooks in whatever order they
are listed, also where coordinates are no numbers. -/
theorem assign_reordered (hids : (cs.map (·.id)).Nodup) (h : cs.Perm cs')
    (placements : Placements Float32) (ring : Float32 × Float32) :
    assign cs placements ring = assign cs' placements ring :=
  assign_eq_of_perm hids h placements ring

/-- Three connectors that leave one hub: two for the same place, and one for no place at all. -/
def tied : List Connector :=
  [⟨"b", ["p", "v"], "p", "sheet"⟩, ⟨"c", ["p", "w"], "p", "sheet"⟩,
    ⟨"a", ["p", "v"], "p", "sheet"⟩]

/-- Places of which one has coordinates that are no numbers. -/
def adrift : Placements Float32 :=
  let nowhere : Float32 := 0.0 / 0.0
  .ofList [("p", ⟨⟨0.1, 0.1, 0.2, 0.2⟩, ⟨0.1, 0.1, 0.2, 0.2⟩, false⟩),
    ("v", ⟨⟨0.7, 0.1, 0.8, 0.2⟩, ⟨0.7, 0.1, 0.8, 0.2⟩, false⟩),
    ("w", ⟨⟨nowhere, 0.1, nowhere, 0.2⟩, ⟨nowhere, 0.1, nowhere, 0.2⟩, true⟩)]

theorem tied_reordered : (tied.map (·.id)).Nodup ∧ tied.Perm tied.reverse ∧
    tied ≠ tied.reverse ∧
    assign tied adrift (0.01, 0.01) = assign tied.reverse adrift (0.01, 0.01) := by
  have hids : (tied.map (·.id)).Nodup := by decide
  have hperm : tied.Perm tied.reverse := (List.reverse_perm tied).symm
  exact ⟨hids, hperm, by decide, assign_reordered hids hperm adrift _⟩

end NestedLayout.HookTable
