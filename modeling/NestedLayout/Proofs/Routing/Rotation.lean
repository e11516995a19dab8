import NestedLayout.Proofs.Exact.Scalar
import NestedLayout.Proofs.Routing.Hook
import Mathlib.Data.List.Nodup

/-!
# Sides around a hub

Connectors with different ids, different endpoints and a hub among these are `Hookable`. Their hooks
are all of their own: `size_of_contains` counts them, and no connector overwrites those of another
one, so that a hook at a hub stays where the turn around that hub has put it (`get?_assign_hub`).

The order of the connectors around a hub is the one by angle and id, and only that one when angles
are totally ordered: `AroundHub` lists are the one that the assignment goes through
(`aroundHub_iff`). Along such a list the sides turn clockwise, a quarter each (`assign_turning`).
-/

set_option autoImplicit false

namespace NestedLayout

variable {α : Type} [Scalar α]

/-! ## Turns -/

namespace Side

theorem turn_ofTurn (n : Nat) : (ofTurn n).turn = n % 4 := by
  have hcases : n % 4 = 0 ∨ n % 4 = 1 ∨ n % 4 = 2 ∨ n % 4 = 3 := by omega
  rcases hcases with h | h | h | h <;> simp only [ofTurn, h, turn]

/-- Less than a full turn leads to another side. -/
theorem ofTurn_ne {m n : Nat} (hlt : m < n) (hn : n < m + 4) : ofTurn m ≠ ofTurn n := by
  intro h
  have hturn := congrArg turn h
  rw [turn_ofTurn, turn_ofTurn] at hturn
  omega

end Side

/-! ## The order by angle -/

/-- The comparison behind `beforeByAngle`. -/
def compareByAngle : α × String → α × String → Ordering :=
  compareLex (fun a b => Scalar.compareTotal a.1 b.1) (compareOn (·.2))

theorem beforeByAngle_eq (a b : α × String) : beforeByAngle a b = (compareByAngle a b).isLE := rfl

section
variable [Std.TransCmp (Scalar.compareTotal (α := α))]

instance : Std.TransCmp (compareByAngle (α := α)) := by
  have hswap : ∀ x y : α, Scalar.compareTotal x y = (Scalar.compareTotal y x).swap :=
    fun _ _ => Std.OrientedCmp.eq_swap
  have htrans : ∀ {x y z : α}, (Scalar.compareTotal x y).isLE → (Scalar.compareTotal y z).isLE →
      (Scalar.compareTotal x z).isLE := Std.TransCmp.isLE_trans
  have hangle : Std.TransCmp fun a b : α × String => Scalar.compareTotal a.1 b.1 :=
    { eq_swap := hswap _ _
      isLE_trans := htrans }
  exact inferInstanceAs (Std.TransCmp (compareLex _ _))

theorem beforeByAngle_trans {a b c : α × String} (hab : beforeByAngle a b = true)
    (hbc : beforeByAngle b c = true) : beforeByAngle a c = true := by
  rw [beforeByAngle_eq] at hab hbc ⊢
  exact Std.TransCmp.isLE_trans hab hbc

theorem beforeByAngle_total (a b : α × String) :
    (beforeByAngle a b || beforeByAngle b a) = true := by
  have hswap : compareByAngle b a = (compareByAngle a b).swap := Std.OrientedCmp.eq_swap
  rw [Bool.or_eq_true, beforeByAngle_eq, beforeByAngle_eq, hswap, Ordering.isLE_swap]
  cases compareByAngle a b <;> decide

/-- What is before each other has one id. -/
theorem eq_of_beforeByAngle {a b : α × String} (hab : beforeByAngle a b = true)
    (hba : beforeByAngle b a = true) : a.2 = b.2 := by
  have heq : compareByAngle a b = .eq := Std.OrientedCmp.isLE_antisymm hab hba
  exact Table.compare_eq_iff.1 (compareLex_eq_eq.1 heq).2

end

/-! ## Connectors with hooks of their own -/

/-- Connectors with different ids, each with different endpoints and its hub among them. -/
structure Connector.Hookable (cs : List Connector) : Prop where
  ids : (cs.map (·.id)).Nodup
  endpoints : ∀ c ∈ cs, c.endpoints.Nodup
  hub : ∀ c ∈ cs, c.hub ∈ c.endpoints

theorem Connector.Distinct.hookable {d : Diagram} {cs : List Connector} (h : Distinct d cs) :
    Hookable cs :=
  ⟨h.ids, fun c hc => (h.joining c hc).nodup, fun c hc => (h.joining c hc).hub⟩

/-- The connectors at a hub, in the order of their angles and ids. -/
structure Connector.AroundHub (cs : List Connector) (placements : Placements α) (hub : String)
    (l : List Connector) : Prop where
  perm : l.Perm (cs.filter fun c => c.hub == hub)
  sorted : l.Pairwise fun a b => beforeByAngle (a.angle placements, a.id) (b.angle placements, b.id)

namespace HookTable

/-- The side on which a connector leaves its hub. -/
def sideAtHub (hooks : HookTable α) (c : Connector) : Option Side :=
  (hooks.hook? c c.hub).map (·.side)

/-- There is a hook for every endpoint of every connector and no other one. Around every hub the
connectors turn clockwise by a quarter each, from the side nearest to the angle of the first, so
that of four neighbours no two share a side. -/
structure Turning (cs : List Connector) (placements : Placements α) (hooks : HookTable α) :
    Prop where
  complete : ∀ k : HookKey, hooks.contains k = true ↔ ∃ c ∈ cs, k.OfConnector c
  size : hooks.size = (cs.map (·.endpoints.length)).sum
  turn : ∀ hub l, Connector.AroundHub cs placements hub l → ∀ first ∈ l.head?, ∀ k c,
    l[k]? = some c →
      hooks.sideAtHub c = some (.ofTurn ((Side.ofAngle (first.angle placements)).turn + k))
  apart : ∀ hub l, Connector.AroundHub cs placements hub l → ∀ i j a b, i < j → j < i + 4 →
    l[i]? = some a → l[j]? = some b → hooks.sideAtHub a ≠ hooks.sideAtHub b

section
variable {cs : List Connector} (hcs : Connector.Hookable cs)
include hcs

omit [Scalar α] in
/-- **Hooks for all endpoints and no others** are as many as there are endpoints. -/
theorem size_of_contains {hooks : HookTable α}
    (h : ∀ k : HookKey, hooks.contains k = true ↔ ∃ c ∈ cs, k.OfConnector c) :
    hooks.size = (cs.map (·.endpoints.length)).sum := by
  have hkeys : (cs.flatMap fun c => c.endpoints.map fun e => (⟨c.id, e⟩ : HookKey)).Nodup := by
    refine List.nodup_flatMap.2 ⟨fun c hc => ?_, ?_⟩
    · exact (hcs.endpoints c hc).map fun e e' he => (HookKey.mk.inj he).2
    · refine (List.pairwise_map.1 hcs.ids).imp fun {c c'} hne k hk hk' => ?_
      obtain ⟨e, -, rfl⟩ := List.mem_map.1 hk
      obtain ⟨e', -, he⟩ := List.mem_map.1 hk'
      exact hne (HookKey.mk.inj he).1.symm
  have hperm : hooks.keys.Perm
      (cs.flatMap fun c => c.endpoints.map fun e => (⟨c.id, e⟩ : HookKey)) := by
    refine (List.perm_ext_iff_of_nodup (Table.nodup_keys _) hkeys).2 fun k => ?_
    rw [Table.mem_keys_iff, h]
    obtain ⟨connector, endpoint⟩ := k
    simp only [HookKey.OfConnector, List.mem_flatMap, List.mem_map, HookKey.mk.injEq]
    refine ⟨?_, ?_⟩
    · rintro ⟨c, hc, rfl, he⟩
      exact ⟨c, hc, endpoint, he, rfl, rfl⟩
    · rintro ⟨c, hc, e, he, rfl, rfl⟩
      exact ⟨c, hc, rfl, he⟩
  rw [← Table.length_keys, hperm.length_eq, List.length_flatMap]
  simp only [List.length_map]

/-- Connectors with one id are one. -/
theorem eq_of_id {c c' : Connector} (hc : c ∈ cs) (hc' : c' ∈ cs) (hid : c.id = c'.id) : c = c' :=
  List.inj_on_of_nodup_map hcs.ids hc hc' hid

/-! ## The order around a hub -/

variable {placements : Placements α} {hub : String}

omit hcs in
theorem spokes_perm (cs : List Connector) (placements : Placements α) (hub : String) :
    ((spokes cs placements hub).map (·.2)).Perm (cs.filter fun c => c.hub == hub) := by
  have hsorted := (List.mergeSort_perm ((cs.filter fun c => c.hub == hub).map
    fun c => (c.angle placements, c)) fun a b => beforeByAngle (a.1, a.2.id) (b.1, b.2.id)).map
      (·.2)
  simpa [spokes, Function.comp_def] using hsorted

omit hcs in
/-- The spokes are sorted by angle and id. -/
theorem spokes_pairwise [Std.TransCmp (Scalar.compareTotal (α := α))] (cs : List Connector)
    (placements : Placements α) (hub : String) : (spokes cs placements hub).Pairwise
      fun a b => beforeByAngle (a.1, a.2.id) (b.1, b.2.id) :=
  List.pairwise_mergeSort
    (fun x y z =>
      beforeByAngle_trans (a := (x.1, x.2.id)) (b := (y.1, y.2.id)) (c := (z.1, z.2.id)))
    (fun x y => beforeByAngle_total (x.1, x.2.id) (y.1, y.2.id)) _

/-- **There is one order around a hub**, the one of the spokes. -/
theorem aroundHub_iff [Std.TransCmp (Scalar.compareTotal (α := α))] {l : List Connector} :
    Connector.AroundHub cs placements hub l ↔ l = (spokes cs placements hub).map (·.2) := by
  have hspokes : Connector.AroundHub cs placements hub ((spokes cs placements hub).map (·.2)) := by
    refine ⟨spokes_perm cs placements hub, List.pairwise_map.2 ?_⟩
    refine (spokes_pairwise cs placements hub).imp_of_mem fun {a b} ha hb hab => ?_
    obtain ⟨-, -, hangle⟩ := mem_spokes_iff.1 ha
    obtain ⟨-, -, hangle'⟩ := mem_spokes_iff.1 hb
    rwa [hangle, hangle'] at hab
  refine ⟨fun hl => ?_, fun h => h ▸ hspokes⟩
  refine List.Perm.eq_of_pairwise (fun a b ha hb hab hba => ?_) hl.sorted hspokes.sorted
    (hl.perm.trans hspokes.perm.symm)
  exact eq_of_id hcs (List.mem_filter.1 (hl.perm.mem_iff.1 ha)).1
    (List.mem_filter.1 (hspokes.perm.mem_iff.1 hb)).1 (eq_of_beforeByAngle hab hba)

/-! ## Hooks at hubs -/

variable {ring : α × α}

omit hcs in
/-- One connector leaves the hooks of the others alone. -/
theorem get?_assignOne_of_ne {hooks : HookTable α} {c : Connector} {side : Side} {k : HookKey}
    (hk : k.connector ≠ c.id) :
    (assignOne placements ring hooks c side).get? k = hooks.get? k := by
  have hne : ∀ id, k ≠ ⟨c.id, id⟩ := fun id he => hk (congrArg HookKey.connector he)
  refine Fold.keeps (fun _ (t : HookTable α) => t.get? k = hooks.get? k)
    (Table.get?_insert_ne _ _ (hne _)) fun _ id _ t _ ht => ?_
  exact (Table.get?_insert_ne _ _ (hne id)).trans ht

omit hcs in
/-- One connector has its hook at the hub on the given side. -/
theorem get?_assignOne_hub (hooks : HookTable α) (c : Connector) (side : Side) :
    (assignOne placements ring hooks c side).get? ⟨c.id, c.hub⟩ =
      some (.on (Placement.bodyOf placements c.hub) side ring) := by
  refine Fold.keeps (fun _ (t : HookTable α) => t.get? ⟨c.id, c.hub⟩ =
    some (.on (Placement.bodyOf placements c.hub) side ring)) (Table.get?_insert_self _ _ _)
    fun done id rest t hs ht => ?_
  have hid : id ∈ c.others := hs ▸ List.mem_append_right _ (.head _)
  refine (Table.get?_insert_ne _ _ fun he => ?_).trans ht
  exact (Connector.mem_others.1 hid).2 (HookKey.mk.inj he).2.symm

/-- The turn of the first side around a hub. -/
def firstTurn (spokes : List (α × Connector)) : Nat :=
  match spokes with
  | [] => 0
  | (angle, _) :: _ => (Side.ofAngle angle).turn

/-- The connectors of one hub leave the hooks of other connectors alone. -/
theorem get?_assignAround_of_ne {hooks : HookTable α} {c : Connector} (hc : c ∈ cs)
    (hne : c.hub ≠ hub) (endpoint : String) :
    (assignAround cs placements ring hooks hub).get? ⟨c.id, endpoint⟩ =
      hooks.get? ⟨c.id, endpoint⟩ := by
  refine Fold.keeps (fun _ (t : HookTable α) => t.get? ⟨c.id, endpoint⟩ =
    hooks.get? ⟨c.id, endpoint⟩) rfl fun done spoke rest t hs ht => ?_
  have hspoke := List.fst_mem_of_mem_zipIdx (hs ▸ List.mem_append_right done (.head rest))
  obtain ⟨hc', hhub, -⟩ := mem_spokes_iff.1 hspoke
  refine (get?_assignOne_of_ne fun hid => hne ?_).trans ht
  rw [eq_of_id hcs hc hc' hid, hhub]

/-- The connectors of one hub have their hooks there, one after the other. -/
theorem get?_assignAround_hub (hooks : HookTable α) {k : Nat} {spoke : α × Connector}
    (hk : (spokes cs placements hub)[k]? = some spoke) :
    (assignAround cs placements ring hooks hub).get? ⟨spoke.2.id, hub⟩ =
      some (.on (Placement.bodyOf placements hub)
        (.ofTurn (firstTurn (spokes cs placements hub) + k)) ring) := by
  have hids : ((spokes cs placements hub).zipIdx.map (·.1.2.id)).Nodup := by
    have hperm := (spokes_perm cs placements hub).map (·.id)
    rw [List.map_map, ← List.zipIdx_map_fst 0 (spokes cs placements hub), List.map_map] at hperm
    exact hperm.nodup_iff.2 (hcs.ids.sublist (List.filter_sublist.map _))
  refine Fold.keeps (l := (spokes cs placements hub).zipIdx)
    (fun done (t : HookTable α) => ∀ s ∈ done, t.get? ⟨s.1.2.id, hub⟩ =
      some (.on (Placement.bodyOf placements hub)
        (.ofTurn (firstTurn (spokes cs placements hub) + s.2)) ring)) (by simp)
    (fun done s rest t hs ht s' hs' => ?_) (spoke, k) (List.mem_zipIdx_iff_getElem?.2 hk)
  rcases List.mem_append.1 hs' with hdone | hnew
  · rw [hs, List.map_append, List.map_cons] at hids
    refine (get?_assignOne_of_ne fun hid => ?_).trans (ht s' hdone)
    exact List.disjoint_of_nodup_append hids (List.mem_map_of_mem hdone) (hid ▸ .head _)
  · obtain rfl := List.mem_singleton.1 hnew
    have hspoke := List.fst_mem_of_mem_zipIdx (hs ▸ List.mem_append_right done (.head rest))
    obtain ⟨-, hhub, -⟩ := mem_spokes_iff.1 hspoke
    rw [← hhub]
    exact get?_assignOne_hub t s'.1.2 _

/-- **A hook at a hub** is on the side that the turn around this hub has come to. -/
theorem get?_assign_hub {k : Nat} {spoke : α × Connector}
    (hk : (spokes cs placements hub)[k]? = some spoke) :
    (assign cs placements ring).get? ⟨spoke.2.id, hub⟩ =
      some (.on (Placement.bodyOf placements hub)
        (.ofTurn (firstTurn (spokes cs placements hub) + k)) ring) := by
  obtain ⟨hc, hhub, -⟩ := mem_spokes_iff.1 (List.mem_of_getElem? hk)
  refine Fold.keeps (l := hubs cs) (f := assignAround cs placements ring)
    (fun done (t : HookTable α) => hub ∈ done → t.get? ⟨spoke.2.id, hub⟩ =
      some (.on (Placement.bodyOf placements hub)
        (.ofTurn (firstTurn (spokes cs placements hub) + k)) ring)) (by simp)
    (fun done x rest t hs ht hmem => ?_) (mem_hubs_iff.2 ⟨_, hc, hhub⟩)
  by_cases hx : x = hub
  · subst hx
    exact get?_assignAround_hub hcs t hk
  · refine (get?_assignAround_of_ne hcs hc (fun he => hx (he.symm.trans hhub)) hub).trans (ht ?_)
    exact (List.mem_append.1 hmem).resolve_right fun he => hx (List.mem_singleton.1 he).symm

/-- **Assigned hooks** are complete and turn around every hub. -/
theorem assign_turning [Std.TransCmp (Scalar.compareTotal (α := α))] (placements : Placements α)
    (ring : α × α) : Turning cs placements (assign cs placements ring) := by
  have hcomplete : ∀ k : HookKey, (assign cs placements ring).contains k = true ↔
      ∃ c ∈ cs, k.OfConnector c := fun _ => contains_assign_iff hcs.hub
  have hturn : ∀ hub l, Connector.AroundHub cs placements hub l → ∀ first ∈ l.head?, ∀ k c,
      l[k]? = some c → (assign cs placements ring).sideAtHub c =
        some (.ofTurn ((Side.ofAngle (first.angle placements)).turn + k)) := by
    intro hub l hl first hfirst k c hk
    rw [(aroundHub_iff hcs).1 hl] at hfirst hk
    rw [List.getElem?_map, Option.map_eq_some_iff] at hk
    obtain ⟨⟨angle, c⟩, hspoke, rfl⟩ := hk
    obtain ⟨-, hhub, -⟩ := mem_spokes_iff.1 (List.mem_of_getElem? hspoke)
    have hstart : firstTurn (spokes cs placements hub) =
        (Side.ofAngle (first.angle placements)).turn := by
      cases hs : spokes cs placements hub with
      | nil => rw [hs] at hfirst; cases hfirst
      | cons spoke rest =>
        rw [hs] at hfirst
        cases hfirst
        obtain ⟨-, -, hangle⟩ := mem_spokes_iff.1 (hs ▸ List.mem_cons_self (l := rest))
        rw [firstTurn, hangle]
    have hget : (assign cs placements ring).get? ⟨c.id, hub⟩ = _ := get?_assign_hub hcs hspoke
    rw [sideAtHub, hook?, show c.hub = hub from hhub, hget, ← hstart, Option.map_some, Hook.on]
    split <;> rfl
  refine ⟨hcomplete, size_of_contains hcs hcomplete, hturn, fun hub l hl i j a b hij hj ha hb => ?_⟩
  obtain ⟨first, hfirst⟩ : ∃ first, l.head? = some first := by
    cases l with
    | nil => cases ha
    | cons first rest => exact ⟨first, rfl⟩
  rw [hturn hub l hl first hfirst i a ha, hturn hub l hl first hfirst j b hb]
  exact fun he => Side.ofTurn_ne (by omega) (by omega) (Option.some.inj he)

end

end HookTable

end NestedLayout
