import NestedLayout.Listing
import NestedLayout.Proofs.Picture.Complete

/-!
# Listings that list everything

`Listing.ListsAll` says that a listing has every container, element and connector once, and every
hook once, at its element.

* `flatMap_filter_perm`: members of a list sorted into bins by a key are the list again.
* `ShowsAll.listsAll`: the listing of a picture that shows everything lists everything.
-/

set_option autoImplicit false

namespace NestedLayout

variable {α : Type}

/-- Containers, elements and connectors are listed once each, and the hooks of the picture once
each, at their elements. -/
structure Listing.ListsAll (l : Listing α) (p : Picture α) (d : Diagram) (h : Hierarchy)
    (cs : List Connector) : Prop where
  containers : (l.containers.map (·.id)).Perm h.containers.keys
  elements : (l.elements.map (·.box.id)).Perm d.elements.keys
  connectors : (l.connectors.map (·.id)).Perm (cs.map (·.id))
  hooks : (l.elements.flatMap fun e => e.hooks.map fun k => (e.box.id, k)).Perm
    (p.hooks.entries.map fun e => (e.1.endpoint, ⟨e.1.connector, e.2.side, e.2.point⟩))

/-- One member goes into one bin. -/
theorem flatMap_filter_singleton {β κ : Type} [DecidableEq κ] {f : β → κ} {bins : List κ} {b : β}
    (hn : bins.Nodup) (hb : f b ∈ bins) :
    (bins.flatMap fun k => [b].filter fun b => f b == k) = [b] := by
  induction bins with
  | nil => cases hb
  | cons k bins ih =>
    obtain ⟨hk, hn⟩ := List.nodup_cons.1 hn
    by_cases he : f b = k
    · -- the other bins stay empty
      have hrest : (bins.flatMap fun k => [b].filter fun b => f b == k) = [] := by
        simp only [List.flatMap_eq_nil_iff, List.filter_eq_nil_iff, List.mem_singleton, forall_eq]
        intro k' hk' hkey
        exact hk (he ▸ (beq_iff_eq.1 hkey) ▸ hk')
      rw [List.flatMap_cons, hrest]
      simp [he]
    · rw [List.flatMap_cons, ih hn ((List.mem_cons.1 hb).resolve_left he)]
      simp [he]

/-- **Sorting a list into bins** loses nothing when there is one bin for each key. -/
theorem flatMap_filter_perm {β κ : Type} [DecidableEq κ] {f : β → κ} {bins : List κ} {l : List β}
    (hn : bins.Nodup) (hl : ∀ b ∈ l, f b ∈ bins) :
    (bins.flatMap fun k => l.filter fun b => f b == k).Perm l := by
  induction l with
  | nil => simp
  | cons b l ih =>
    obtain ⟨hb, hl⟩ := List.forall_mem_cons.1 hl
    have hsplit := List.flatMap_append_perm bins (fun k => [b].filter fun b => f b == k)
      fun k => l.filter fun b => f b == k
    simp only [← List.filter_append, List.singleton_append] at hsplit
    refine hsplit.symm.trans ?_
    rw [flatMap_filter_singleton hn hb]
    exact (ih hl).cons b

namespace Picture

variable {p : Picture α} {d : Diagram} {h : Hierarchy} {cs : List Connector}

/-- The ids of the figures with a property, each once. -/
theorem ShowsAll.ids_perm (hp : p.ShowsAll d h cs) {q : Figure α → Bool} {ids : List String}
    (hn : ids.Nodup) (hq : ∀ id, id ∈ ids ↔ ∃ f, p.figures.get? id = some f ∧ q f = true) :
    ((p.figures.values.filter q).map (·.id)).Perm ids := by
  have hkeys : p.figures.values.map (·.id) = p.figures.keys := by
    rw [Table.values, Table.keys, List.map_map]
    refine List.map_congr_left fun e he => ?_
    exact hp.named (Table.mem_entries_iff.1 he)
  refine (List.perm_ext_iff_of_nodup ?_ hn).2 fun id => ?_
  · refine List.Nodup.sublist (List.filter_sublist.map _) ?_
    rw [hkeys]
    exact Table.nodup_keys _
  · simp only [List.mem_map, List.mem_filter, Table.mem_values_iff, hq]
    refine ⟨?_, ?_⟩
    · rintro ⟨f, ⟨⟨id', hf⟩, hqf⟩, rfl⟩
      exact ⟨f, hp.named hf ▸ hf, hqf⟩
    · rintro ⟨f, hf, hqf⟩
      exact ⟨f, ⟨⟨id, hf⟩, hqf⟩, hp.named hf⟩

/-- The figures of elements are those of the elements of the diagram. -/
theorem ShowsAll.elements_perm (hp : p.ShowsAll d h cs) :
    ((p.figures.values.filter Listing.isElement).map (·.id)).Perm d.elements.keys := by
  refine hp.ids_perm (Table.nodup_keys _) fun id => ?_
  rw [Table.mem_keys_iff, Table.contains_iff]
  refine ⟨?_, ?_⟩
  · rintro ⟨e, he⟩
    obtain ⟨f, hf, hk⟩ := hp.element he
    refine ⟨f, hf, ?_⟩
    rw [Listing.isElement, hk]
    cases e.kind <;> rfl
  · rintro ⟨f, hf, hq⟩
    rcases hp.only hf with ⟨hk, -⟩ | ⟨e, he, -⟩ | ⟨hk, -⟩
    · rw [Listing.isElement, hk] at hq
      cases hq
    · exact ⟨e, he⟩
    · rw [Listing.isElement, hk] at hq
      cases hq

/-- The figures of connectors are those of the connectors. -/
theorem ShowsAll.connectors_perm (hp : p.ShowsAll d h cs) (hids : (cs.map (·.id)).Nodup) :
    ((p.figures.values.filter fun f => f.kind == .connector).map (·.id)).Perm
      (cs.map (·.id)) := by
  refine hp.ids_perm hids fun id => ?_
  rw [List.mem_map]
  refine ⟨?_, ?_⟩
  · rintro ⟨c, hc, rfl⟩
    obtain ⟨f, hf, hk⟩ := hp.connector c hc
    exact ⟨f, hf, beq_iff_eq.2 hk⟩
  · rintro ⟨f, hf, hq⟩
    have hq := beq_iff_eq.1 hq
    rcases hp.only hf with ⟨hk, -⟩ | ⟨e, -, hk⟩ | ⟨-, hc⟩
    · cases hk.symm.trans hq
    · cases hkind : e.kind <;> rw [hkind] at hk <;> cases hk.symm.trans hq
    · exact hc

/-- Every container in the order has its figure. -/
theorem ShowsAll.order_ids (hp : p.ShowsAll d h cs) :
    (p.containerOrder.filterMap p.figures.get?).map (·.id) = p.containerOrder := by
  rw [map_filterMap_of_some (g := id), List.map_id]
  intro id hid
  obtain ⟨f, hf, -⟩ := hp.container (Table.mem_keys_iff.1 (hp.order.mem_iff.1 hid))
  exact ⟨f, hf, hp.named hf⟩

/-- The hooks of the picture, sorted by the elements at which they are, are the hooks. -/
theorem ShowsAll.hooks_perm (hp : p.ShowsAll d h cs) (hcs : Connector.Distinct d cs) :
    (((p.figures.values.filter Listing.isElement).map (·.id)).flatMap fun id =>
      p.hooks.entries.filter fun e => e.1.endpoint == id).Perm p.hooks.entries := by
  have helements := hp.elements_perm
  refine flatMap_filter_perm (f := fun e : HookKey × Hook α => e.1.endpoint)
    (helements.nodup_iff.2 (Table.nodup_keys _)) ?_
  rintro ⟨k, hook⟩ he
  obtain ⟨c, hc, -, hk⟩ := (hp.hooks k).1 (Table.contains_of_get? (Table.mem_entries_iff.1 he))
  rw [helements.mem_iff, Table.mem_keys_iff]
  exact (hcs.joining c hc).known _ hk

/-- **The listing of a picture that shows everything** lists everything. -/
theorem ShowsAll.listsAll [Scalar α] {o : Outcome α} (hp : o.picture.ShowsAll d h cs)
    (hcs : Connector.Distinct d cs) : (Listing.ofOutcome o).ListsAll o.picture d h cs := by
  refine ⟨?containers, ?elements, ?connectors, ?hooks⟩
  case containers =>
    show (((o.picture.containerOrder.filterMap o.picture.figures.get?).map Listing.boxOf).map
      (·.id)).Perm _
    rw [List.map_map]
    exact (congrArg (List.Perm · _) hp.order_ids).mpr hp.order
  case elements =>
    show (((o.picture.figures.values.filter Listing.isElement).map _).map _).Perm _
    rw [List.map_map]
    exact hp.elements_perm
  case connectors =>
    show (((o.picture.figures.values.filter _).map Listing.connectorOf).map _).Perm _
    rw [List.map_map]
    exact hp.connectors_perm hcs.ids
  case hooks =>
    refine List.Perm.trans (.of_eq ?_) ((hp.hooks_perm hcs).map fun e =>
      (e.1.endpoint, (⟨e.1.connector, e.2.side, e.2.point⟩ : ListedHook α)))
    rw [List.flatMap_map, List.map_flatMap]
    show ((o.picture.figures.values.filter Listing.isElement).map _).flatMap _ = _
    rw [List.flatMap_map]
    refine List.flatMap_congr fun f _ => ?_
    show ((o.picture.hooks.entries.filter _).map _).map _ = _
    rw [List.map_map]
    refine List.map_congr_left fun e he => ?_
    have hend : e.1.endpoint = f.id := by simpa using (List.mem_filter.1 he).2
    simp only [Function.comp, Listing.boxOf, hend]

end Picture

end NestedLayout
