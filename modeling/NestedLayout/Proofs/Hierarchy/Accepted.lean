import NestedLayout.Proofs.Hierarchy.Depths

/-!
# Which diagrams have a container tree

* `extract_eq_ok_iff`: all that a successful extraction has checked, and the tree it returns.
* `extract_isOk_iff_wellFormed`: a diagram has a container tree exactly when it is well formed
  (`Diagram.WellFormed`), so that the order of the checks only decides which fault is reported.
-/

set_option autoImplicit false

namespace NestedLayout.Hierarchy

open Diagram (Area Lists Declares)

/-- **A successful extraction**: every check and every pass, and the tree. -/
theorem extract_eq_ok_iff {d : Diagram} {h : Hierarchy} :
    extract d = .ok h ↔ ∃ rootArea owners ps es ds,
      d.areas.get? d.root = some rootArea ∧
      d.areas.keys.find? d.elements.contains = none ∧
      listedOwners d = .ok owners ∧
      (owners.get? d.root).or rootArea.parent = none ∧
      parents d owners = .ok ps ∧ elementOwners d owners = .ok es ∧ depths d ps = .ok ds ∧
      h = ⟨d.root, d.areas.map (node d owners ps ds), es⟩ := by
  simp only [extract, bind, Except.bind, pure, Except.pure]
  refine ⟨fun he => ?_, ?_⟩
  · split at he
    · rename_i rootArea hr
      split at he
      · cases he
      · rename_i hf
        split at he
        · cases he
        · rename_i owners ho
          split at he
          · cases he
          · rename_i hp
            split at he
            · cases he
            · rename_i ps hps
              split at he
              · cases he
              · rename_i es hes
                split at he
                · cases he
                · rename_i ds hds
                  cases he
                  exact ⟨rootArea, owners, ps, es, ds, hr, hf, ho, hp, hps, hes, hds, rfl⟩
    · cases he
  · rintro ⟨rootArea, owners, ps, es, ds, hr, hf, ho, hp, hps, hes, hds, rfl⟩
    simp only [hr, hf, ho, hp, hps, hes, hds]

theorem find?_keys_eq_none_iff {d : Diagram} :
    d.areas.keys.find? d.elements.contains = none ↔
      ∀ id, d.areas.contains id = true → d.elements.contains id = false := by
  simp [Table.mem_keys_iff]

/-- No id of an accepted diagram is both that of an area and that of an element. -/
theorem ids_apart {d : Diagram} {h : Hierarchy} (he : extract d = .ok h) (id : String)
    (hid : d.areas.contains id = true) : d.elements.contains id = false := by
  obtain ⟨-, -, -, -, -, -, hfind, -⟩ := extract_eq_ok_iff.1 he
  exact find?_keys_eq_none_iff.1 hfind id hid

/-- The root has no parent when nothing lists it and it declares none. -/
theorem rootParent_eq_none_iff {d : Diagram} {owners : IdTable String} {rootArea : Area}
    (hr : d.areas.get? d.root = some rootArea) (ho : listedOwners d = .ok owners) :
    (owners.get? d.root).or rootArea.parent = none ↔
      (∀ area, ¬ Lists d area d.root) ∧ ∀ parent, ¬ Declares d d.root parent := by
  rw [Option.or_eq_none_iff, owners_none_iff ho]
  refine and_congr_right fun _ => ?_
  simp [Declares, hr, Option.eq_none_iff_forall_ne_some]

/-- **A diagram has a container tree exactly when it is well formed.** -/
theorem extract_isOk_iff_wellFormed (d : Diagram) :
    (∃ h, extract d = .ok h) ↔ d.WellFormed := by
  refine ⟨?_, fun hw => ?_⟩
  · rintro ⟨h, he⟩
    obtain ⟨rootArea, owners, ps, es, ds, hr, hf, ho, hp, hps, hes, hds, -⟩ :=
      extract_eq_ok_iff.1 he
    obtain ⟨hk, hs, hu⟩ := listedOwners_ok_iff.1 ⟨owners, ho⟩
    obtain ⟨hul, hud⟩ := (rootParent_eq_none_iff hr ho).1 hp
    obtain ⟨hpl, hag⟩ := (parents_ok_iff ho).1 ⟨ps, hps⟩
    exact
      { rootDeclared := Table.contains_of_get? hr
        idsApart := find?_keys_eq_none_iff.1 hf
        itemsKnown := hk
        noSelf := hs
        oneOwner := hu
        rootUnlisted := hul
        rootUndeclared := hud
        placed := hpl
        agree := hag
        owned := (elementOwners_ok_iff ho).1 ⟨es, hes⟩
        rooted := (depths_ok_iff ho hps).1 ⟨ds, hds⟩ }
  · obtain ⟨rootArea, hr⟩ := Table.contains_iff.1 hw.rootDeclared
    obtain ⟨owners, ho⟩ := listedOwners_ok_iff.2 ⟨hw.itemsKnown, hw.noSelf, hw.oneOwner⟩
    obtain ⟨ps, hps⟩ := (parents_ok_iff ho).2 ⟨hw.placed, hw.agree⟩
    obtain ⟨es, hes⟩ := (elementOwners_ok_iff ho).2 hw.owned
    obtain ⟨ds, hds⟩ := (depths_ok_iff ho hps).2 hw.rooted
    exact ⟨_, extract_eq_ok_iff.2 ⟨rootArea, owners, ps, es, ds, hr,
      find?_keys_eq_none_iff.2 hw.idsApart, ho,
      (rootParent_eq_none_iff hr ho).2 ⟨hw.rootUnlisted, hw.rootUndeclared⟩, hps, hes, hds, rfl⟩⟩

end NestedLayout.Hierarchy
