import NestedLayout.Hierarchy.Connector
import NestedLayout.Proofs.Fold
import NestedLayout.Proofs.Table
import Mathlib.Data.List.Perm.Subperm

/-!
# The connectors of a diagram

* `freshId_not_mem`: a fresh id is not among the used ones, since there is a candidate more than
  there are used ids.
* `derive_spec`: the connectors of a diagram have different ids, and each joins two or more
  different elements, its hub among them.
-/

set_option autoImplicit false

namespace NestedLayout

/-- Different numbers are written differently. -/
theorem toString_inj {i j : Nat} : toString i = toString j ↔ i = j := by
  refine ⟨fun h => ?_, fun h => h ▸ rfl⟩
  rw [Nat.toString_eq_ofList_toDigits, Nat.toString_eq_ofList_toDigits] at h
  have hnumbers := congrArg (Nat.ofDigitChars 10 · 0) (String.ofList_injective h)
  simpa only [Nat.ofDigitChars_toDigits (b := 10) (by decide) (by decide)] using hnumbers

namespace Connector

/-! ## Fresh ids -/

/-- The first numbered candidates are all different. -/
theorem nodup_candidates (base : String) (n : Nat) :
    ((List.range n).map fun i => base ++ "-" ++ toString (i + 2)).Nodup := by
  refine List.nodup_range.map fun i j hij => ?_
  have hnumbers : i + 2 = j + 2 := toString_inj.1 ((String.append_right_inj _).1 hij)
  omega

/-- **A fresh id is not used.** -/
theorem freshId_not_mem (used : List String) (base : String) : freshId used base ∉ used := by
  unfold freshId
  split
  · rename_i hbase
    dsimp only
    cases hfind : (((List.range (used.length + 1)).map
        fun n => base ++ "-" ++ toString (n + 2)).find? fun id => !used.contains id) with
    | some id => simpa using List.find?_some hfind
    | none =>
      -- all candidates would be used, and there are too many of them
      have hall : ∀ id ∈ (List.range (used.length + 1)).map
          (fun n => base ++ "-" ++ toString (n + 2)), id ∈ used := by
        intro id hid
        simpa using List.find?_eq_none.1 hfind id hid
      have hle := (List.subperm_of_subset (nodup_candidates base _) hall).length_le
      rw [List.length_map, List.length_range] at hle
      omega
  · rename_i hbase
    simpa using hbase

/-! ## Hubs -/

theorem hubOf_mem (d : Diagram) {endpoints : List String} (h : endpoints ≠ []) :
    hubOf d endpoints ∈ endpoints := by
  unfold hubOf
  cases hf : endpoints.find? (isPredicate d) with
  | some id => exact List.mem_of_find?_eq_some hf
  | none =>
    cases endpoints with
    | nil => exact absurd rfl h
    | cons id rest => exact .head _

/-! ## Endpoints -/

/-- The connector joins two or more different elements, and its hub is one of them. -/
structure Joining (d : Diagram) (c : Connector) : Prop where
  known : ∀ e ∈ c.endpoints, d.elements.contains e = true
  nodup : c.endpoints.Nodup
  several : 2 ≤ c.endpoints.length
  hub : c.hub ∈ c.endpoints

theorem mem_others {c : Connector} {e : String} : e ∈ c.others ↔ e ∈ c.endpoints ∧ e ≠ c.hub := by
  simp [others]

theorem length_others {c : Connector} (hn : c.endpoints.Nodup) (hhub : c.hub ∈ c.endpoints) :
    c.others.length = c.endpoints.length - 1 := by
  rw [others, ← hn.erase_eq_filter, List.length_erase_of_mem hhub]

/-- There is an endpoint beside the hub. -/
theorem others_ne_nil {c : Connector} (hn : c.endpoints.Nodup) (hs : 2 ≤ c.endpoints.length) :
    c.others ≠ [] := by
  intro hnil
  have hhub : ∀ e ∈ c.endpoints, e = c.hub := by
    intro e he
    by_contra hne
    have := mem_others.2 ⟨he, hne⟩
    rw [hnil] at this
    cases this
  match hc : c.endpoints, hs with
  | a :: b :: rest, _ =>
    rw [hc] at hn hhub
    have hab : a = b := (hhub a (by simp)).trans (hhub b (by simp)).symm
    simp [hab] at hn

theorem Joining.others_ne_nil {d : Diagram} {c : Connector} (h : Joining d c) : c.others ≠ [] :=
  Connector.others_ne_nil h.nodup h.several

theorem nodup_appendNew {found : List String} (h : found.Nodup) (id : String) :
    (Diagram.appendNew found id).Nodup := by
  unfold Diagram.appendNew
  split
  · exact h
  · rename_i hid
    rw [List.contains_iff_mem] at hid
    exact List.nodup_append.2 ⟨h, List.nodup_singleton _, by rintro a ha b hb rfl; simp_all⟩

theorem mem_appendNew {found : List String} {id e : String} :
    e ∈ Diagram.appendNew found id ↔ e ∈ found ∨ e = id := by
  unfold Diagram.appendNew
  split <;> grind

/-- The distinct endpoints of a connection are different elements. -/
theorem distinctEndpoints_spec {d : Diagram} {label : String} {endpoints found : List String}
    (h : distinctEndpoints d label endpoints = .ok found) :
    found.Nodup ∧ ∀ e ∈ found, d.elements.contains e = true := by
  refine Fold.keepsM (fun _ found => found.Nodup ∧ ∀ e ∈ found, d.elements.contains e = true)
    ⟨List.nodup_nil, by simp⟩ (fun done id rest found found' _ ⟨hn, hk⟩ hstep => ?_) h
  split at hstep
  · cases hstep
  · rename_i hid
    cases hstep
    refine ⟨nodup_appendNew hn id, fun e he => ?_⟩
    rcases mem_appendNew.1 he with he | rfl
    · exact hk e he
    · simpa using hid

/-! ## Derivation -/

/-- Connectors with different ids, all of them joining. -/
structure Distinct (d : Diagram) (found : List Connector) : Prop where
  ids : (found.map (·.id)).Nodup
  joining : ∀ c ∈ found, Joining d c

theorem Distinct.nil (d : Diagram) : Distinct d [] := ⟨List.nodup_nil, by simp⟩

/-- **A connector that is added** gets an id of its own. -/
theorem Distinct.add {d : Diagram} {found : List Connector} (hd : Distinct d found) (h : Hierarchy)
    (base : String) {endpoints : List String} (hn : endpoints.Nodup)
    (hk : ∀ e ∈ endpoints, d.elements.contains e = true) (hs : 2 ≤ endpoints.length) :
    Distinct d (Connector.add d h found base endpoints) := by
  have hne : endpoints ≠ [] := by
    rintro rfl
    simp at hs
  refine ⟨?_, fun c hc => ?_⟩
  · have hfresh := freshId_not_mem (found.map (·.id)) base
    rw [Connector.add, List.map_append]
    refine List.nodup_append.2 ⟨hd.ids, List.nodup_singleton _, ?_⟩
    rintro a ha b hb rfl
    obtain rfl : a = _ := List.mem_singleton.1 hb
    exact hfresh ha
  · rcases List.mem_append.1 hc with hc | hc
    · exact hd.joining c hc
    · obtain rfl := List.mem_singleton.1 hc
      exact ⟨hk, hn, hs, hubOf_mem d hne⟩

theorem addExplicit_distinct {d : Diagram} {h : Hierarchy} {found found' : List Connector}
    {connection : Diagram.Connection × Nat} (hd : Distinct d found)
    (ha : addExplicit d h found connection = .ok found') : Distinct d found' := by
  unfold addExplicit at ha
  dsimp only at ha
  cases he : distinctEndpoints d
      (connection.1.id.getD ("connector-" ++ toString (connection.2 + 1)))
      connection.1.endpoints with
  | error e => rw [he] at ha; cases ha
  | ok endpoints =>
    rw [he] at ha
    obtain ⟨hn, hk⟩ := distinctEndpoints_spec he
    change (if endpoints.length < 2 then _ else _) = _ at ha
    split at ha
    · cases ha
    · rename_i hs
      cases ha
      exact hd.add h _ hn hk (by omega)

theorem addPair_distinct {d : Diagram} {h : Hierarchy} {found found' : List Connector}
    {pair : String × String} (hsource : d.elements.contains pair.1 = true) (hd : Distinct d found)
    (ha : addPair d h found pair = .ok found') : Distinct d found' := by
  obtain ⟨source, target⟩ := pair
  unfold addPair at ha
  dsimp only at ha
  split at ha
  · cases ha
  · rename_i htarget
    split at ha
    · cases ha
    · rename_i hne
      split at ha
      · cases ha
        exact hd
      · have htarget : d.elements.contains target = true := by simpa using htarget
        split at ha
        · cases ha
          refine hd.add h _ ?_ ?_ (Nat.le_refl 2)
          · simpa using Ne.symm hne
          · simpa using ⟨hsource, htarget⟩
        · cases ha
          refine hd.add h _ ?_ ?_ (Nat.le_refl 2)
          · simpa using hne
          · simpa using ⟨htarget, hsource⟩

/-- **The connectors of a diagram** have different ids and join elements. -/
theorem derive_spec {d : Diagram} {h : Hierarchy} {cs : List Connector}
    (hc : derive d h = .ok cs) : Distinct d cs := by
  unfold derive at hc
  cases he : d.connections.zipIdx.foldlM (addExplicit d h) [] with
  | error e => rw [he] at hc; cases hc
  | ok explicit =>
    rw [he] at hc
    have hexplicit : Distinct d explicit := Fold.keepsM (fun _ found => Distinct d found) (.nil d)
      (fun _ _ _ _ _ _ hd ha => addExplicit_distinct hd ha) he
    refine Fold.keepsM (fun _ found => Distinct d found) hexplicit
      (fun done pair rest found found' hs hd ha => addPair_distinct ?_ hd ha) hc
    -- the first of a pair is an element with a connection
    have hpair : pair ∈ pairs d := hs ▸ List.mem_append_right _ (.head _)
    obtain ⟨e, hm, hp⟩ := List.mem_flatMap.1 hpair
    obtain ⟨target, -, rfl⟩ := List.mem_map.1 hp
    exact Table.contains_of_get? (Table.mem_entries_iff.1 hm)

end Connector

end NestedLayout
