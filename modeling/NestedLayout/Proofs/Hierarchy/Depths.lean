import NestedLayout.Proofs.Hierarchy.Extraction
import Mathlib.Data.Finset.Card

/-!
# Depths of areas

The depth of an area is its number of steps below the root (`Below`). Walks up the parents measure
it, and each of them stops at the first area whose depth is known.

* `climb_ok`, `climb_of_below`: a walk ends whenever there is such a number, since a chain of
  parents that ends at the root repeats no container and so is shorter than the list of all of them
  (`lt_length_of_levels`).
* `Way.recordWay`: what a walk records are these numbers.
* `depths_ok_iff`, `depths_get?`: all walks end exactly when every area is below the root, and the
  table then holds the depths.
-/

set_option autoImplicit false

namespace NestedLayout.Hierarchy

open Diagram (Lists ParentIs)

/-! ## Steps to the root -/

/-- The container is that many steps below the root. -/
inductive Below (root : String) (ps : IdTable String) : Nat → String → Prop
  | root : Below root ps 0 root
  | step {n : Nat} {id parent : String} : id ≠ root → ps.get? id = some parent →
      Below root ps n parent → Below root ps (n + 1) id

section
variable {root : String} {ps : IdTable String}

theorem Below.unique {m n : Nat} {id : String} (hm : Below root ps m id)
    (hn : Below root ps n id) : m = n := by
  induction hm generalizing n with
  | root =>
    cases hn with
    | root => rfl
    | step hr _ _ => exact absurd rfl hr
  | step hr hp _ ih =>
    cases hn with
    | root => exact absurd rfl hr
    | step _ hp' hn =>
      rw [hp] at hp'
      cases hp'
      rw [ih hn]

theorem Below.levels {n : Nat} {id : String} (hb : Below root ps n id) {l : List String}
    (hid : id ∈ l) (hl : ∀ {x parent}, ps.get? x = some parent → parent ∈ l) :
    ∀ j ≤ n, ∃ x ∈ l, Below root ps j x := by
  induction hb with
  | root =>
    intro j hj
    cases Nat.le_zero.1 hj
    exact ⟨root, hid, .root⟩
  | @step n id parent hr hp hb ih =>
    intro j hj
    rcases Nat.lt_or_ge n j with h | h
    · cases show j = n + 1 by omega
      exact ⟨id, hid, .step hr hp hb⟩
    · exact ih (hl hp) j h

/-- **Levels are few**: where each level up to `k` has a member in a list, and no member is on two
levels, the list is longer than `k`. -/
theorem lt_length_of_levels {P : Nat → String → Prop} {l : List String} {k : Nat}
    (unique : ∀ m n x, P m x → P n x → m = n) (h : ∀ j ≤ k, ∃ x ∈ l, P j x) : k < l.length := by
  choose! f hf using h
  have hinj : Set.InjOn f (Finset.range (k + 1)) := by
    intro i hi j hj he
    simp only [Finset.coe_range, Set.mem_Iio] at hi hj
    have hj' := (hf j (by omega)).2
    rw [← he] at hj'
    exact unique i j (f i) (hf i (by omega)).2 hj'
  have hcard : (Finset.range (k + 1)).card ≤ l.toFinset.card :=
    Finset.card_le_card_of_injOn f (fun i hi => by
      have := (hf i (by simpa [Nat.lt_succ_iff] using hi)).1
      simpa using this) hinj
  have := l.toFinset_card_le
  rw [Finset.card_range] at hcard
  omega

/-! ## Walks -/

/-- A way up: the containers from the given one to the first whose depth is known, and that
depth. -/
inductive Way (ps : IdTable String) (ds : IdTable Nat) : List String → String → Nat → Prop
  | known {id : String} {top : Nat} : ds.get? id = some top → Way ps ds [] id top
  | up {way : List String} {id parent : String} {top : Nat} : ds.get? id = none →
      ps.get? id = some parent → Way ps ds way parent top → Way ps ds (id :: way) id top

/-- **A walk that ends** has found a way up. -/
theorem climb_ok {ds : IdTable Nat} {n : Nat} {passed : List String} {id : String}
    {found : List String × Nat} (h : climb ps ds n passed id = .ok found) :
    ∃ way, found.1 = passed ++ way ∧ Way ps ds way id found.2 := by
  induction n generalizing passed id with
  | zero => simp [climb] at h
  | succ n ih =>
    unfold climb at h
    split at h
    · rename_i top hd
      cases h
      exact ⟨[], (List.append_nil _).symm, .known hd⟩
    · rename_i hd
      split at h
      · cases h
      · split at h
        · rename_i parent hp
          obtain ⟨way, hw, hway⟩ := ih h
          exact ⟨id :: way, by simp [hw], .up hd hp hway⟩
        · cases h

/-- **A walk ends** if there are steps to the root, given enough fuel: what was passed lies further
below than what is ahead, so nothing is met twice. -/
theorem climb_of_below {ds : IdTable Nat} (htop : ds.get? root = some 0) {n j : Nat}
    (passed : List String) {id : String} (hb : Below root ps j id) (hn : j < n)
    (hp : ∀ x ∈ passed, ∃ m > j, Below root ps m x) :
    ∃ found, climb ps ds n passed id = .ok found := by
  induction hb generalizing n passed with
  | root =>
    obtain ⟨n, rfl⟩ : ∃ m, n = m + 1 := ⟨n - 1, by omega⟩
    exact ⟨(passed, 0), by simp [climb, htop]⟩
  | @step j id parent hr hpar hb ih =>
    obtain ⟨n, rfl⟩ : ∃ m, n = m + 1 := ⟨n - 1, by omega⟩
    have hnew : passed.contains id = false := by
      rw [List.contains_eq_mem, decide_eq_false_iff_not]
      intro hm
      obtain ⟨m, hlt, hm⟩ := hp id hm
      have := hm.unique (.step hr hpar hb)
      omega
    rw [climb]
    cases hd : ds.get? id with
    | some top => exact ⟨_, rfl⟩
    | none =>
      rw [hnew, if_neg Bool.false_ne_true, hpar]
      refine ih (passed ++ [id]) (by omega) fun x hx => ?_
      rcases List.mem_append.1 hx with hx | hx
      · obtain ⟨m, hlt, hm⟩ := hp x hx
        exact ⟨m, by omega, hm⟩
      · cases List.mem_singleton.1 hx
        exact ⟨j + 1, by omega, .step hr hpar hb⟩

/-! ## What a walk records -/

/-- A table of depths that holds the depth of the root, and of every container in it the number of
steps to the root. -/
structure Measured (root : String) (ps : IdTable String) (ds : IdTable Nat) : Prop where
  top : ds.get? root = some 0
  below : ∀ {id n}, ds.get? id = some n → Below root ps n id

/-- **Recording a way** adds the depths of what is on it. -/
theorem Way.recordWay {ds : IdTable Nat} {way : List String} {id : String} {top : Nat}
    (w : Way ps ds way id top) (hm : Measured root ps ds) :
    Measured root ps (recordWay ds top way).1 ∧
      (recordWay ds top way).1.get? id = some (recordWay ds top way).2 ∧
      ∀ {x}, ds.contains x = true → (recordWay ds top way).1.contains x = true := by
  induction w with
  | known hd => exact ⟨hm, hd, fun hx => hx⟩
  | @up way id parent top hd hp w ih =>
    obtain ⟨hrest, hparent, hkept⟩ := ih
    have hr : id ≠ root := by
      rintro rfl
      cases hd.symm.trans hm.top
    have hb := Below.step hr hp (hrest.below hparent)
    refine ⟨⟨?_, fun {x n} hx => ?_⟩, Table.get?_insert_self _ _ _, fun {x} hx => ?_⟩
    · exact (Table.get?_insert_ne _ _ hr.symm).trans hrest.top
    · rw [Hierarchy.recordWay, List.foldr_cons, Table.get?_insert_eq] at hx
      split at hx
      · rename_i he
        cases hx
        exact he ▸ hb
      · exact hrest.below hx
    · obtain ⟨n, hn⟩ := Table.contains_iff.1 (hkept hx)
      rw [Hierarchy.recordWay, List.foldr_cons, Table.contains_iff]
      simp only [Table.get?_insert_eq]
      split
      · exact ⟨_, rfl⟩
      · exact ⟨n, hn⟩

end

/-! ## The pass over all areas -/

section
variable {d : Diagram} {ps : IdTable String}

theorem addDepth_ok {ds ds' : IdTable Nat} {id : String} (hm : Measured d.root ps ds)
    (h : addDepth d ps ds id = .ok ds') :
    Measured d.root ps ds' ∧ ds'.contains id = true ∧
      ∀ {x}, ds.contains x = true → ds'.contains x = true := by
  unfold addDepth at h
  cases hc : climb ps ds (d.areas.size + 1) [] id with
  | error e => rw [hc] at h; cases h
  | ok found =>
    rw [hc] at h
    cases h
    obtain ⟨way, hw, hway⟩ := climb_ok hc
    rw [List.nil_append] at hw
    rw [hw]
    obtain ⟨hm', hself, hkept⟩ := hway.recordWay hm
    exact ⟨hm', Table.contains_of_get? hself, hkept⟩

/-- What the pass over the areas has measured when the given ones are done. -/
structure MeasuredUpTo (root : String) (ps : IdTable String) (done : List String)
    (ds : IdTable Nat) : Prop extends Measured root ps ds where
  known : ∀ {id}, id ∈ done → ds.contains id = true

theorem MeasuredUpTo.start (root : String) (ps : IdTable String) :
    MeasuredUpTo root ps [] (Table.empty.insert root 0) := by
  refine ⟨⟨Table.get?_insert_self _ _ _, fun {id n} h => ?_⟩, by simp⟩
  rw [Table.get?_insert_eq] at h
  split at h
  · rename_i he
    cases h
    exact he ▸ .root
  · cases (Table.get?_empty id).symm.trans h

theorem MeasuredUpTo.addDepth {done : List String} {ds ds' : IdTable Nat} {id : String}
    (hm : MeasuredUpTo d.root ps done ds) (h : addDepth d ps ds id = .ok ds') :
    MeasuredUpTo d.root ps (done ++ [id]) ds' := by
  obtain ⟨hm', hself, hkept⟩ := addDepth_ok hm.toMeasured h
  refine ⟨hm', fun {x} hx => ?_⟩
  rcases List.mem_append.1 hx with hx | hx
  · exact hkept (hm.known hx)
  · exact List.mem_singleton.1 hx ▸ hself

/-- **All areas are measured** when the pass succeeds. -/
theorem depths_spec {ds : IdTable Nat} (h : depths d ps = .ok ds) :
    MeasuredUpTo d.root ps d.areas.keys ds :=
  Fold.keepsM (MeasuredUpTo d.root ps) (.start _ _) (fun _ _ _ _ _ _ hm hok => hm.addDepth hok) h

/-- **The depth of an area** is its number of steps below the root. -/
theorem depths_get? {ds : IdTable Nat} (hds : depths d ps = .ok ds) {id : String}
    (hid : d.areas.contains id = true) {n : Nat} : ds.get? id = some n ↔ Below d.root ps n id := by
  have hm := depths_spec hds
  refine ⟨hm.below, fun hb => ?_⟩
  obtain ⟨m, hget⟩ := Table.contains_iff.1 (hm.known (Table.mem_keys_iff.2 hid))
  rw [hget, (hm.below hget).unique hb]

variable {owners : IdTable String} (ho : listedOwners d = .ok owners)
  (hp : parents d owners = .ok ps)
include ho hp

/-- An area has a number of steps when its chain of parents ends at the root. -/
theorem exists_below_iff {id : String} (hid : d.areas.contains id = true) :
    (∃ n, Below d.root ps n id) ↔ Relation.ReflTransGen (ParentIs d) id d.root := by
  refine ⟨?_, fun h => ?_⟩
  · rintro ⟨n, hn⟩
    induction hn with
    | root => exact .refl
    | step hr hpar hb ih =>
      obtain ⟨-, -, h⟩ := (parents_get? ho hp).1 hpar
      exact .head h (ih (parents_known ho hp hpar))
  · induction h using Relation.ReflTransGen.head_induction_on with
    | refl => exact ⟨0, .root⟩
    | @head id parent hpar _ ih =>
      by_cases hr : id = d.root
      · exact ⟨0, hr ▸ .root⟩
      · have hpar := (parents_get? ho hp).2 ⟨hid, hr, hpar⟩
        obtain ⟨n, hn⟩ := ih (parents_known ho hp hpar)
        exact ⟨n + 1, .step hr hpar hn⟩

/-- **An area is measured** when it is some number of steps below the root. -/
theorem addDepth_ok_iff {ds : IdTable Nat} {id : String} (hm : Measured d.root ps ds)
    (hid : d.areas.contains id = true) :
    (∃ ds', addDepth d ps ds id = .ok ds') ↔ ∃ n, Below d.root ps n id := by
  refine ⟨?_, ?_⟩
  · rintro ⟨ds', h⟩
    obtain ⟨hm', hself, -⟩ := addDepth_ok hm h
    obtain ⟨n, hn⟩ := Table.contains_iff.1 hself
    exact ⟨n, hm'.below hn⟩
  · rintro ⟨n, h⟩
    have hlt : n < d.areas.keys.length :=
      lt_length_of_levels (P := Below d.root ps) (fun _ _ _ => Below.unique)
        (h.levels (Table.mem_keys_iff.2 hid) fun hx =>
          Table.mem_keys_iff.2 (parents_known ho hp hx))
    rw [Table.length_keys] at hlt
    obtain ⟨found, hf⟩ := climb_of_below hm.top [] h (Nat.lt_succ_of_lt hlt) (by simp)
    exact ⟨_, by rw [addDepth, hf]; rfl⟩

/-- **Depths are found** when every area is below the root. -/
theorem depths_ok_iff :
    (∃ ds, depths d ps = .ok ds) ↔
      ∀ id, d.areas.contains id = true → Relation.ReflTransGen (ParentIs d) id d.root := by
  refine ⟨?_, fun h => ?_⟩
  · rintro ⟨ds, hds⟩ id hid
    have hm := depths_spec hds
    obtain ⟨n, hn⟩ := Table.contains_iff.1 (hm.known (Table.mem_keys_iff.2 hid))
    exact (exists_below_iff ho hp hid).1 ⟨n, hm.below hn⟩
  · obtain ⟨ds, hds, -⟩ := Fold.reaches (m := Except DiagramError) (f := addDepth d ps)
      (l := d.areas.keys) (MeasuredUpTo d.root ps) (.start _ _)
      fun done id rest ds hl hm => by
        have hid : d.areas.contains id = true :=
          Table.mem_keys_iff.1 (hl ▸ List.mem_append_right _ (.head _))
        obtain ⟨ds', hok⟩ := (addDepth_ok_iff ho hp hm.toMeasured hid).2
          ((exists_below_iff ho hp hid).2 (h id hid))
        exact ⟨ds', hok, hm.addDepth hok⟩
    exact ⟨ds, hds⟩

end

end NestedLayout.Hierarchy
