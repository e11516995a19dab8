import NestedLayout.Proofs.Hierarchy.Connectors
import NestedLayout.Proofs.Hierarchy.Tree
import Mathlib.Data.Finset.Card
import Mathlib.Data.Set.Insert

/-!
# Which connectors a diagram has

`Connector.derive` succeeds exactly on a diagram that is `Connectable`. What it then returns is
`DerivedFrom` the diagram: a connector for each explicit connection, in order, and after these one
for each pair of elements that is connected from either side and not joined explicitly.

Which two elements a connector joins does not depend on their order, so a pair is a set of ids:
`joins_iff` says when a connector joins it, and `addPair_cases` what one more pair adds. Along the
pairs the connectors are those of the pairs so far, each once (`JoinsUpTo`).
-/

set_option autoImplicit false

namespace NestedLayout

namespace Diagram

/-- The element lists the other one among its connections. -/
def ConnectsTo (d : Diagram) (source target : String) : Prop :=
  ∃ e, d.elements.get? source = some e ∧ target ∈ e.connections

/-- The connection is between known elements, at least two different ones. -/
structure Connection.Joins (d : Diagram) (k : Connection) : Prop where
  known : ∀ e ∈ k.endpoints, d.elements.contains e = true
  several : ∃ a b, a ∈ k.endpoints ∧ b ∈ k.endpoints ∧ a ≠ b

/-- Everything that is connected are known elements, and none of them is connected to itself. -/
structure Connectable (d : Diagram) : Prop where
  explicit : ∀ k ∈ d.connections, k.Joins d
  targetsKnown : ∀ a b, d.ConnectsTo a b → d.elements.contains b = true
  noSelf : ∀ id, ¬ d.ConnectsTo id id

end Diagram

namespace Connector

/-- The connectors are those of the diagram. Those for the explicit connections come first, each
with the endpoints of its connection in the order of their first occurrence. Each of the others
joins two elements. -/
structure DerivedFrom (d : Diagram) (cs : List Connector) : Prop where
  explicit : (cs.take d.connections.length).map (·.endpoints) =
    d.connections.map fun k => k.endpoints.eraseDups
  two : ∀ c ∈ cs.drop d.connections.length, c.endpoints.length = 2
  once : ((cs.drop d.connections.length).map (·.endpoints.toFinset)).Nodup
  joined : ∀ a b, {a, b} ∈ (cs.drop d.connections.length).map (·.endpoints.toFinset) ↔
    (d.ConnectsTo a b ∨ d.ConnectsTo b a) ∧ ∀ k ∈ d.connections, k.endpoints.toFinset ≠ {a, b}
  hub : ∀ c ∈ cs, c.hub ∈ c.endpoints ∧
    ∀ e ∈ c.endpoints, isPredicate d e = true → isPredicate d c.hub = true
  ids : (cs.map (·.id)).Nodup

/-! ## Explicit connections -/

theorem foldl_appendNew (l : List String) : l.foldl Diagram.appendNew [] = l.eraseDups := by
  refine Fold.keeps (f := Diagram.appendNew) (fun done found => found = done.eraseDups) rfl
    fun done id rest found _ hd => ?_
  subst hd
  rw [List.eraseDups_append, Diagram.appendNew]
  by_cases h : id ∈ done
  · rw [if_pos (by simpa using h)]
    simp [List.removeAll, h]
  · rw [if_neg (by simpa using h)]
    simp [List.removeAll, h, List.eraseDups_cons]

/-- **The endpoints of a connection** are its different ones, when all of them are known. -/
theorem distinctEndpoints_eq_ok_iff {d : Diagram} {label : String} {endpoints found : List String} :
    distinctEndpoints d label endpoints = .ok found ↔
      (∀ e ∈ endpoints, d.elements.contains e = true) ∧ endpoints.eraseDups = found := by
  rw [distinctEndpoints, Fold.guarded (g := Diagram.appendNew)
    (P := fun e => d.elements.contains e = true), foldl_appendNew]
  intro found id found'
  split
  · rename_i hid
    exact iff_of_false (fun h => nomatch h) fun h => by simp [h.1] at hid
  · rename_i hid
    exact ⟨fun h => ⟨by simpa using hid, Except.ok.inj h⟩, fun h => congrArg _ h.2⟩

theorem toFinset_eraseDups (l : List String) : l.eraseDups.toFinset = l.toFinset :=
  Finset.ext fun e => by simp

/-- There are two different members when repetitions do not count. -/
theorem two_le_eraseDups_iff {l : List String} :
    2 ≤ l.eraseDups.length ↔ ∃ a b, a ∈ l ∧ b ∈ l ∧ a ≠ b := by
  rw [← List.toFinset_card_of_nodup (Hierarchy.nodup_eraseDups l), toFinset_eraseDups]
  simpa [Nat.lt_iff_add_one_le] using Finset.one_lt_card_iff (s := l.toFinset)

/-- The connectors with the one for an explicit connection, the `k.2`-th one. -/
def withExplicit (d : Diagram) (h : Hierarchy) (found : List Connector)
    (k : Diagram.Connection × Nat) : List Connector :=
  add d h found (k.1.id.getD ("connector-" ++ toString (k.2 + 1))) k.1.endpoints.eraseDups

theorem addExplicit_eq_ok_iff {d : Diagram} {h : Hierarchy} (found : List Connector)
    (k : Diagram.Connection × Nat) (found' : List Connector) :
    addExplicit d h found k = .ok found' ↔ k.1.Joins d ∧ withExplicit d h found k = found' := by
  rw [addExplicit]
  cases he : distinctEndpoints d (k.1.id.getD ("connector-" ++ toString (k.2 + 1)))
      k.1.endpoints with
  | error e =>
    refine iff_of_false (fun h => nomatch h) fun h => ?_
    rw [distinctEndpoints_eq_ok_iff.2 ⟨h.1.known, rfl⟩] at he
    cases he
  | ok endpoints =>
    obtain ⟨hknown, rfl⟩ := distinctEndpoints_eq_ok_iff.1 he
    show (if k.1.endpoints.eraseDups.length < 2 then _ else _) = _ ↔ _
    split
    · rename_i hfew
      refine iff_of_false (fun h => nomatch h) fun h => ?_
      have := two_le_eraseDups_iff.2 h.1.several
      omega
    · rename_i hmany
      exact ⟨fun h => ⟨⟨hknown, two_le_eraseDups_iff.1 (by omega)⟩, Except.ok.inj h⟩,
        fun h => congrArg _ h.2⟩

/-- **The explicit connectors** are made when all explicit connections are between elements. -/
theorem explicit_eq_ok_iff {d : Diagram} {h : Hierarchy} {explicit : List Connector} :
    d.connections.zipIdx.foldlM (addExplicit d h) [] = .ok explicit ↔
      (∀ k ∈ d.connections, k.Joins d) ∧
        d.connections.zipIdx.foldl (withExplicit d h) [] = explicit := by
  rw [Fold.guarded addExplicit_eq_ok_iff]
  refine and_congr_left fun _ => ⟨fun hk k hm => ?_, fun hk k hm => ?_⟩
  · rw [← List.zipIdx_map_fst 0 d.connections] at hm
    obtain ⟨k', hk', rfl⟩ := List.mem_map.1 hm
    exact hk k' hk'
  · exact hk k.1 (List.fst_mem_of_mem_zipIdx hm)

/-- Each explicit connector has the different endpoints of its connection. -/
theorem explicit_endpoints (d : Diagram) (h : Hierarchy) :
    (d.connections.zipIdx.foldl (withExplicit d h) []).map (·.endpoints) =
      d.connections.map fun k => k.endpoints.eraseDups := by
  have hfold := Fold.keeps (f := withExplicit d h) (l := d.connections.zipIdx) (b := [])
    (fun done found => found.map (·.endpoints) = done.map fun k => k.1.endpoints.eraseDups) rfl
    fun done k rest found _ hd => by
      rw [withExplicit, add, List.map_append, List.map_append, hd]
      rfl
  conv_rhs => rw [← List.zipIdx_map_fst 0 d.connections, List.map_map]
  exact hfold

/-! ## Pairs -/

theorem mem_pairs {d : Diagram} {a b : String} : (a, b) ∈ pairs d ↔ d.ConnectsTo a b := by
  simp only [pairs, List.mem_flatMap, List.mem_map, Prod.mk.injEq, Diagram.ConnectsTo]
  refine ⟨?_, ?_⟩
  · rintro ⟨⟨id, e⟩, he, target, ht, rfl, rfl⟩
    exact ⟨e, Table.mem_entries_iff.1 he, ht⟩
  · rintro ⟨e, he, ht⟩
    exact ⟨(a, e), Table.mem_entries_iff.2 he, b, ht, rfl, rfl⟩

theorem pair_eq_pair_iff {a b x y : String} :
    ({a, b} : Finset String) = {x, y} ↔ a = x ∧ b = y ∨ a = y ∧ b = x := by
  rw [← Finset.coe_inj]
  simpa using Set.pair_eq_pair_iff

/-- A connector joins two elements when these are its endpoints. -/
theorem joins_iff {c : Connector} (hn : c.endpoints.Nodup) {a b : String} (hab : a ≠ b) :
    c.joins a b = true ↔ c.endpoints.toFinset = {a, b} := by
  simp only [joins, Bool.or_eq_true, beq_iff_eq]
  refine ⟨?_, fun h => ?_⟩
  · rintro (h | h)
    · simp [h]
    · simp [h, Finset.pair_comm]
  · have hcard := congrArg Finset.card h
    rw [List.toFinset_card_of_nodup hn, Finset.card_pair hab] at hcard
    obtain ⟨x, y, hxy⟩ := List.length_eq_two.1 hcard
    rw [hxy] at h ⊢
    rcases pair_eq_pair_iff.1 (by simpa using h) with ⟨rfl, rfl⟩ | ⟨rfl, rfl⟩
    · exact .inl rfl
    · exact .inr rfl

/-- **One more pair** adds a connector between its members, unless there is one. -/
theorem addPair_cases {d : Diagram} {h : Hierarchy} {found found' : List Connector} {a b : String}
    (hok : addPair d h found (a, b) = .ok found') :
    a ≠ b ∧ ((∃ c ∈ found, c.joins a b = true) ∧ found' = found ∨
      (∀ c ∈ found, c.joins a b = false) ∧ ∃ c, found' = found ++ [c] ∧
        c.endpoints.length = 2 ∧ c.endpoints.toFinset = {a, b} ∧ c.hub = hubOf d c.endpoints ∧
        c.area = enclosingArea h c.endpoints) := by
  unfold addPair at hok
  dsimp only at hok
  split at hok
  · cases hok
  · split at hok
    · cases hok
    · rename_i hne
      refine ⟨Ne.symm hne, ?_⟩
      split at hok
      · rename_i hjoined
        exact .inl ⟨by simpa using hjoined, (Except.ok.inj hok).symm⟩
      · rename_i hapart
        refine .inr ⟨by simpa using hapart, ?_⟩
        split at hok
        · exact ⟨_, (Except.ok.inj hok).symm, rfl, by simp, rfl, rfl⟩
        · exact ⟨_, (Except.ok.inj hok).symm, rfl, by simp [Finset.pair_comm], rfl, rfl⟩

theorem addPair_ok_iff {d : Diagram} {h : Hierarchy} {found : List Connector} {a b : String} :
    (∃ found', addPair d h found (a, b) = .ok found') ↔
      d.elements.contains b = true ∧ b ≠ a := by
  unfold addPair
  dsimp only
  split
  · rename_i hb
    exact iff_of_false (fun ⟨_, h⟩ => nomatch h) fun h => by simp [h.1] at hb
  · rename_i hb
    split
    · rename_i hba
      exact iff_of_false (fun ⟨_, h⟩ => nomatch h) fun h => h.2 hba
    · rename_i hba
      refine iff_of_true ?_ ⟨by simpa using hb, hba⟩
      split
      · exact ⟨_, rfl⟩
      · exact ⟨_, rfl⟩

/-- After some pairs the connectors are the first ones and one for each of the pairs that those do
not join. -/
structure JoinsUpTo (explicit : List Connector) (done : List (String × String))
    (joined : List Connector) : Prop where
  two : ∀ c ∈ joined, c.endpoints.length = 2
  once : (joined.map (·.endpoints.toFinset)).Nodup
  iff : ∀ a b, {a, b} ∈ joined.map (·.endpoints.toFinset) ↔
    ((a, b) ∈ done ∨ (b, a) ∈ done) ∧ ∀ c ∈ explicit, c.endpoints.toFinset ≠ {a, b}

/-- **A pair keeps the account**: it is joined afterwards, once, and no other pair is new. -/
theorem JoinsUpTo.addPair {d : Diagram} {h : Hierarchy} {explicit joined found' : List Connector}
    {done : List (String × String)} {a b : String} (hj : JoinsUpTo explicit done joined)
    (hnodup : ∀ c ∈ explicit ++ joined, c.endpoints.Nodup)
    (hok : Connector.addPair d h (explicit ++ joined) (a, b) = .ok found') :
    ∃ joined', found' = explicit ++ joined' ∧ JoinsUpTo explicit (done ++ [(a, b)]) joined' := by
  obtain ⟨hab, hcases⟩ := addPair_cases hok
  have hmore : ∀ x y, ((x, y) ∈ done ++ [(a, b)] ∨ (y, x) ∈ done ++ [(a, b)]) ↔
      ((x, y) ∈ done ∨ (y, x) ∈ done) ∨ ({x, y} : Finset String) = {a, b} := fun x y => by
    simp only [List.mem_append, List.mem_singleton, Prod.mk.injEq, pair_eq_pair_iff]
    tauto
  rcases hcases with ⟨⟨c, hc, hjoins⟩, rfl⟩ | ⟨hapart, c, rfl, htwo, hset, -⟩
  · -- the pair was joined before, explicitly or as one of the pairs so far
    rw [joins_iff (hnodup c hc) hab] at hjoins
    refine ⟨joined, rfl, hj.two, hj.once, fun x y => ?_⟩
    rw [hj.iff, hmore]
    refine ⟨fun hxy => ⟨.inl hxy.1, hxy.2⟩,
      fun hxy => ⟨hxy.1.elim (fun hd => hd) fun heq => ?_, hxy.2⟩⟩
    rcases List.mem_append.1 hc with hc | hc
    · exact absurd (hjoins.trans heq.symm) (hxy.2 c hc)
    · exact ((hj.iff x y).1 (heq ▸ hjoins ▸ List.mem_map_of_mem hc)).1
  · have hnew : ∀ c' ∈ explicit ++ joined, c'.endpoints.toFinset ≠ {a, b} := fun c' hc' heq => by
      have hfalse := hapart c' hc'
      rw [(joins_iff (hnodup c' hc') hab).2 heq] at hfalse
      cases hfalse
    refine ⟨joined ++ [c], by rw [List.append_assoc], ?_, ?_, fun x y => ?_⟩
    · intro c' hc'
      rcases List.mem_append.1 hc' with hc' | hc'
      · exact hj.two c' hc'
      · exact List.mem_singleton.1 hc' ▸ htwo
    · rw [List.map_append, List.map_singleton, hset]
      refine List.nodup_append.2 ⟨hj.once, List.nodup_singleton _, ?_⟩
      rintro s hs t ht rfl
      obtain ⟨c', hc', rfl⟩ := List.mem_map.1 hs
      exact hnew c' (List.mem_append_right _ hc') (List.mem_singleton.1 ht)
    · rw [List.map_append, List.map_singleton, hset, List.mem_append, List.mem_singleton, hj.iff,
        hmore]
      refine ⟨?_, fun hxy => hxy.1.elim (fun hd => .inl ⟨hd, hxy.2⟩) .inr⟩
      rintro (hxy | heq)
      · exact ⟨.inl hxy.1, hxy.2⟩
      · exact ⟨.inr heq, fun c' hc' => heq ▸ hnew c' (List.mem_append_left _ hc')⟩

/-! ## Hubs -/

/-- A hub is a predicate when there is one among the endpoints. -/
theorem isPredicate_hubOf {d : Diagram} {endpoints : List String} {e : String}
    (he : e ∈ endpoints) (hp : isPredicate d e = true) :
    isPredicate d (hubOf d endpoints) = true := by
  unfold hubOf
  cases hf : endpoints.find? (isPredicate d) with
  | some id => exact List.find?_some hf
  | none => exact absurd hp (List.find?_eq_none.1 hf e he)

/-! ## All connectors -/

theorem derive_eq_ok_iff {d : Diagram} {h : Hierarchy} {cs : List Connector} :
    derive d h = .ok cs ↔ ∃ explicit, d.connections.zipIdx.foldlM (addExplicit d h) [] =
      .ok explicit ∧ (pairs d).foldlM (addPair d h) explicit = .ok cs := by
  rw [derive]
  cases d.connections.zipIdx.foldlM (addExplicit d h) [] with
  | error e => exact iff_of_false (fun h => nomatch h) fun ⟨_, h, _⟩ => nomatch h
  | ok explicit =>
    exact ⟨fun h => ⟨explicit, rfl, h⟩, fun ⟨_, he, h⟩ => Except.ok.inj he ▸ h⟩

/-- **Connectors can be derived** exactly from connectable diagrams. -/
theorem derive_ok_iff {d : Diagram} {h : Hierarchy} :
    (∃ cs, derive d h = .ok cs) ↔ d.Connectable := by
  have hpairs : ∀ explicit, (∃ cs, (pairs d).foldlM (addPair d h) explicit = .ok cs) ↔
      ∀ p ∈ pairs d, d.elements.contains p.2 = true ∧ p.2 ≠ p.1 := fun explicit =>
    Fold.ok_iff fun p _ _ => addPair_ok_iff
  simp only [derive_eq_ok_iff, explicit_eq_ok_iff]
  refine ⟨?_, fun hd => ?_⟩
  · rintro ⟨cs, explicit, ⟨hk, -⟩, hc⟩
    have hp := (hpairs explicit).1 ⟨cs, hc⟩
    exact ⟨hk, fun a b hab => (hp (a, b) (mem_pairs.2 hab)).1,
      fun id hid => (hp (id, id) (mem_pairs.2 hid)).2 rfl⟩
  · obtain ⟨cs, hc⟩ := (hpairs _).2 fun p hp => by
      have hp := mem_pairs.1 hp
      exact ⟨hd.targetsKnown _ _ hp, fun heq => hd.noSelf p.1 (heq ▸ hp)⟩
    exact ⟨cs, _, ⟨hd.explicit, rfl⟩, hc⟩

/-- The hub and the area of every connector are those that its endpoints have. -/
theorem derive_hubs_areas {d : Diagram} {h : Hierarchy} {cs : List Connector}
    (hc : derive d h = .ok cs) :
    ∀ c ∈ cs, c.hub = hubOf d c.endpoints ∧ c.area = enclosingArea h c.endpoints := by
  obtain ⟨explicit, he, hc⟩ := derive_eq_ok_iff.1 hc
  obtain ⟨-, rfl⟩ := explicit_eq_ok_iff.1 he
  refine Fold.keepsM
    (fun _ found => ∀ c ∈ found, c.hub = hubOf d c.endpoints ∧ c.area = enclosingArea h c.endpoints)
    ?_ (fun done p rest found found' _ hd hok c hm => ?_) hc
  · refine Fold.keeps (f := withExplicit d h) (l := d.connections.zipIdx)
      (fun _ found => ∀ c ∈ found,
        c.hub = hubOf d c.endpoints ∧ c.area = enclosingArea h c.endpoints) (by simp)
      fun done k rest found _ hd c hm => ?_
    rcases List.mem_append.1 hm with hm | hm
    · exact hd c hm
    · obtain rfl := List.mem_singleton.1 hm
      exact ⟨rfl, rfl⟩
  · rcases (addPair_cases hok).2 with ⟨-, rfl⟩ | ⟨-, c', rfl, -, -, hnew⟩
    · exact hd c hm
    · rcases List.mem_append.1 hm with hm | hm
      · exact hd c hm
      · exact List.mem_singleton.1 hm ▸ hnew

theorem derive_hubs {d : Diagram} {h : Hierarchy} {cs : List Connector}
    (hc : derive d h = .ok cs) : ∀ c ∈ cs, c.hub = hubOf d c.endpoints :=
  fun c hm => (derive_hubs_areas hc c hm).1

/-- The connectors after the explicit ones are those of the pairs. -/
theorem derive_joins {d : Diagram} {h : Hierarchy} {cs : List Connector}
    (hc : derive d h = .ok cs) :
    ∃ explicit joined, cs = explicit ++ joined ∧
      explicit.map (·.endpoints) = d.connections.map (fun k => k.endpoints.eraseDups) ∧
      JoinsUpTo explicit (pairs d) joined := by
  have hall := derive_spec hc
  obtain ⟨explicit, he, hc⟩ := derive_eq_ok_iff.1 hc
  obtain ⟨-, hexplicit⟩ := explicit_eq_ok_iff.1 he
  have hdistinct : Distinct d explicit := Fold.keepsM (fun _ found => Distinct d found) (.nil d)
    (fun _ _ _ _ _ _ hd ha => addExplicit_distinct hd ha) he
  obtain ⟨-, joined, hjoined, hj⟩ := Fold.keepsM
    (fun done found => Distinct d found ∧ ∃ joined, found = explicit ++ joined ∧
      JoinsUpTo explicit done joined)
    ⟨hdistinct, [], (List.append_nil _).symm, by simp, List.nodup_nil, by simp⟩
    (fun done p rest found found' hs ⟨hd, joined, hf, hj⟩ hok => by
      have hp : d.ConnectsTo p.1 p.2 := mem_pairs.1 (hs ▸ List.mem_append_right _ (.head _))
      obtain ⟨e, hsource, -⟩ := hp
      refine ⟨addPair_distinct (Table.contains_of_get? hsource) hd hok, ?_⟩
      subst hf
      exact hj.addPair (fun c hm => (hd.joining c hm).nodup) hok) hc
  exact ⟨explicit, joined, hjoined, hexplicit ▸ explicit_endpoints d h, hj⟩

/-- **Which connectors a diagram has**: there are any exactly when it is connectable, and then they
are those for its explicit connections and for its pairs. -/
theorem derive_exact (d : Diagram) (h : Hierarchy) :
    ((∃ cs, derive d h = .ok cs) ↔ d.Connectable) ∧
      ∀ cs, derive d h = .ok cs → DerivedFrom d cs := by
  refine ⟨derive_ok_iff, fun cs hc => ?_⟩
  obtain ⟨hids, hjoining⟩ := derive_spec hc
  have hhubs := derive_hubs hc
  obtain ⟨explicit, joined, rfl, hexplicit, hj⟩ := derive_joins hc
  have hlength : d.connections.length = explicit.length := by
    have := congrArg List.length hexplicit
    simpa using this.symm
  have hsets : ∀ s : Finset String, (∀ c ∈ explicit, c.endpoints.toFinset ≠ s) ↔
      ∀ k ∈ d.connections, k.endpoints.toFinset ≠ s := fun s => by
    have hmap := congrArg (List.map List.toFinset) hexplicit
    simp only [List.map_map, Function.comp_def, toFinset_eraseDups] at hmap
    rw [← List.forall_mem_map (P := fun t => t ≠ s)
      (f := fun c : Connector => c.endpoints.toFinset), hmap, List.forall_mem_map]
  refine
    { explicit := by rw [hlength, List.take_left]; exact hexplicit
      two := by rw [hlength, List.drop_left]; exact hj.two
      once := by rw [hlength, List.drop_left]; exact hj.once
      joined := fun a b => ?_
      hub := fun c hm => ⟨(hjoining c hm).hub, fun e he hp => ?_⟩
      ids := hids }
  · rw [hlength, List.drop_left, hj.iff, mem_pairs, mem_pairs, hsets]
  · rw [hhubs c hm]
    exact isPredicate_hubOf he hp

/-- Elements that list each other, two connections between the same two of them, and connections
with the ids that the connectors of others would have had. -/
def entangled : Diagram :=
  .build "root" [.vertex "root" "a" none, .predicate "root" "b" "B", .vertex "root" "c" none,
    .connect "a" "b", .connect "a" "c", .connect "b" "a", .connect "c" "b",
    .connection (some "b--a") ["a", "a", "c"], .connection none ["c", "b", "a"],
    .connection (some "connector-2") ["a", "c"]]

theorem entangled_derived : ∃ h cs, Hierarchy.extract entangled = .ok h ∧
    derive entangled h = .ok cs ∧
    cs.map (fun c => (c.id, c.endpoints, c.hub)) =
      [("b--a", ["a", "c"], "a"), ("connector-2", ["c", "b", "a"], "b"),
       ("connector-2-2", ["a", "c"], "a"), ("b--a-2", ["b", "a"], "b"), ("b--c", ["b", "c"], "b")] ∧
    DerivedFrom entangled cs := by
  refine ⟨_, _, rfl, rfl, rfl, ?_⟩
  exact (derive_exact entangled _).2 _ rfl

end Connector

end NestedLayout
