import NestedLayout.Proofs.Drawing.Cleared

/-!
# Siblings that are moved apart

Moving siblings apart moves each of them as one piece: its box, the boxes nested in it, the elements
in there and the hooks at these elements, all by one vector. Boxes, placements and hooks are tables
that are walked over apart from each other, so this is stated once for a table whose keys lie inside
the siblings, each inside one of them at most (`CarriedBy`), and used three times.

* `CarriedBy.step`: one more move of one sibling adds to its vector.
* `MovedAsPieces`: a drawing and what moving siblings makes of it; the step from one move to the
  next is `MovedAsPieces.translateSubtree`.
* `separateChildren_rigid`: siblings that got apart do not overlap partially, the first one is where
  it was, and each is moved as one piece; when they did not get apart, two that overlap are named.
-/

set_option autoImplicit false

namespace NestedLayout

/-! ## Tables whose entries are carried along -/

/-- The second table is the first one with every entry whose key lies inside one of the roots
carried along by the vector of that root, and with all other entries as they were. -/
structure CarriedBy {κ β : Type} [Ord κ] (roots : List String) (inside : String → κ → Prop)
    (carry : ℝ × ℝ → β → β) (v : String → ℝ × ℝ) (t t' : Table κ β) : Prop where
  carried : ∀ {c k}, c ∈ roots → inside c k → t'.get? k = (t.get? k).map (carry (v c))
  still : ∀ {k}, (∀ c ∈ roots, ¬ inside c k) → t'.get? k = t.get? k

section
variable {κ β : Type} [Ord κ] {roots : List String} {inside : String → κ → Prop}
  {carry : ℝ × ℝ → β → β} {v : String → ℝ × ℝ} {t t' t'' : Table κ β}

theorem CarriedBy.start (hzero : ∀ x, carry 0 x = x) : CarriedBy roots inside carry 0 t t where
  carried _ _ := by
    rw [Pi.zero_apply, funext hzero, Option.map_id']
  still _ := rfl

/-- **One more move of a root** adds to its vector, when no key lies inside two roots. -/
theorem CarriedBy.step (h : CarriedBy roots inside carry v t t')
    (hadd : ∀ v w x, carry w (carry v x) = carry (v + w) x)
    (hapart : ∀ {a b k}, a ∈ roots → b ∈ roots → inside a k → inside b k → a = b)
    {j : String} (hj : j ∈ roots) {w : ℝ × ℝ}
    (hin : ∀ {k}, inside j k → t''.get? k = (t'.get? k).map (carry w))
    (hout : ∀ {k}, ¬ inside j k → t''.get? k = t'.get? k) :
    CarriedBy roots inside carry (Function.update v j (v j + w)) t t'' where
  carried {c k} hc hk := by
    by_cases hcj : c = j
    · subst hcj
      rw [hin hk, h.carried hc hk, Option.map_map, Function.update_self]
      exact Option.map_congr fun x _ => hadd (v c) w x
    · rw [hout fun hjk => hcj (hapart hc hj hk hjk), h.carried hc hk, Function.update_of_ne hcj]
  still hk := (hout (hk j hj)).trans (h.still hk)

end

/-! ## Hooks -/

/-- A hook moved along with the body that it is on. -/
def Hook.translate {α : Type} [Scalar α] (hook : Hook α) (dx dy : α) : Hook α :=
  { hook with point := hook.point.translate dx dy }

/-- Moving the hooks of elements, each of them once, moves those hooks and no others. -/
theorem HookTable.get?_translateElements {es : List String} (hes : es.Nodup) (hooks : HookTable ℝ)
    (dx dy : ℝ) (k : HookKey) :
    (es.foldl (fun hooks id => HookTable.translateElement hooks id dx dy) hooks).get? k =
      if k.endpoint ∈ es then (hooks.get? k).map fun hook => hook.translate dx dy
      else hooks.get? k := by
  induction es generalizing hooks with
  | nil => simp
  | cons e es ih =>
    obtain ⟨he, hes⟩ := List.nodup_cons.1 hes
    rw [List.foldl_cons, ih hes, HookTable.translateElement, Table.get?_map]
    by_cases hk : k.endpoint = e
    · rw [if_neg (hk ▸ he), if_pos (hk ▸ List.mem_cons_self)]
      simp only [hk, if_true]
      rfl
    · simp only [hk, if_false, List.mem_cons, false_or, Option.map_id']

namespace Drawing

/-! ## Pieces -/

/-- The second drawing is the first one with each of the given containers moved as one piece by its
vector, boxes and placements and hooks, and with nothing else changed. -/
structure MovedAsPieces (roots : List String) (v : String → ℝ × ℝ) (d d' : Drawing ℝ) : Prop where
  rest : d' = { d with boxes := d'.boxes, placements := d'.placements, hooks := d'.hooks }
  boxes : CarriedBy roots (fun c id => id ∈ d.hierarchy.subtree c)
    (fun v box => box.translate v.1 v.2) v d.boxes d'.boxes
  placements : CarriedBy roots (fun c e => e ∈ d.hierarchy.subtreeElements c)
    (fun v p => p.translate v.1 v.2) v d.placements d'.placements
  hooks : CarriedBy roots (fun c k => k.endpoint ∈ d.hierarchy.subtreeElements c)
    (fun v hook => hook.translate v.1 v.2) v d.hooks d'.hooks

section
variable {d d' : Drawing ℝ} {id : String} {v : String → ℝ × ℝ}

theorem MovedAsPieces.start (roots : List String) (d : Drawing ℝ) : MovedAsPieces roots 0 d d where
  rest := rfl
  boxes := .start fun box => Rect.translate_zero box
  placements := .start fun p => by
    simp only [Placement.translate, Prod.fst_zero, Prod.snd_zero, Rect.translate_zero]
  hooks := .start fun hook => by
    simp only [Hook.translate, Point.translate, Prod.fst_zero, Prod.snd_zero, add_zero]

variable (t : d.hierarchy.IsTree)
include t

/-- No container lies inside two children. -/
theorem subtree_apart {a b x : String} (ha : a ∈ d.hierarchy.children id)
    (hb : b ∈ d.hierarchy.children id) (hxa : x ∈ d.hierarchy.subtree a)
    (hxb : x ∈ d.hierarchy.subtree b) : a = b :=
  t.siblings_disjoint (t.mem_children.1 ha) (t.mem_children.1 hb) (t.mem_subtree.1 hxa)
    (t.mem_subtree.1 hxb)

/-- No element lies inside two children. -/
theorem subtreeElements_apart {a b e : String} (ha : a ∈ d.hierarchy.children id)
    (hb : b ∈ d.hierarchy.children id) (hea : e ∈ d.hierarchy.subtreeElements a)
    (heb : e ∈ d.hierarchy.subtreeElements b) : a = b := by
  obtain ⟨c, hc, hac⟩ := t.mem_subtreeElements.1 hea
  obtain ⟨c', hc', hbc⟩ := t.mem_subtreeElements.1 heb
  cases hc.symm.trans hc'
  exact subtree_apart t ha hb (t.mem_subtree.2 hac) (t.mem_subtree.2 hbc)

/-- **A move of one child** moves one piece more. -/
theorem MovedAsPieces.translateSubtree (h : MovedAsPieces (d.hierarchy.children id) v d d')
    {j : String} (hj : j ∈ d.hierarchy.children id) (dx dy : ℝ) :
    MovedAsPieces (d.hierarchy.children id) (Function.update v j (v j + (dx, dy))) d
      (d'.translateSubtree j dx dy) := by
  have hh : d'.hierarchy = d.hierarchy := by rw [h.rest]
  refine ⟨?rest, h.boxes.step ?_ (subtree_apart t) hj ?boxIn ?boxOut,
    h.placements.step ?_ (subtreeElements_apart t) hj ?placedIn ?placedOut,
    h.hooks.step ?_ (subtreeElements_apart t) hj ?hookIn ?hookOut⟩
  case rest =>
    exact congrArg (fun d₁ : Drawing ℝ => { d₁ with
      boxes := (d'.translateSubtree j dx dy).boxes
      placements := (d'.translateSubtree j dx dy).placements
      hooks := (d'.translateSubtree j dx dy).hooks }) h.rest
  case boxIn =>
    intro x hx
    refine (Table.get?_map _ _ _).trans ?_
    simp only [hh, List.contains_iff_mem, hx, if_true]
  case boxOut =>
    intro x hx
    refine (Table.get?_map _ _ _).trans ?_
    simp only [hh, List.contains_iff_mem, hx, if_false, Option.map_id']
  case placedIn =>
    intro e he
    simp only [translateSubtree_placement, hh, List.contains_iff_mem, he, if_true]
  case placedOut =>
    intro e he
    simp only [translateSubtree_placement, hh, List.contains_iff_mem, he, if_false, Option.map_id']
  case hookIn =>
    intro k hk
    refine (HookTable.get?_translateElements (hh ▸ t.nodup_subtreeElements j) _ _ _ _).trans ?_
    rw [if_pos (hh ▸ hk)]
  case hookOut =>
    intro k hk
    refine (HookTable.get?_translateElements (hh ▸ t.nodup_subtreeElements j) _ _ _ _).trans ?_
    rw [if_neg (hh ▸ hk)]
  · exact fun v w box => Rect.translate_translate box _ _ _ _
  · intro v w p
    simp only [Placement.translate, Rect.translate_translate, Prod.fst_add, Prod.snd_add]
  · intro v w hook
    simp only [Hook.translate, Point.translate, Prod.fst_add, Prod.snd_add, add_assoc]

end

/-! ## Moving apart -/

/-- **Siblings that got apart were moved as pieces**, and the first one was not moved. -/
theorem separateChildren_pieces {s s' : Shifting ℝ} (t : s.drawing.hierarchy.IsTree) {id : String}
    {retries : Nat}
    (hok : separateChildren (s.drawing.hierarchy.children id) retries s = .ok s') :
    ∃ v : String → ℝ × ℝ, (∀ c, (s.drawing.hierarchy.children id).head? = some c → v c = 0) ∧
      MovedAsPieces (s.drawing.hierarchy.children id) v s.drawing s'.drawing := by
  refine separateChildren_keeps (I := fun d => ∃ v : String → ℝ × ℝ,
    (∀ c, (s.drawing.hierarchy.children id).head? = some c → v c = 0) ∧
      MovedAsPieces (s.drawing.hierarchy.children id) v s.drawing d)
    (fun {d root} dx dy hroot hmoved => ?_) hok ⟨0, fun _ _ => rfl, .start _ _⟩
  obtain ⟨v, hfirst, hv⟩ := hmoved
  refine ⟨_, fun c hc => ?_, hv.translateSubtree t (List.mem_of_mem_tail hroot) dx dy⟩
  have hne : c ≠ root := by
    rintro rfl
    have hnodup := t.nodupChildren id
    rw [← List.cons_head?_tail hc] at hnodup
    exact (List.nodup_cons.1 hnodup).1 hroot
  rw [Function.update_of_ne hne]
  exact hfirst c hc

/-- **Siblings are moved apart as pieces**, in any drawing over a container tree, for the children
of any container and any number of rounds. When it works out, no two of the children overlap
partially, and each of them has been moved by one vector with everything in it, the first one not at
all, and nothing else has changed. When it does not, two of the children are named that overlap
partially in the drawing that is left. -/
theorem separateChildren_rigid {s : Shifting ℝ} (t : s.drawing.hierarchy.IsTree) (id : String)
    (retries : Nat) :
    (∀ {s'}, separateChildren (s.drawing.hierarchy.children id) retries s = .ok s' →
      (∀ a ∈ s.drawing.hierarchy.children id, ∀ b ∈ s.drawing.hierarchy.children id, a ≠ b →
        Containment.partiallyOverlap s'.drawing.boxes a b = false) ∧
      ∃ v : String → ℝ × ℝ,
        (∀ c, (s.drawing.hierarchy.children id).head? = some c → v c = 0) ∧
        MovedAsPieces (s.drawing.hierarchy.children id) v s.drawing s'.drawing) ∧
    (∀ {f}, separateChildren (s.drawing.hierarchy.children id) retries s = .error f →
      ∃ a ∈ s.drawing.hierarchy.children id, ∃ b ∈ s.drawing.hierarchy.children id, a ≠ b ∧
        f.violation = .unseparated a b ∧
        Containment.partiallyOverlap f.drawing.boxes a b = true) := by
  refine ⟨fun {s'} hok => ⟨fun a ha b hb hne => ?_, separateChildren_pieces t hok⟩,
    fun {f} he => ?_⟩
  · have hapart := (separateChildren_apart hok).2
    rcases mem_pairsOf_of_ne ha hb hne with hpair | hpair
    · exact hapart _ hpair
    · exact (Containment.partiallyOverlap_comm ..).trans (hapart _ hpair)
  · obtain ⟨-, ⟨a, b⟩, hpair, hviolation, hover⟩ := separateChildren_error he
    obtain ⟨ha, hb⟩ := mem_of_mem_pairsOf hpair
    exact ⟨a, ha, b, hb, ne_of_mem_pairsOf (t.nodupChildren id) hpair, hviolation, hover⟩

/-- A hook in the middle of a side of a vertex. -/
noncomputable def tuckedHook (side : Side) (e : String) : Hook ℝ :=
  ⟨side, side.pointOn (((tuckedPlacements.get? e).map (·.body)).getD .unit)⟩

/-- The tucked areas, with a hook at a vertex of each of them. -/
noncomputable def tuckedHooked : Drawing ℝ :=
  { tuckedAreas with hooks := .ofList [(⟨"line", "p"⟩, tuckedHook .east "p"),
      (⟨"line", "r"⟩, tuckedHook .west "r")] }

/-- One round moves `B` off `A`, with its area and the hook in there; no round does not get them
apart. -/
theorem tuckedHooked_rigid : tuckedHooked.hierarchy.IsTree ∧
    (separateChildren (tuckedHooked.hierarchy.children "sheet") 1 ⟨tuckedHooked, 0⟩ =
        .ok ⟨tuckedHooked.translateSubtree "B" 2 0, 1⟩ ∧
      Containment.partiallyOverlap (tuckedHooked.translateSubtree "B" 2 0).boxes "A" "B" = false ∧
      ∃ v : String → ℝ × ℝ, v "A" = 0 ∧
        MovedAsPieces ["A", "B"] v tuckedHooked (tuckedHooked.translateSubtree "B" 2 0)) ∧
    ∃ f, separateChildren (tuckedHooked.hierarchy.children "sheet") 0 ⟨tuckedHooked, 0⟩ = .error f ∧
      ∃ a ∈ ["A", "B"], ∃ b ∈ ["A", "B"], a ≠ b ∧ f.violation = .unseparated a b ∧
        Containment.partiallyOverlap f.drawing.boxes a b = true := by
  have hone : separateChildren (tuckedHooked.hierarchy.children "sheet") 1 ⟨tuckedHooked, 0⟩ =
      .ok ⟨tuckedHooked.translateSubtree "B" 2 0, 1⟩ := tucked_separated _
  have hnone : ((pairsOf ["A", "B"]).find? fun p =>
      Containment.partiallyOverlap tuckedHooked.boxes p.1 p.2) = some ("A", "B") :=
    List.find?_cons_of_pos tucked_overlap
  have hzero : separateChildren (tuckedHooked.hierarchy.children "sheet") 0 ⟨tuckedHooked, 0⟩ =
      .error ⟨tuckedHooked, .unseparated "A" "B"⟩ := by
    show separateChildren ["A", "B"] 0 ⟨tuckedHooked, 0⟩ = _
    simp only [separateChildren, hnone]
    rfl
  have t : tuckedHooked.hierarchy.IsTree := tucked_tree
  obtain ⟨hapart, v, hfirst, hpieces⟩ :=
    (separateChildren_rigid (s := ⟨tuckedHooked, 0⟩) t "sheet" 1).1 hone
  exact ⟨t, ⟨hone, hapart "A" (.head _) "B" (.tail _ (.head _)) (by decide), v, hfirst "A" rfl,
    hpieces⟩, _, hzero, (separateChildren_rigid (s := ⟨tuckedHooked, 0⟩) t "sheet" 0).2 hzero⟩

end Drawing

end NestedLayout
