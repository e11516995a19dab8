import NestedLayout.Drawing.Compacted
import NestedLayout.Proofs.Fold
import NestedLayout.Proofs.Sizing.Containment

/-!
# What compaction does to a drawing

Compaction changes a drawing in two ways only: it moves subtrees, and it gives boxes to containers.
What both leave alone is still there when it gets through its containers.

* `separateChildren_keeps`: what moving the children of a container keeps, moving them apart keeps;
  the first child is never moved.
* `separateChildren_apart`: children that got apart overlap no more, and are where they were when
  there were no shifts; `separateChildren_of_apart`: children that are apart stay.
* `compactOne_keeps`, `foldlM_compactOne_keeps`: the same for one container and for all of them.
* `foldlM_compactOne_metrics`: so the metrics stay as they are until compaction is through.
* `compact_eq_finished`, `compact_eq_failed`: the two ways for compaction to end.
-/

set_option autoImplicit false

namespace NestedLayout.Drawing

variable {α : Type} [Scalar α] {I : Drawing α → Prop}

theorem shiftPair_keeps {s : Shifting α} {pair : String × String}
    (move : ∀ dx dy, I s.drawing → I (s.drawing.translateSubtree pair.2 dx dy))
    (h : I s.drawing) : I (shiftPair s pair).drawing := by
  unfold shiftPair
  split
  · split
    · exact move _ _ h
    · exact h
  · exact h

section
variable {children : List String}
  (move : ∀ {d root} dx dy, root ∈ children.tail → I d → I (d.translateSubtree root dx dy))
include move

theorem foldl_shiftPair_keeps {s : Shifting α} (h : I s.drawing) :
    I ((pairsOf children).foldl shiftPair s).drawing := by
  refine Fold.keeps (fun _ (s : Shifting α) => I s.drawing) h fun _ pair _ s hs hd =>
    shiftPair_keeps (fun dx dy => move dx dy ?_) hd
  exact mem_tail_of_mem_pairsOf (a := pair.1) (b := pair.2)
    (hs ▸ List.mem_append_right _ (.head _))

/-- **What moving the later children keeps, moving them apart keeps.** -/
theorem separateChildren_keeps {n : Nat} {s s' : Shifting α}
    (hok : separateChildren children n s = .ok s') (h : I s.drawing) : I s'.drawing := by
  induction n generalizing s with
  | zero =>
    unfold separateChildren at hok
    dsimp only at hok
    split at hok
    · cases hok
    · cases hok
      exact h
  | succ n ih =>
    unfold separateChildren at hok
    dsimp only at hok
    split at hok
    · cases hok
      exact h
    · exact ih hok (foldl_shiftPair_keeps move h)

end

/-! ## Shifts -/

/-- A pair that overlaps partially is shifted. -/
theorem shiftPair_eq_or_succ (s : Shifting α) (pair : String × String) :
    shiftPair s pair = s ∧ Containment.partiallyOverlap s.drawing.boxes pair.1 pair.2 = false ∨
      (shiftPair s pair).shifts = s.shifts + 1 := by
  unfold shiftPair
  split
  · rename_i hover
    split
    · exact .inr rfl
    · rename_i hnone
      unfold Containment.partiallyOverlap at hover
      split at hover
      · rename_i a b ha hb
        exact absurd hb (hnone a b ha)
      · cases hover
  · rename_i hover
    exact .inl ⟨rfl, by simpa using hover⟩

theorem shiftPair_of_apart {s : Shifting α} {pair : String × String}
    (h : Containment.partiallyOverlap s.drawing.boxes pair.1 pair.2 = false) :
    shiftPair s pair = s := by
  simp [shiftPair, h]

theorem shiftPair_of_overlap {s : Shifting α} {a b : String} {x y : Rect α}
    (ha : s.drawing.boxes.get? a = some x) (hb : s.drawing.boxes.get? b = some y)
    (h : Containment.partiallyOverlap s.drawing.boxes a b = true) {dx dy : α}
    (hshift : shiftApart s.drawing.unitGap x y = (dx, dy)) :
    shiftPair s (a, b) = ⟨s.drawing.translateSubtree b dx dy, s.shifts + 1⟩ := by
  simp only [shiftPair, h, if_true, ha, hb, hshift]

theorem foldl_shiftPair_eq_or_lt (pairs : List (String × String)) (s : Shifting α) :
    pairs.foldl shiftPair s = s ∧
        (∀ q ∈ pairs, Containment.partiallyOverlap s.drawing.boxes q.1 q.2 = false) ∨
      s.shifts < (pairs.foldl shiftPair s).shifts := by
  induction pairs generalizing s with
  | nil => exact .inl ⟨rfl, by simp⟩
  | cons q pairs ih =>
    rw [List.foldl_cons]
    rcases shiftPair_eq_or_succ s q with ⟨hstay, hq⟩ | hmove
    · rw [hstay]
      exact (ih s).imp_left fun ⟨hall, hpairs⟩ => ⟨hall, List.forall_mem_cons.2 ⟨hq, hpairs⟩⟩
    · refine .inr (Nat.lt_of_lt_of_le (by omega : s.shifts < (shiftPair s q).shifts) ?_)
      rcases ih (shiftPair s q) with ⟨hall, -⟩ | hlt
      · rw [hall]
      · exact hlt.le

/-- **Siblings that got apart** overlap no more; they are where they were, or there were shifts. -/
theorem separateChildren_apart {children : List String} {n : Nat} {s s' : Shifting α}
    (hok : separateChildren children n s = .ok s') :
    (s' = s ∨ s.shifts < s'.shifts) ∧ ∀ q ∈ pairsOf children,
      Containment.partiallyOverlap s'.drawing.boxes q.1 q.2 = false := by
  induction n generalizing s with
  | zero =>
    unfold separateChildren at hok
    dsimp only at hok
    split at hok
    · cases hok
    · rename_i hnone
      cases hok
      exact ⟨.inl rfl, by simpa using hnone⟩
  | succ n ih =>
    unfold separateChildren at hok
    dsimp only at hok
    have hpass := foldl_shiftPair_eq_or_lt (pairsOf children) s
    split at hok
    · rename_i hsame
      cases hok
      exact ⟨.inl rfl, (hpass.resolve_right fun hlt => by omega).2⟩
    · rename_i hmoved
      obtain ⟨hlater, hapart⟩ := ih hok
      have hlt := hpass.resolve_left fun hstay => hmoved (by rw [hstay.1])
      refine ⟨.inr ?_, hapart⟩
      rcases hlater with rfl | hlater
      · exact hlt
      · exact hlt.trans hlater

/-- Siblings that are apart stay where they are. -/
theorem separateChildren_of_apart {children : List String} {s : Shifting α}
    (h : ∀ q ∈ pairsOf children, Containment.partiallyOverlap s.drawing.boxes q.1 q.2 = false)
    (n : Nat) : separateChildren children n s = .ok s := by
  cases n with
  | zero =>
    have hnone : ((pairsOf children).find? fun q =>
        Containment.partiallyOverlap s.drawing.boxes q.1 q.2) = none :=
      List.find?_eq_none.2 fun q hq => by simp [h q hq]
    simp only [separateChildren, hnone]
  | succ n =>
    have hstay : (pairsOf children).foldl shiftPair s = s :=
      Fold.stays fun q hq => shiftPair_of_apart (h q hq)
    simp only [separateChildren, hstay, if_true]

/-! ## Containers -/

/-- A container that is compacted gets its children apart, and then its tight box. -/
theorem compactOne_ok {s s' : Shifting α} {id : String} (hok : compactOne s id = .ok s') :
    s.drawing.hierarchy.container? id = none ∧ s' = s ∨
      ∃ c apart, s.drawing.hierarchy.container? id = some c ∧
        separateChildren c.children s.drawing.settings.sizing.containmentRetries s = .ok apart ∧
        s' = { apart with drawing := apart.drawing.setBox id (apart.drawing.tightBox c) } := by
  unfold compactOne at hok
  cases hc : s.drawing.hierarchy.container? id with
  | none =>
    rw [hc] at hok
    cases hok
    exact .inl ⟨rfl, rfl⟩
  | some c =>
    rw [hc] at hok
    dsimp only at hok
    cases hsep : separateChildren c.children s.drawing.settings.sizing.containmentRetries s with
    | error f => rw [hsep] at hok; cases hok
    | ok apart =>
      rw [hsep] at hok
      cases hok
      exact .inr ⟨c, apart, rfl, hsep, rfl⟩

/-- A container whose children are apart gets its tight box and nothing else. -/
theorem compactOne_of_apart {s : Shifting α} {id : String} {c : Container}
    (hc : s.drawing.hierarchy.container? id = some c)
    (h : ∀ q ∈ pairsOf c.children,
      Containment.partiallyOverlap s.drawing.boxes q.1 q.2 = false) :
    compactOne s id = .ok { s with drawing := s.drawing.setBox id (s.drawing.tightBox c) } := by
  simp only [compactOne, hc, separateChildren_of_apart h]
  rfl

theorem compactOne_shifts {s s' : Shifting α} {id : String} (hok : compactOne s id = .ok s') :
    s.shifts ≤ s'.shifts := by
  rcases compactOne_ok hok with ⟨-, rfl⟩ | ⟨c, apart, -, hsep, rfl⟩
  · exact le_rfl
  · rcases (separateChildren_apart hsep).1 with rfl | hlt
    · exact le_rfl
    · exact hlt.le

theorem compactOne_error {s : Shifting α} {id : String} {f : FailedShifting α}
    (he : compactOne s id = .error f) :
    ∃ c, s.drawing.hierarchy.container? id = some c ∧ separateChildren c.children
      s.drawing.settings.sizing.containmentRetries s = .error f := by
  unfold compactOne at he
  cases hc : s.drawing.hierarchy.container? id with
  | none =>
    rw [hc] at he
    cases he
  | some c =>
    rw [hc] at he
    dsimp only at he
    cases hsep : separateChildren c.children s.drawing.settings.sizing.containmentRetries s with
    | error f' =>
      rw [hsep] at he
      cases he
      exact ⟨c, rfl, hsep⟩
    | ok apart =>
      rw [hsep] at he
      cases he

section
variable (move : ∀ {d} root dx dy, I d → I (d.translateSubtree root dx dy))
  (box : ∀ {d} id b, I d → I (d.setBox id b))
include move box

/-- **What moves and new boxes keep, compacting a container keeps.** -/
theorem compactOne_keeps {s s' : Shifting α} {id : String} (hok : compactOne s id = .ok s')
    (h : I s.drawing) : I s'.drawing := by
  rcases compactOne_ok hok with ⟨-, rfl⟩ | ⟨c, apart, -, hsep, rfl⟩
  · exact h
  · exact box _ _ (separateChildren_keeps (fun dx dy _ => move _ dx dy) hsep h)

theorem foldlM_compactOne_keeps {d : Drawing α} {s : Shifting α}
    (hfold : d.hierarchy.postOrder.foldlM compactOne ⟨d, 0⟩ = .ok s) (h : I d) : I s.drawing :=
  Fold.keepsM (fun _ (s : Shifting α) => I s.drawing) h
    (fun _ _ _ _ _ _ hs hok => compactOne_keeps move box hok hs) hfold

end

omit [Scalar α] in
theorem setBox_metrics (d : Drawing α) (id : String) (box : Rect α) :
    (d.setBox id box).metrics = d.metrics := by
  unfold setBox
  split <;> rfl

/-- Compaction counts nothing before it is through with its containers. -/
theorem foldlM_compactOne_metrics {d : Drawing α} {s : Shifting α}
    (hfold : d.hierarchy.postOrder.foldlM compactOne ⟨d, 0⟩ = .ok s) :
    s.drawing.metrics = d.metrics :=
  foldlM_compactOne_keeps (I := fun d' => d'.metrics = d.metrics) (fun _ _ _ h => h)
    (fun _ _ h => (setBox_metrics _ _ _).trans h) hfold rfl

/-! ## The end of compaction -/

/-- The drawing of a compaction that got through its containers, with the routes drawn anew. -/
def Shifting.finished (s : Shifting α) : Drawing α :=
  let settled := { s.drawing.restartLedger with metrics.compactionShifts := s.shifts }
  (if 0 < s.shifts then settled.attachHooks else settled).route

theorem finished_hierarchy (s : Shifting α) : s.finished.hierarchy = s.drawing.hierarchy := by
  unfold Shifting.finished
  dsimp only
  split <;> rfl

/-- What a compaction that gets through its containers comes to. -/
theorem compact_eq_finished {d : Drawing α} {s : Shifting α}
    (hfold : d.hierarchy.postOrder.foldlM compactOne ⟨d, 0⟩ = .ok s) :
    d.compact = ⟨s.finished, shiftNotes s.shifts,
      match Containment.validate s.finished.hierarchy s.finished.boxes d.unitPadding with
      | .error violation => some (.containment violation)
      | .ok () => none⟩ := by
  simp only [compact, hfold]
  rfl

/-- What a compaction that gives up comes to. -/
theorem compact_eq_failed {d : Drawing α} {f : FailedShifting α}
    (hfold : d.hierarchy.postOrder.foldlM compactOne ⟨d, 0⟩ = .error f) :
    d.compact = ⟨f.drawing, [], some (.containment f.violation)⟩ := by
  simp only [compact, hfold]

end NestedLayout.Drawing
