import Mathlib.Data.Sym.Sym2
import NestedLayout.Proofs.Sizing.Containment

/-!
# Related pairs

What overlaps in a list does so in pairs, and which member of a pair comes first does not matter.
`relatedPairs` has the keys of all related members of a list, `unordered` forgets their order. In a
list with different keys no pair comes twice (`nodup_unordered_relatedPairs`), and for a symmetric
relation the pairs are those of all related members (`mem_unordered_relatedPairs`).
-/

set_option autoImplicit false

namespace NestedLayout

/-- The keys of the pairs of a list, an earlier member with each later one, that are related. -/
def relatedPairs {β : Type} (R : β → β → Bool) (l : List (String × β)) : List (String × String) :=
  ((pairsOf l).filter fun p => R p.1.2 p.2.2).map fun p => (p.1.1, p.2.1)

/-- Pairs without an order. -/
def unordered (pairs : List (String × String)) : List (Sym2 String) :=
  pairs.map fun p => s(p.1, p.2)

theorem relatedPairs_map {β γ : Type} (R : γ → γ → Bool) (f : β → γ) (l : List (String × β)) :
    relatedPairs R (l.map fun e => (e.1, f e.2)) = relatedPairs (fun x y => R (f x) (f y)) l := by
  rw [relatedPairs, relatedPairs, pairsOf_map, List.filter_map, List.map_map]
  rfl

/-- In a list of which no earlier member is related to a later one there are no related pairs. -/
theorem relatedPairs_of_pairwise {β : Type} {R : β → β → Bool} {l : List (String × β)}
    (h : l.Pairwise fun x y => R x.2 y.2 = false) : relatedPairs R l = [] := by
  induction h with
  | nil => rfl
  | @cons a l hal _ ih =>
    rw [relatedPairs, List.map_eq_nil_iff] at ih ⊢
    rw [pairsOf, List.filter_append, ih, List.append_nil, List.filter_eq_nil_iff]
    intro q hq
    obtain ⟨b, hb, rfl⟩ := List.mem_map.1 hq
    rw [hal b hb]
    exact Bool.false_ne_true

theorem mem_unordered_iff {pairs : List (String × String)} {a b : String} :
    s(a, b) ∈ unordered pairs ↔ (a, b) ∈ pairs ∨ (b, a) ∈ pairs := by
  simp only [unordered, List.mem_map, Prod.exists, Sym2.eq_iff]
  refine ⟨?_, ?_⟩
  · rintro ⟨x, y, h, ⟨rfl, rfl⟩ | ⟨rfl, rfl⟩⟩
    · exact .inl h
    · exact .inr h
  · rintro (h | h)
    · exact ⟨a, b, h, .inl ⟨rfl, rfl⟩⟩
    · exact ⟨b, a, h, .inr ⟨rfl, rfl⟩⟩

theorem nodup_unordered_pairsOf {l : List String} (h : l.Nodup) :
    (unordered (pairsOf l)).Nodup := by
  induction l with
  | nil => exact List.nodup_nil
  | cons a l ih =>
    obtain ⟨ha, hl⟩ := List.nodup_cons.1 h
    rw [unordered, pairsOf, List.map_append, List.map_map]
    refine List.nodup_append.2 ⟨hl.map fun x y hxy => Sym2.congr_right.1 hxy, ih hl, ?_⟩
    rintro z hz w hw rfl
    obtain ⟨x, -, rfl⟩ := List.mem_map.1 hz
    obtain ⟨hax, -⟩ | ⟨-, hax⟩ := (mem_unordered_iff.1 hw).imp mem_of_mem_pairsOf mem_of_mem_pairsOf
    · exact ha hax
    · exact ha hax

section
variable {β : Type} {R : β → β → Bool} {l : List (String × β)} (hkeys : (l.map (·.1)).Nodup)
include hkeys

/-- **No two members are paired twice.** -/
theorem nodup_unordered_relatedPairs : (unordered (relatedPairs R l)).Nodup := by
  have hsub : (relatedPairs R l).Sublist (pairsOf (l.map (·.1))) := by
    rw [pairsOf_map]
    exact List.filter_sublist.map _
  exact (nodup_unordered_pairsOf hkeys).sublist (hsub.map _)

/-- **The related pairs** are those of all members with different keys that are related. -/
theorem mem_unordered_relatedPairs (hR : ∀ x y, R x y = R y x) {a b : String} :
    s(a, b) ∈ unordered (relatedPairs R l) ↔
      a ≠ b ∧ ∃ x y, (a, x) ∈ l ∧ (b, y) ∈ l ∧ R x y = true := by
  have hmem : ∀ {a b}, (a, b) ∈ relatedPairs R l ↔
      ∃ x y, ((a, x), (b, y)) ∈ pairsOf l ∧ R x y = true := by
    intro a b
    simp [relatedPairs]
  have hne : ∀ {a b x y}, ((a, x), (b, y)) ∈ pairsOf l → a ≠ b := by
    intro a b x y h
    have hpair : (a, b) ∈ pairsOf (l.map (·.1)) := by
      rw [pairsOf_map]
      exact List.mem_map_of_mem h
    exact ne_of_mem_pairsOf hkeys hpair
  rw [mem_unordered_iff, hmem, hmem]
  refine ⟨?_, ?_⟩
  · rintro (⟨x, y, h, hxy⟩ | ⟨x, y, h, hxy⟩)
    · exact ⟨hne h, x, y, (mem_of_mem_pairsOf h).1, (mem_of_mem_pairsOf h).2, hxy⟩
    · exact ⟨(hne h).symm, y, x, (mem_of_mem_pairsOf h).2, (mem_of_mem_pairsOf h).1, hR x y ▸ hxy⟩
  · rintro ⟨hab, x, y, ha, hb, hxy⟩
    have hpairs := mem_pairsOf_of_ne ha hb fun he => hab (Prod.mk.inj he).1
    exact hpairs.imp (fun h => ⟨x, y, h, hxy⟩) fun h => ⟨y, x, h, hR x y ▸ hxy⟩

end

end NestedLayout
