import NestedLayout.Proofs.Hierarchy.Connectors
import NestedLayout.Sizing.Dot.Request

/-!
# The lines of a request

What can be told of the lines of a request by looking at their characters: which ones open and close
blocks, and which ones are for a node or an edge. Numbers are written with digits and letters, so
they never look like anything else (`toString_numeral`, `fixedText_numeral`).
-/

set_option autoImplicit false

namespace NestedLayout

/-! ## Numbers -/

/-- A character of the text of a number. -/
def IsNumeral (c : Char) : Prop := c.isAlphanum = true ∨ c = '.' ∨ c = '-'

instance (c : Char) : Decidable (IsNumeral c) := inferInstanceAs (Decidable (_ ∨ _ ∨ _))

theorem IsNumeral.of_isDigit {c : Char} (h : c.isDigit = true) : IsNumeral c :=
  .inl (by simp [Char.isAlphanum, h])

theorem toString_numeral {n : Nat} {c : Char} (hc : c ∈ (toString n).toList) :
    c.isDigit = true := by
  rw [Nat.toString_eq_ofList_toDigits, String.toList_ofList] at hc
  exact Nat.isDigit_of_mem_toDigits (by decide) (by decide) hc

/-- **A number with a fixed number of places** is written with digits, a point and a minus, or with
letters. -/
theorem fixedText_numeral {x : Float32} {places : Nat} {c : Char}
    (hc : c ∈ (fixedText x places).toList) : IsNumeral c := by
  have hzero : IsNumeral '0' := .inl rfl
  have hmark : ∀ {c}, c ∈ (if x.toBits.toNat < UInt32.size / 2 then [] else ['-'] : List Char) →
      IsNumeral c := fun {c} hc => by
    split at hc
    · cases hc
    · exact .inr (.inr (List.mem_singleton.1 hc))
  unfold fixedText at hc
  dsimp only at hc
  split at hc
  · have : c = 'N' ∨ c = 'a' ∨ c = 'N' := by simpa using hc
    rcases this with rfl | rfl | rfl <;> exact .inl rfl
  · split at hc
    · rw [String.toList_ofList, List.mem_append] at hc
      rcases hc with hc | hc
      · exact hmark hc
      · have : c = 'i' ∨ c = 'n' ∨ c = 'f' := by simpa using hc
        rcases this with rfl | rfl | rfl <;> exact .inl rfl
    · -- the digits with zeros before them, and a point among them
      have hpadded : ∀ {c}, c ∈ List.replicate (places + 1 -
          (Decimal.digits ((BinaryValue.ofSingle x).roundToPlaces places)).length) '0' ++
          Decimal.digits ((BinaryValue.ofSingle x).roundToPlaces places) → IsNumeral c :=
        fun {c} hc => by
          rcases List.mem_append.1 hc with hc | hc
          · rw [List.eq_of_mem_replicate hc]
            exact hzero
          · exact .of_isDigit (Nat.isDigit_of_mem_toDigits (by decide) (by decide) hc)
      rw [String.toList_ofList, List.mem_append, List.mem_append, List.mem_cons] at hc
      rcases hc with (hc | hc) | rfl | hc
      · exact hmark hc
      · exact hpadded (List.mem_of_mem_take hc)
      · exact .inr (.inl rfl)
      · exact hpadded (List.mem_of_mem_drop hc)

theorem not_mem_toString {n : Nat} {c : Char} (h : ¬ IsNumeral c) : c ∉ (toString n).toList :=
  fun hc => h (.of_isDigit (toString_numeral hc))

theorem not_mem_fixedText {x : Float32} {places : Nat} {c : Char} (h : ¬ IsNumeral c) :
    c ∉ (fixedText x places).toList := fun hc => h (fixedText_numeral hc)

namespace DotStatement

/-! ## Lines -/

def isOpening {α : Type} : DotStatement α → Bool
  | opening _ => true
  | _ => false

def isClosing {α : Type} : DotStatement α → Bool
  | closing => true
  | _ => false

def isPlaceholder {α : Type} : DotStatement α → Bool
  | placeholder _ _ _ => true
  | _ => false

def isEdge {α : Type} : DotStatement α → Bool
  | edge _ _ => true
  | _ => false

def nodeIndex? {α : Type} : DotStatement α → Option Nat
  | node index _ _ => some index
  | _ => none

/-- The characters of a line. -/
theorem toList_text (s : DotStatement Float32) : s.text.toList = match s with
    | opening i => "  subgraph cluster_".toList ++ ((toString i).toList ++ " \x7b".toList)
    | margin p => "    graph [margin=".toList ++ ((fixedText p 2).toList ++ "];".toList)
    | placeholder i w h => "    e".toList ++ ((toString i).toList ++
        (" [style=invis, width=".toList ++ ((fixedText w 4).toList ++
          (", height=".toList ++ ((fixedText h 4).toList ++ "];".toList)))))
    | node i w h => "    n".toList ++ ((toString i).toList ++
        (" [width=".toList ++ ((fixedText w 4).toList ++
          (", height=".toList ++ ((fixedText h 4).toList ++ "];".toList)))))
    | closing => "  \x7d".toList
    | edge i j => "  n".toList ++ ((toString i).toList ++
        (" -> n".toList ++ ((toString j).toList ++ ";".toList))) := by
  cases s with
  | opening i =>
    show ("  subgraph cluster_" ++ toString i ++ " \x7b").toList = _
    simp only [String.toList_append, List.append_assoc]
  | margin p =>
    show ("    graph [margin=" ++ fixedText p 2 ++ "];").toList = _
    simp only [String.toList_append, List.append_assoc]
  | placeholder i w h =>
    show ("    e" ++ toString i ++ " [style=invis, " ++
      ("width=" ++ fixedText w 4 ++ ", height=" ++ fixedText h 4) ++ "];").toList = _
    simp only [String.toList_append, List.append_assoc]
    rfl
  | node i w h =>
    show ("    n" ++ toString i ++ " [" ++
      ("width=" ++ fixedText w 4 ++ ", height=" ++ fixedText h 4) ++ "];").toList = _
    simp only [String.toList_append, List.append_assoc]
    rfl
  | closing => rfl
  | edge i j =>
    show ("  n" ++ toString i ++ " -> n" ++ toString j ++ ";").toList = _
    simp only [String.toList_append, List.append_assoc]

/-- What a line is without its numbers. -/
def frame {α : Type} : DotStatement α → String
  | opening _ => "  subgraph cluster_ \x7b"
  | margin _ => "    graph [margin=];"
  | placeholder _ _ _ => "    e [style=invis, width=, height=];"
  | node _ _ _ => "    n [width=, height=];"
  | closing => "  \x7d"
  | edge _ _ => "  n -> n;"

/-- **A character that no number has** is in a line as often as in its frame. -/
theorem count_text {c : Char} (hc : ¬ IsNumeral c) (s : DotStatement Float32) :
    s.text.toList.count c = s.frame.toList.count c := by
  have hindex : ∀ n : Nat, (toString n).toList.count c = 0 := fun _ =>
    List.count_eq_zero_of_not_mem (not_mem_toString hc)
  have hsize : ∀ (x : Float32) (places : Nat), (fixedText x places).toList.count c = 0 :=
    fun _ _ => List.count_eq_zero_of_not_mem (not_mem_fixedText hc)
  rw [toList_text]
  cases s <;> simp only [List.count_append, hindex, hsize, Nat.zero_add, frame] <;>
    simp only [← List.count_append] <;> rfl

theorem mem_text_iff {c : Char} (hc : ¬ IsNumeral c) (s : DotStatement Float32) :
    c ∈ s.text.toList ↔ c ∈ s.frame.toList := by
  rw [← List.count_pos_iff, count_text hc, List.count_pos_iff]

theorem lineBreak_not_mem_text (s : DotStatement Float32) : '\n' ∉ s.text.toList := by
  rw [mem_text_iff (by decide)]
  cases s <;> simp only [frame] <;> decide

/-- Only edges have an arrow. -/
theorem arrow_mem_text_iff (s : DotStatement Float32) : '>' ∈ s.text.toList ↔ s.isEdge = true := by
  rw [mem_text_iff (by decide)]
  cases s <;> simp only [frame, isEdge] <;> decide

theorem openBrace_mem_text_iff (s : DotStatement Float32) :
    '\x7b' ∈ s.text.toList ↔ s.isOpening = true := by
  rw [mem_text_iff (by decide)]
  cases s <;> simp only [frame, isOpening] <;> decide

theorem closeBrace_mem_text_iff (s : DotStatement Float32) :
    '\x7d' ∈ s.text.toList ↔ s.isClosing = true := by
  rw [mem_text_iff (by decide)]
  cases s <;> simp only [frame, isClosing] <;> decide

/-- **No line has two braces.** -/
theorem count_braces_text_le (s : DotStatement Float32) :
    s.text.toList.count '\x7b' + s.text.toList.count '\x7d' ≤ 1 := by
  rw [count_text (by decide), count_text (by decide)]
  cases s <;> simp only [frame] <;> decide

/-! ## How a line starts -/

theorem isPrefixOf_opening (s : DotStatement Float32) :
    "  subgraph cluster_".toList.isPrefixOf s.text.toList = s.isOpening := by
  rw [toList_text]
  cases s <;> rfl

theorem isPrefixOf_placeholder (s : DotStatement Float32) :
    "    e".toList.isPrefixOf s.text.toList = s.isPlaceholder := by
  rw [toList_text]
  cases s <;> rfl

theorem isPrefixOf_node (s : DotStatement Float32) :
    "    n".toList.isPrefixOf s.text.toList = s.nodeIndex?.isSome := by
  rw [toList_text]
  cases s <;> rfl

/-- How the line of a node starts. -/
def nodeMark (index : Nat) : String := "    n" ++ toString index ++ " ["

theorem prefix_nodeMark (index : Nat) : "    n".toList <+: (nodeMark index).toList := by
  rw [nodeMark, String.toList_append, String.toList_append, List.append_assoc]
  exact List.prefix_append _ _

theorem isPrefixOf_nodeMark_iff (s : DotStatement Float32) (k : Nat) :
    (nodeMark k).toList.isPrefixOf s.text.toList = true ↔ s.nodeIndex? = some k := by
  have hfirst : ∀ (n : Nat) (rest : List Char),
      ((toString n).toList ++ ' ' :: rest).takeWhile (· ≠ ' ') = (toString n).toList :=
    fun n rest => by
      have hdigits : ∀ c ∈ (toString n).toList, decide (c ≠ ' ') = true := fun c hc =>
        decide_eq_true fun he => not_mem_toString (by decide) (he ▸ hc)
      rw [List.takeWhile_append_of_pos hdigits, List.takeWhile_cons_of_neg (by simp),
        List.append_nil]
  rw [List.isPrefixOf_iff_prefix]
  cases hs : s.nodeIndex? with
  | none =>
    refine iff_of_false (fun h => ?_) fun h => nomatch h
    have hprefix := List.isPrefixOf_iff_prefix.2 ((prefix_nodeMark k).trans h)
    rw [isPrefixOf_node, hs] at hprefix
    cases hprefix
  | some i =>
    obtain ⟨w, h, rfl⟩ : ∃ w h, s = .node i w h := by
      cases s <;> cases hs
      exact ⟨_, _, rfl⟩
    rw [toList_text, nodeMark, String.toList_append, String.toList_append, List.append_assoc,
      List.prefix_append_right_inj, Option.some.injEq]
    refine ⟨fun ⟨t, ht⟩ => ?_, fun hik => hik ▸ ?_⟩
    · rw [List.append_assoc] at ht
      obtain ⟨tail, htail⟩ : ∃ tail, (toString k).toList ++ ' ' :: ('[' :: t) =
          (toString i).toList ++ ' ' :: tail := ⟨_, ht⟩
      have hnumbers := congrArg (List.takeWhile (· ≠ ' ')) htail
      rw [hfirst, hfirst] at hnumbers
      exact (toString_inj.1 (String.toList_inj.1 hnumbers)).symm
    · rw [List.prefix_append_right_inj]
      exact ⟨_, rfl⟩

theorem text_opening_inj {i j : Nat} :
    (opening (α := Float32) i).text = (opening j).text ↔ i = j := by
  refine ⟨fun h => ?_, fun h => h ▸ rfl⟩
  have hchars := congrArg String.toList h
  rw [toList_text, toList_text] at hchars
  exact toString_inj.1 (String.toList_inj.1
    (List.append_cancel_right (List.append_cancel_left hchars)))

end DotStatement

end NestedLayout
