import Mathlib.Data.List.Infix
import Mathlib.Data.List.TakeWhile
import NestedLayout.Sizing.Dot.Answer

/-!
# Finding the pieces of an answer

What the readers of `DotAnswer` find, told by the places of the text at which it stands.

* **Bounds.** A reader of bounding boxes never gets past a character that has no place in one, as a
  brace or a letter of `subgraph`: `boundingBox?_append`. So the first box of a text with such a
  character is the first one on either side of it: `firstMatch?_append`.
* **Words.** `before_append` cuts a text with such a character at a word.
* **Clusters.** `clusterStart?_eq_some_iff` spells out the opening of a cluster. The walk over a
  text goes on after each opening, and passes over none: `clusterStartsWithin_eq`.
-/

set_option autoImplicit false

namespace NestedLayout.DotAnswer

variable {c : Char} {word s t body digits : List Char}

/-! ## Bounds of the readers -/

/-- Whether a character has no place in a bounding box. -/
def isForeign (c : Char) : Bool :=
  !Text.isBlank c && !isNumberChar c && !"bb=\",".toList.contains c

theorem after?_append (hc : c ∉ word) (u v : List Char) :
    after? word (u ++ c :: v) = (after? word u).map (· ++ c :: v) := by
  induction word generalizing u with
  | nil => rfl
  | cons w word ih =>
    obtain ⟨hw, hword⟩ := not_or.1 (List.mem_cons.not.1 hc)
    cases u with
    | nil => simp [after?, Ne.symm hw]
    | cons d u =>
      simp only [List.cons_append, after?]
      split
      · exact ih hword u
      · rfl

theorem skipBlanks_append (hc : Text.isBlank c = false) (u v : List Char) :
    skipBlanks (u ++ c :: v) = skipBlanks u ++ c :: v := by
  have hv : (c :: v).dropWhile Text.isBlank = c :: v := List.dropWhile_cons_of_neg (by simp [hc])
  rw [skipBlanks, skipBlanks, List.dropWhile_append, hv]
  split
  · rename_i hu
    rw [List.isEmpty_iff.1 hu, List.nil_append]
  · rfl

theorem sign?_append {sign : Char} (hc : Text.isBlank c = false) (hs : c ≠ sign)
    (u v : List Char) : sign? sign (u ++ c :: v) = (sign? sign u).map (· ++ c :: v) := by
  rw [sign?, skipBlanks_append hc, after?_append (by simpa using hs)]
  rfl

theorem numberChars?_append (hc : Text.isBlank c = false) (hn : isNumberChar c = false)
    (u v : List Char) :
    numberChars? (u ++ c :: v) = (numberChars? u).map fun r => (r.1, r.2 ++ c :: v) := by
  have hv : (c :: v).takeWhile isNumberChar = [] := List.takeWhile_cons_of_neg (by simp [hn])
  have htake : (skipBlanks u ++ c :: v).takeWhile isNumberChar =
      (skipBlanks u).takeWhile isNumberChar := by
    rw [List.takeWhile_append, hv, List.append_nil]
    split
    · rename_i hu
      exact ((List.takeWhile_prefix isNumberChar).eq_of_length hu).symm
    · rfl
  have hdrop : (skipBlanks u ++ c :: v).drop ((skipBlanks u).takeWhile isNumberChar).length =
      (skipBlanks u).drop ((skipBlanks u).takeWhile isNumberChar).length ++ c :: v :=
    List.drop_append_of_le_length (List.takeWhile_prefix isNumberChar).length_le
  simp only [numberChars?, skipBlanks_append hc, htake, hdrop]
  split <;> rfl

theorem attribute?_append {name : String} (hc : Text.isBlank c = false) (hname : c ∉ name.toList)
    (heq : c ≠ '=') (hquote : c ≠ '"') (u v : List Char) :
    attribute? name (u ++ c :: v) = (attribute? name u).map (· ++ c :: v) := by
  simp only [attribute?, Option.bind_eq_bind, after?_append hname, sign?_append hc heq,
    sign?_append hc hquote, Option.bind_map, Function.comp_def, Option.map_bind]

section

variable {β : Type} {u v : List Char} (hc : Text.isBlank c = false)
include hc

/-- After a sign, the text from the character on is not seen if what comes next does not see it. -/
theorem bind_sign? {sign : Char} (hs : c ≠ sign) {f : List Char → Option β}
    (h : ∀ s, f (s ++ c :: v) = f s) :
    (sign? sign (u ++ c :: v)).bind f = (sign? sign u).bind f := by
  rw [sign?_append hc hs]
  cases sign? sign u with
  | none => rfl
  | some s => exact h s

/-- After a number, the text from the character on is not seen if what comes next does not see
it. -/
theorem bind_numberChars? (hn : isNumberChar c = false) {f : List Char × List Char → Option β}
    (h : ∀ chars s, f (chars, s ++ c :: v) = f (chars, s)) :
    (numberChars? (u ++ c :: v)).bind f = (numberChars? u).bind f := by
  rw [numberChars?_append hc hn]
  cases numberChars? u with
  | none => rfl
  | some r => exact h r.1 r.2

end

/-- **A bounding box ends** before a character that has no place in it. -/
theorem boundingBox?_append (hc : isForeign c = true) (u v : List Char) :
    boundingBox? (u ++ c :: v) = boundingBox? u := by
  obtain ⟨⟨hblank, hnumber⟩, hword⟩ :
      (Text.isBlank c = false ∧ isNumberChar c = false) ∧ c ∉ "bb=\",".toList := by
    simpa [isForeign] using hc
  obtain ⟨hb, heq, hquote, hcomma⟩ : c ≠ 'b' ∧ c ≠ '=' ∧ c ≠ '"' ∧ c ≠ ',' := by
    simpa using hword
  simp only [boundingBox?, Option.bind_eq_bind]
  rw [attribute?_append hblank (by simpa using hb) heq hquote]
  cases attribute? "bb" u with
  | none => rfl
  | some s =>
    -- four numbers with three commas between them, and a quote
    refine bind_numberChars? hblank hnumber fun _ s => ?_
    refine bind_sign? hblank hcomma fun s => ?_
    refine bind_numberChars? hblank hnumber fun _ s => ?_
    refine bind_sign? hblank hcomma fun s => ?_
    refine bind_numberChars? hblank hnumber fun _ s => ?_
    refine bind_sign? hblank hcomma fun s => ?_
    refine bind_numberChars? hblank hnumber fun _ s => ?_
    exact bind_sign? hblank hquote fun _ => rfl

/-! ## First matches -/

section FirstMatch

variable {β : Type} {read : List Char → Option β} {v : β}

/-- **The first match** of a reader is at a place before which there is none. -/
theorem firstMatch?_eq_some_iff :
    firstMatch? read t = some v ↔
      ∃ skipped rest, t = skipped ++ rest ∧ read rest = some v ∧
        ∀ p q, skipped = p ++ q → q ≠ [] → read (q ++ rest) = none := by
  induction t with
  | nil =>
    refine ⟨fun h => ⟨[], [], rfl, h, fun p q hq hne => ?_⟩, ?_⟩
    · exact absurd (List.append_eq_nil_iff.1 hq.symm).2 hne
    · rintro ⟨skipped, rest, ht, hread, -⟩
      rw [(List.append_eq_nil_iff.1 ht.symm).2] at hread
      exact hread
  | cons d t ih =>
    rw [firstMatch?]
    cases hd : read (d :: t) with
    | some w =>
      refine ⟨fun h => ⟨[], d :: t, rfl, hd.trans h, fun p q hq hne => ?_⟩, ?_⟩
      · exact absurd (List.append_eq_nil_iff.1 hq.symm).2 hne
      · rintro ⟨skipped, rest, ht, hread, hfirst⟩
        -- a text that is read at its front has nothing skipped
        cases skipped with
        | nil => exact (hd.symm.trans (congrArg read ht)).trans hread
        | cons e skipped =>
          have hnone := hfirst [] (e :: skipped) rfl (by simp)
          rw [← ht, hd] at hnone
          cases hnone
    | none =>
      refine ih.trans ⟨?_, ?_⟩
      · rintro ⟨skipped, rest, rfl, hread, hfirst⟩
        refine ⟨d :: skipped, rest, rfl, hread, fun p q hq hne => ?_⟩
        cases p with
        | nil => rw [← List.nil_append q, ← hq]; exact hd
        | cons e p => exact hfirst p q (List.cons.inj hq).2 hne
      · rintro ⟨skipped, rest, ht, hread, hfirst⟩
        cases skipped with
        | nil => rw [← List.nil_append rest, ← ht, hd] at hread; cases hread
        | cons e skipped =>
          obtain ⟨rfl, rfl⟩ := List.cons.inj ht
          exact ⟨skipped, rest, rfl, hread, fun p q hq hne => hfirst (d :: p) q (by simp [hq]) hne⟩

theorem firstMatch?_eq_none_iff :
    firstMatch? read t = none ↔ ∀ rest, rest <:+ t → read rest = none := by
  induction t with
  | nil => simp [firstMatch?]
  | cons d t ih =>
    rw [firstMatch?]
    cases hd : read (d :: t) with
    | some w =>
      refine iff_of_false (fun h => nomatch h) fun h => ?_
      rw [h (d :: t) (List.suffix_refl _)] at hd
      cases hd
    | none =>
      refine ih.trans ⟨fun h rest hrest => ?_, fun h rest hrest => h rest (hrest.trans ?_)⟩
      · rcases List.suffix_cons_iff.1 hrest with rfl | hrest
        · exact hd
        · exact h rest hrest
      · exact List.suffix_cons d t

/-- **The first match on either side** of a character that ends whatever is read. -/
theorem firstMatch?_append (hnil : read [] = none) (hc : ∀ u v, read (u ++ c :: v) = read u)
    (u v : List Char) :
    firstMatch? read (u ++ c :: v) = (firstMatch? read u).or (firstMatch? read v) := by
  induction u with
  | nil =>
    have hfront : read (c :: v) = none := (hc [] v).trans hnil
    simp only [List.nil_append, firstMatch?, hfront, hnil, Option.none_or]
  | cons d u ih =>
    have hfront : read (d :: (u ++ c :: v)) = read (d :: u) := hc (d :: u) v
    rw [List.cons_append, firstMatch?, firstMatch?, hfront]
    cases read (d :: u) with
    | some w => rfl
    | none => exact ih

end FirstMatch

/-! ## Words -/

/-- A word lies before a character that is not in it. -/
theorem prefix_append_cons_iff (hc : c ∉ word) (u v : List Char) :
    word <+: u ++ c :: v ↔ word <+: u := by
  refine ⟨fun h => ?_, fun h => h.trans (List.prefix_append ..)⟩
  rcases List.prefix_or_prefix_of_prefix h (List.prefix_append u (c :: v)) with hu | ⟨q, rfl⟩
  · exact hu
  · cases q with
    | nil => simp
    | cons d q =>
      obtain ⟨rfl, -⟩ := List.cons_prefix_cons.1 ((List.prefix_append_right_inj u).1 h)
      exact absurd (by simp) hc

/-- **A text with a character that is not in the word** is cut before that character exactly when
the word is there. -/
theorem before_append (hc : c ∉ word) (hne : word ≠ []) (u v : List Char) :
    before word (u ++ c :: v) =
      if word <:+: u then before word u else u ++ c :: before word v := by
  induction u with
  | nil =>
    have hfront : ¬ word <+: c :: v := fun h =>
      hne (List.prefix_nil.1 ((prefix_append_cons_iff hc [] v).1 h))
    simp [before, hfront, hne]
  | cons d u ih =>
    have hfront : word <+: d :: (u ++ c :: v) ↔ word <+: d :: u :=
      prefix_append_cons_iff hc (d :: u) v
    simp only [List.cons_append, before, List.isPrefixOf_iff_prefix, hfront, List.infix_cons_iff,
      ih]
    by_cases hu : word <+: d :: u <;> by_cases hi : word <:+: u <;> simp [hu, hi]

/-- A text is cut at a word, if it has one. -/
theorem before_eq (word t : List Char) :
    before word t = t ∨ ∃ more, t = before word t ++ word ++ more := by
  induction t with
  | nil => exact .inl rfl
  | cons d t ih =>
    rw [before]
    split
    · rename_i h
      obtain ⟨more, hmore⟩ := List.isPrefixOf_iff_prefix.1 h
      exact .inr ⟨more, hmore.symm⟩
    · exact ih.imp (congrArg _) fun ⟨more, hmore⟩ => ⟨more, congrArg (d :: ·) hmore⟩

/-! ## Clusters -/

theorem after?_eq_some_iff {rest : List Char} : after? word s = some rest ↔ s = word ++ rest := by
  induction word generalizing s with
  | nil => simp [after?]
  | cons w word ih =>
    cases s with
    | nil => simp [after?]
    | cons d s =>
      rw [after?, List.cons_append, List.cons.injEq, ← ih]
      split
      · rename_i hw
        simp [hw]
      · rename_i hw
        simp [Ne.symm hw]

/-- Blanks are no digits. -/
theorem not_isDecimalDigit_of_isBlank (h : Text.isBlank c = true) :
    Text.isDecimalDigit c = false := by
  have hapart : ∀ r ∈ Text.blankRanges, ∀ q ∈ Text.digitRanges, r.2 < q.1 ∨ q.2 < r.1 := by
    decide
  obtain ⟨r, hr, hc⟩ := List.any_eq_true.1 h
  refine List.any_eq_false.2 fun q hq => ?_
  have := hapart r hr q hq
  simp only [Bool.and_eq_true, decide_eq_true_eq] at hc ⊢
  omega

/-- The opening of a cluster's block at the front of a text: its digits, and what follows its
brace. -/
def Opening (s digits body : List Char) : Prop :=
  ∃ gap gap',
    s = "subgraph".toList ++ gap ++ "cluster_".toList ++ digits ++ gap' ++ '\x7b' :: body ∧
    gap ≠ [] ∧ (∀ c ∈ gap, Text.isBlank c = true) ∧
    digits ≠ [] ∧ (∀ c ∈ digits, Text.isDecimalDigit c = true) ∧
    ∀ c ∈ gap', Text.isBlank c = true

theorem skipBlanks_gap {gap : List Char} (hgap : ∀ c ∈ gap, Text.isBlank c = true)
    (hc : Text.isBlank c = false) (rest : List Char) :
    skipBlanks (gap ++ c :: rest) = c :: rest := by
  rw [skipBlanks, List.dropWhile_append_of_pos hgap, List.dropWhile_cons_of_neg (by simp [hc])]

theorem sign?_eq_some_iff {rest : List Char} (hc : Text.isBlank c = false) :
    sign? c s = some rest ↔ ∃ gap, s = gap ++ c :: rest ∧ ∀ d ∈ gap, Text.isBlank d = true := by
  rw [sign?, after?_eq_some_iff]
  refine ⟨fun h => ⟨s.takeWhile Text.isBlank, ?_, fun d hd => List.mem_takeWhile_imp hd⟩, ?_⟩
  · exact (List.takeWhile_append_dropWhile (p := Text.isBlank)).symm.trans (congrArg _ h)
  · rintro ⟨gap, rfl, hgap⟩
    exact skipBlanks_gap hgap hc rest

theorem index?_eq_some_iff {rest : List Char} :
    index? s = some (digits, rest) ↔
      s = digits ++ rest ∧ digits ≠ [] ∧ (∀ d ∈ digits, Text.isDecimalDigit d = true) ∧
        ∀ d ∈ rest.head?, Text.isDecimalDigit d = false := by
  have hsplit := List.takeWhile_append_dropWhile (p := Text.isDecimalDigit) (l := s)
  have hdrop : s.drop (s.takeWhile Text.isDecimalDigit).length =
      s.dropWhile Text.isDecimalDigit :=
    (congrArg (List.drop _) hsplit.symm).trans List.drop_left
  simp only [index?, hdrop, List.isEmpty_iff]
  constructor
  · intro h
    split at h
    · cases h
    · rename_i hne
      cases h
      refine ⟨hsplit.symm, hne, fun d hd => List.mem_takeWhile_imp hd, fun d hd => ?_⟩
      have hhead := List.head?_dropWhile_not Text.isDecimalDigit s
      rw [Option.mem_def.1 hd] at hhead
      exact hhead
  · rintro ⟨rfl, hne, hdigits, hrest⟩
    have hstop : rest.takeWhile Text.isDecimalDigit = [] ∧
        rest.dropWhile Text.isDecimalDigit = rest := by
      cases rest with
      | nil => exact ⟨rfl, rfl⟩
      | cons d rest =>
        have hd := hrest d rfl
        exact ⟨List.takeWhile_cons_of_neg (by simp [hd]), List.dropWhile_cons_of_neg (by simp [hd])⟩
    rw [List.takeWhile_append_of_pos hdigits, List.dropWhile_append_of_pos hdigits, hstop.1,
      hstop.2, List.append_nil, if_neg hne]

theorem opening_of_clusterStart? (h : clusterStart? s = some (digits, body)) :
    Opening s digits body := by
  simp only [clusterStart?, Option.bind_eq_bind, Option.bind_eq_some_iff] at h
  obtain ⟨a, ha, h⟩ := h
  split at h
  · cases h
  · rename_i hgap
    simp only [Option.bind_eq_some_iff, after?_eq_some_iff] at h ha
    obtain ⟨b, hb, ⟨ds, rest⟩, hindex, body', hbody, h⟩ := h
    obtain ⟨hds, hne, hdigits, -⟩ := index?_eq_some_iff.1 hindex
    obtain ⟨gap', hrest, hgap'⟩ := (sign?_eq_some_iff (by decide)).1 hbody
    cases h
    have hsplit : a.takeWhile Text.isBlank ++ skipBlanks a = a := List.takeWhile_append_dropWhile
    refine ⟨a.takeWhile Text.isBlank, gap', ?_, fun he => hgap ?_,
      fun d hd => List.mem_takeWhile_imp hd, hne, hdigits, hgap'⟩
    · calc s = "subgraph".toList ++ (a.takeWhile Text.isBlank ++ skipBlanks a) := by rw [ha, hsplit]
        _ = _ := by
          rw [hb, hds, show rest = _ from hrest]
          simp only [List.append_assoc]
    · rw [he, List.nil_append] at hsplit
      rw [hsplit]

theorem clusterStart?_of_opening (h : Opening s digits body) :
    clusterStart? s = some (digits, body) := by
  obtain ⟨gap, gap', rfl, hne, hgap, hdne, hdigits, hgap'⟩ := h
  have hhead : ∀ d ∈ (gap' ++ '\x7b' :: body).head?, Text.isDecimalDigit d = false := by
    intro d hd
    cases gap' with
    | nil => cases hd; decide
    | cons => cases hd; exact not_isDecimalDigit_of_isBlank (hgap' d (by simp))
  -- what is left of the text after each reader
  have hindex := index?_eq_some_iff.2 ⟨rfl, hdne, hdigits, hhead⟩
  have hsign : sign? '\x7b' (gap' ++ '\x7b' :: body) = some body :=
    (sign?_eq_some_iff (by decide)).2 ⟨gap', rfl, hgap'⟩
  generalize hrest : digits ++ (gap' ++ '\x7b' :: body) = rest at hindex
  have hskip : skipBlanks (gap ++ ("cluster_".toList ++ rest)) = "cluster_".toList ++ rest :=
    skipBlanks_gap hgap (by decide) _
  have hshorter : ("cluster_".toList ++ rest).length ≠
      (gap ++ ("cluster_".toList ++ rest)).length := by
    have hpos := List.length_pos_iff.2 hne
    simp only [List.length_append]
    omega
  have hword : after? "subgraph".toList
      ("subgraph".toList ++ (gap ++ ("cluster_".toList ++ rest))) =
      some (gap ++ ("cluster_".toList ++ rest)) := after?_eq_some_iff.2 rfl
  have hname : after? "cluster_".toList ("cluster_".toList ++ rest) = some rest :=
    after?_eq_some_iff.2 rfl
  simp only [List.append_assoc, hrest, clusterStart?, Option.bind_eq_bind, hword, Option.bind_some,
    hskip, if_neg hshorter, hname, hindex, hsign]
  rfl

/-- **The start of a cluster** is found where one opens, and nowhere else. -/
theorem clusterStart?_eq_some_iff :
    clusterStart? s = some (digits, body) ↔ Opening s digits body :=
  ⟨opening_of_clusterStart?, clusterStart?_of_opening⟩

/-! ## All clusters -/

/-- The starts of clusters at all places of a text. -/
def clusterStarts (s : List Char) : List (List Char × List Char) := s.tails.filterMap clusterStart?

theorem clusterStarts_cons (c : Char) (s : List Char) :
    clusterStarts (c :: s) = (clusterStart? (c :: s)).toList ++ clusterStarts s := by
  rw [clusterStarts, List.tails_cons, List.filterMap_cons]
  cases clusterStart? (c :: s) <;> rfl

theorem clusterStart?_eq_none (h : ¬ "subgraph".toList <+: s) : clusterStart? s = none := by
  cases hs : clusterStart? s with
  | none => rfl
  | some start =>
    obtain ⟨gap, gap', rfl, -⟩ := opening_of_clusterStart? hs
    exact absurd ⟨gap ++ "cluster_".toList ++ start.1 ++ gap' ++ '\x7b' :: start.2, by simp⟩ h

/-- No cluster starts in a text without the first letter of its opening. -/
theorem clusterStarts_append_of_not_mem {u : List Char} (hu : 's' ∉ u) (s : List Char) :
    clusterStarts (u ++ s) = clusterStarts s := by
  induction u with
  | nil => rfl
  | cons c u ih =>
    obtain ⟨hc, hu⟩ := not_or.1 (List.mem_cons.not.1 hu)
    have hnone : clusterStart? (c :: (u ++ s)) = none :=
      clusterStart?_eq_none fun h => hc (List.cons_prefix_cons.1 h).1
    rw [List.cons_append, clusterStarts_cons, hnone, ih hu]
    rfl

/-- **No cluster starts inside the opening of another.** -/
theorem clusterStarts_of_opening (h : Opening s digits body) :
    clusterStarts s = (digits, body) :: clusterStarts body := by
  have hstart := clusterStart?_of_opening h
  obtain ⟨gap, gap', rfl, -, hgap, -, hdigits, hgap'⟩ := h
  -- the letter with which an opening starts comes once more in it, before another letter
  have hletters :
      "subgraph".toList ++ gap ++ "cluster_".toList ++ digits ++ gap' ++ '\x7b' :: body =
      's' :: (("ubgraph".toList ++ gap ++ "clu".toList) ++
        's' :: (("ter_".toList ++ digits ++ gap' ++ ['\x7b']) ++ body)) := by
    simp
  have hblank : ∀ u : List Char, (∀ d ∈ u, Text.isBlank d = true) → 's' ∉ u :=
    fun u hu hs => absurd (hu _ hs) (by decide)
  have hdigit : 's' ∉ digits := fun hs => absurd (hdigits _ hs) (by decide)
  have hinner :
      clusterStart? ('s' :: (("ter_".toList ++ digits ++ gap' ++ ['\x7b']) ++ body)) = none :=
    clusterStart?_eq_none fun ⟨_, ht⟩ => absurd (List.cons.inj (List.cons.inj ht).2).1 (by decide)
  rw [hletters] at hstart ⊢
  rw [clusterStarts_cons, hstart, clusterStarts_append_of_not_mem (by simp [hblank gap hgap]),
    clusterStarts_cons, hinner,
    clusterStarts_append_of_not_mem (by simp [hdigit, hblank gap' hgap'])]
  rfl

theorem length_lt_of_opening (h : Opening s digits body) : body.length < s.length := by
  obtain ⟨gap, gap', rfl, -⟩ := h
  simp only [List.length_append, List.length_cons]
  omega

/-- **The walk over a text** that goes on after each opening finds the starts at all places. -/
theorem clusterStartsWithin_eq {n : Nat} (hn : s.length ≤ n) :
    clusterStartsWithin n s = clusterStarts s := by
  induction n generalizing s with
  | zero =>
    rw [List.length_eq_zero_iff.1 (Nat.le_zero.1 hn)]
    rfl
  | succ n ih =>
    cases s with
    | nil => rfl
    | cons c s =>
      rw [clusterStartsWithin]
      cases hc : clusterStart? (c :: s) with
      | none => rw [clusterStarts_cons, hc]; exact ih (by simpa using hn)
      | some start =>
        have hopening := opening_of_clusterStart? hc
        have hshorter := length_lt_of_opening hopening
        rw [List.length_cons] at hn hshorter
        rw [clusterStarts_of_opening hopening]
        exact congrArg _ (ih (by omega))

theorem mem_clusterStarts_iff :
    (digits, body) ∈ clusterStarts s ↔ ∃ rest, rest <:+ s ∧ Opening rest digits body := by
  simp only [clusterStarts, List.mem_filterMap, List.mem_tails, clusterStart?_eq_some_iff]

/-- The starts after one of them are those in the text after its brace. -/
theorem clusterStarts_after {done later : List (List Char × List Char)}
    (h : clusterStarts s = done ++ (digits, body) :: later) : later = clusterStarts body := by
  induction hn : s.length using Nat.strong_induction_on generalizing s done with
  | _ n ih =>
    subst hn
    cases s with
    | nil =>
      rw [show clusterStarts [] = [] from rfl] at h
      simp at h
    | cons c s =>
      cases hc : clusterStart? (c :: s) with
      | none =>
        rw [clusterStarts_cons, hc] at h
        exact ih s.length (by simp) h rfl
      | some start =>
        have hopening := opening_of_clusterStart? hc
        rw [clusterStarts_of_opening hopening] at h
        cases done with
        | nil =>
          obtain ⟨hstart, hlater⟩ := List.cons.inj h
          cases hstart
          exact hlater.symm
        | cons start' done =>
          exact ih start.2.length (length_lt_of_opening hopening) (List.cons.inj h).2 rfl

end NestedLayout.DotAnswer
