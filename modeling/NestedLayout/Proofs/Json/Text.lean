import NestedLayout.Json.Reader

/-!
# Tokens of written values

What is written comes apart into the tokens it was made of, whatever stands behind it.

* `scanText_escape`: a string that was escaped is scanned to its end, and its pieces are its
  characters again, quotes, backslashes and control characters included.
* `Cuts text ts`: in front of any other text, `text` is cut into the tokens `ts`; it is composed
  along `++` (`Cuts.append`).
* `IsWritten j`: both texts of a value, the one without blanks and the one with a line for each
  item, are cut into its tokens. This holds of `null`, texts, lists and records.
-/

set_option autoImplicit false

namespace NestedLayout.Json

/-! ## Strings -/

theorem hexValue4?_of_lt : ∀ n < 32,
    hexValue4? '0' '0' (hexDigit (n / 16)) (hexDigit (n % 16)) = some n := by decide

/-- An escape of one letter is one piece. -/
theorem scanText_letter {e c : Char} (he : unescape? e = some c) (rest : List Char) :
    scanText ('\\' :: e :: rest) = (scanText rest).cons (.char c) := by
  unfold unescape? at he
  split at he <;> cases he <;> rfl

/-- Outside of escapes each character is one piece. -/
theorem scanText_raw {c : Char} (hquote : c ≠ '"') (hslash : c ≠ '\\') (hc : ¬ c.toNat < 32)
    (rest : List Char) : scanText (c :: rest) = (scanText rest).cons (.char c) := by
  rw [scanText, if_neg hc]
  all_goals simp_all

/-- **A character that was escaped** is scanned as one piece, which stands for it. -/
theorem scanText_escapeChar (c : Char) (rest : List Char) :
    ∃ piece, scanText (escapeChar c ++ rest) = (scanText rest).cons piece ∧
      ∀ pieces, joinPieces pairChar true (piece :: pieces) =
        (joinPieces pairChar true pieces).map (c :: ·) := by
  have letter : ∀ {e}, unescape? e = some c →
      ∃ piece, scanText (['\\', e] ++ rest) = (scanText rest).cons piece ∧
        ∀ pieces, joinPieces pairChar true (piece :: pieces) =
          (joinPieces pairChar true pieces).map (c :: ·) := fun he =>
    ⟨.char c, scanText_letter he rest, fun _ => rfl⟩
  unfold escapeChar
  split
  · rename_i hc
    subst hc
    exact letter rfl
  split
  · rename_i hc
    subst hc
    exact letter rfl
  split
  · rename_i hlt
    have hc := Char.ofNat_toNat c
    generalize c.toNat = n at hlt hc
    subst hc
    split
    · exact letter rfl
    · exact letter rfl
    · exact letter rfl
    · exact letter rfl
    · exact letter rfl
    · refine ⟨.unit n, ?_, fun pieces => ?_⟩
      · simp only [List.cons_append, List.nil_append, scanText, hexValue4?_of_lt n hlt]
      · have htrail : isTrail n = false := by simp [isTrail]; omega
        have hlead : isLead n = false := by simp [isLead]; omega
        rw [joinPieces.eq_def]
        simp only [htrail, hlead, Bool.false_eq_true, if_false]
  · rename_i hquote hslash hlt
    exact ⟨.char c, scanText_raw hquote hslash hlt rest, fun _ => rfl⟩

/-- **A string that was escaped** is scanned to its closing quote, and its pieces are its
characters. -/
theorem scanText_escape (s rest : List Char) :
    ∃ pieces, scanText (escape s ++ '"' :: rest) = .closed pieces rest ∧
      joinPieces pairChar true pieces = .ok s := by
  induction s with
  | nil => exact ⟨[], rfl, rfl⟩
  | cons c s ih =>
    obtain ⟨pieces, hscan, hjoin⟩ := ih
    obtain ⟨piece, hpiece, hstands⟩ := scanText_escapeChar c (escape s ++ '"' :: rest)
    refine ⟨piece :: pieces, ?_, ?_⟩
    · rw [escape, List.flatMap_cons, List.append_assoc]
      exact hpiece.trans (by rw [hscan]; rfl)
    · rw [hstands, hjoin]
      rfl

/-! ## Cutting -/

/-- In front of any other text, the text is cut into these tokens. -/
def Cuts (text : List Char) (ts : List Token) : Prop :=
  ∀ n rest, (text ++ rest).length ≤ n →
    ∃ m, rest.length ≤ m ∧ tokensWithin n (text ++ rest) = ts ++ tokensWithin m rest

section
variable {text text' : List Char} {ts ts' : List Token}

theorem Cuts.nil : Cuts [] [] := fun n _ hn => ⟨n, hn, rfl⟩

theorem Cuts.append (h : Cuts text ts) (h' : Cuts text' ts') :
    Cuts (text ++ text') (ts ++ ts') := fun n rest hn => by
  rw [List.append_assoc] at hn ⊢
  obtain ⟨m, hm, he⟩ := h n (text' ++ rest) hn
  obtain ⟨k, hk, he'⟩ := h' m rest hm
  exact ⟨k, hk, by rw [he, he', List.append_assoc]⟩

/-- A text that stands alone has its tokens. -/
theorem Cuts.tokens (h : Cuts text ts) : tokens text = ts := by
  obtain ⟨m, -, he⟩ := h text.length [] (by simp)
  have hend : tokensWithin m [] = [] := by cases m <;> rfl
  rw [Json.tokens, ← List.append_nil text, List.append_nil text, ← List.append_nil ts, ← hend, ← he,
    List.append_nil]

/-- One step of the cutting. -/
theorem Cuts.of_step {c : Char} (h : ∀ n rest, (text ++ rest).length ≤ n →
    ∃ m, rest.length ≤ m ∧ tokensWithin (n + 1) (c :: (text ++ rest)) = ts ++ tokensWithin m rest) :
    Cuts (c :: text) ts := fun n rest hn => by
  obtain ⟨n, rfl⟩ : ∃ k, n = k + 1 := ⟨n - 1, by simp at hn; omega⟩
  exact h n rest (by simpa using hn)

theorem Cuts.openList : Cuts ['['] [.openList] := .of_step fun n _ hn => ⟨n, hn, rfl⟩

theorem Cuts.closeList : Cuts [']'] [.closeList] := .of_step fun n _ hn => ⟨n, hn, rfl⟩

theorem Cuts.openRecord : Cuts ['\x7b'] [.openRecord] := .of_step fun n _ hn => ⟨n, hn, rfl⟩

theorem Cuts.closeRecord : Cuts ['\x7d'] [.closeRecord] := .of_step fun n _ hn => ⟨n, hn, rfl⟩

theorem Cuts.comma : Cuts [','] [.comma] := .of_step fun n _ hn => ⟨n, hn, rfl⟩

theorem Cuts.colon : Cuts [':'] [.colon] := .of_step fun n _ hn => ⟨n, hn, rfl⟩

theorem Cuts.null : Cuts ['n', 'u', 'l', 'l'] [.null] :=
  .of_step fun n _ hn => ⟨n, by simp at hn; omega, rfl⟩

/-- Blanks between tokens disappear. -/
theorem Cuts.gap {c : Char} (hc : c = ' ' ∨ c = '\n') : Cuts [c] [] :=
  .of_step fun n rest hn => ⟨n, hn, by rcases hc with rfl | rfl <;> rfl⟩

theorem Cuts.lineBreak (level : Nat) : Cuts (lineBreak level) [] := by
  have hblanks : ∀ n, Cuts (List.replicate n ' ') [] := fun n => by
    induction n with
    | zero => exact .nil
    | succ n ih => exact (Cuts.gap (.inl rfl)).append ih
  exact (Cuts.gap (.inr rfl)).append (hblanks _)

/-- **A string in quotes is its text again.** -/
theorem Cuts.quote (s : String) : Cuts (quote s) [.text (.ok s)] := by
  suffices h : Cuts ('"' :: (escape s.toList ++ ['"'])) [.text (.ok s)] from h
  refine .of_step fun n rest hn => ?_
  obtain ⟨pieces, hscan, hjoin⟩ := scanText_escape s.toList rest
  refine ⟨n, by simp at hn; omega, ?_⟩
  rw [List.append_assoc, List.singleton_append]
  simp only [tokensWithin, hscan, hjoin, Except.map, String.ofList_toList]
  rfl

end

/-! ## Written values -/

mutual

/-- The tokens of a value. -/
def tokensOf : Json → List Token
  | null => [.null]
  | flag b => [.flag b]
  | number digits => tokens digits.toList
  | text value => [.text (.ok value)]
  | list items => .openList :: itemTokens items ++ [.closeList]
  | record fields => .openRecord :: fieldTokens fields ++ [.closeRecord]

/-- The tokens of the items of a list. -/
def itemTokens : List Json → List Token
  | [] => []
  | [j] => tokensOf j
  | j :: k :: rest => tokensOf j ++ .comma :: itemTokens (k :: rest)

/-- The tokens of the fields of a record. -/
def fieldTokens : List (String × Json) → List Token
  | [] => []
  | [(name, j)] => .text (.ok name) :: .colon :: tokensOf j
  | (name, j) :: f :: rest =>
    .text (.ok name) :: .colon :: tokensOf j ++ .comma :: fieldTokens (f :: rest)

end

theorem tokensOf_list (l : List Json) (rest : List Token) :
    tokensOf (.list l) ++ rest = .openList :: (itemTokens l ++ .closeList :: rest) := by
  simp [tokensOf]

theorem tokensOf_record (l : List (String × Json)) (rest : List Token) :
    tokensOf (.record l) ++ rest = .openRecord :: (fieldTokens l ++ .closeRecord :: rest) := by
  simp [tokensOf]

/-- The items after the first come with a comma each. -/
theorem itemTokens_cons (j : Json) (rest : List Json) :
    itemTokens (j :: rest) = tokensOf j ++ rest.flatMap fun k => .comma :: tokensOf k := by
  induction rest generalizing j with
  | nil => simp [itemTokens]
  | cons k rest ih => simp [itemTokens, ih]

/-- The fields after the first come with a comma each. -/
theorem fieldTokens_cons (name : String) (j : Json) (rest : List (String × Json)) :
    fieldTokens ((name, j) :: rest) = .text (.ok name) :: .colon :: tokensOf j ++
      rest.flatMap fun f => .comma :: .text (.ok f.1) :: .colon :: tokensOf f.2 := by
  induction rest generalizing name j with
  | nil => simp [fieldTokens]
  | cons f rest ih => simp [fieldTokens, ih]

/-- Each field has a token of its own. -/
theorem length_le_fieldTokens (l : List (String × Json)) : l.length ≤ (fieldTokens l).length := by
  induction l with
  | nil => exact Nat.zero_le _
  | cons f rest ih =>
    cases rest with
    | nil => simp [fieldTokens]
    | cons k rest =>
      simp only [fieldTokens, List.length_append, List.length_cons] at ih ⊢
      omega

/-- Whether a value may start with the token. -/
def Token.opens : Token → Bool
  | openList | openRecord | text _ | number _ | null | flag _ => true
  | _ => false

/-- Both texts of the value are cut into its tokens. -/
structure IsWritten (j : Json) : Prop where
  compact : Cuts j.chars j.tokensOf
  pretty : ∀ level, Cuts (prettyChars level j) j.tokensOf
  opens : ∃ t rest, j.tokensOf = t :: rest ∧ t.opens = true

/-- Each item has a token of its own. -/
theorem length_le_itemTokens {l : List Json} (h : ∀ j ∈ l, IsWritten j) :
    l.length ≤ (itemTokens l).length := by
  induction l with
  | nil => exact Nat.zero_le _
  | cons j rest ih =>
    obtain ⟨hj, hrest⟩ := List.forall_mem_cons.1 h
    obtain ⟨t, ts, hts, -⟩ := hj.opens
    have := ih hrest
    cases rest with
    | nil => simp [itemTokens, hts]
    | cons k rest =>
      simp only [itemTokens, List.length_append, List.length_cons] at this ⊢
      omega

namespace IsWritten

theorem text (s : String) : IsWritten (.text s) := by
  refine ⟨?_, fun level => ?_, _, _, rfl, rfl⟩
  · rw [chars]
    exact .quote s
  · rw [prettyChars]
    exact .quote s

theorem null : IsWritten .null := by
  refine ⟨?_, fun level => ?_, _, _, rfl, rfl⟩
  · rw [chars]
    exact .null
  · rw [prettyChars]
    exact .null

theorem items {l : List Json} (h : ∀ j ∈ l, IsWritten j) :
    Cuts (itemChars l) (itemTokens l) ∧ ∀ level, Cuts (prettyItems level l) (itemTokens l) := by
  induction l with
  | nil =>
    simp only [itemChars, itemTokens, prettyItems]
    exact ⟨.nil, fun _ => .nil⟩
  | cons j rest ih =>
    obtain ⟨hj, hrest⟩ := List.forall_mem_cons.1 h
    obtain ⟨hcompact, hpretty⟩ := ih hrest
    cases rest with
    | nil =>
      simp only [itemChars, itemTokens, prettyItems]
      exact ⟨hj.compact, fun level => (Cuts.lineBreak level).append (hj.pretty level)⟩
    | cons k rest =>
      simp only [itemChars, itemTokens, prettyItems]
      exact ⟨hj.compact.append (Cuts.comma.append hcompact), fun level =>
        ((Cuts.lineBreak level).append (hj.pretty level)).append
          (Cuts.comma.append (hpretty level))⟩

/-- Lists are written of what is written. -/
theorem list {l : List Json} (h : ∀ j ∈ l, IsWritten j) : IsWritten (.list l) := by
  obtain ⟨hcompact, hpretty⟩ := items h
  refine ⟨?_, fun level => ?_, _, _, rfl, rfl⟩
  · rw [chars, tokensOf]
    exact (Cuts.openList.append hcompact).append .closeList
  · cases l with
    | nil =>
      rw [prettyChars, tokensOf, itemTokens]
      exact Cuts.openList.append .closeList
    | cons j rest =>
      rw [prettyChars, tokensOf, List.append_assoc]
      exact (Cuts.openList.append (hpretty _)).append ((Cuts.lineBreak level).append .closeList)

theorem fields {l : List (String × Json)} (h : ∀ f ∈ l, IsWritten f.2) :
    Cuts (fieldChars l) (fieldTokens l) ∧
      ∀ level, Cuts (prettyFields level l) (fieldTokens l) := by
  induction l with
  | nil =>
    simp only [fieldChars, fieldTokens, prettyFields]
    exact ⟨.nil, fun _ => .nil⟩
  | cons f rest ih =>
    obtain ⟨name, j⟩ := f
    obtain ⟨hj, hrest⟩ := List.forall_mem_cons.1 h
    obtain ⟨hcompact, hpretty⟩ := ih hrest
    have hfield : Cuts (quote name ++ ':' :: chars j) (.text (.ok name) :: .colon :: tokensOf j) :=
      (Cuts.quote name).append (Cuts.colon.append hj.compact)
    have hline : ∀ level, Cuts (lineBreak level ++ quote name ++ ':' :: ' ' :: prettyChars level j)
        (.text (.ok name) :: .colon :: tokensOf j) := fun level =>
      ((Cuts.lineBreak level).append (Cuts.quote name)).append
        (Cuts.colon.append ((Cuts.gap (.inl rfl)).append (hj.pretty level)))
    cases rest with
    | nil =>
      simp only [fieldChars, fieldTokens, prettyFields]
      exact ⟨hfield, hline⟩
    | cons k rest =>
      simp only [fieldChars, fieldTokens, prettyFields]
      exact ⟨hfield.append (Cuts.comma.append hcompact), fun level =>
        (hline level).append (Cuts.comma.append (hpretty level))⟩

/-- Records are written of what is written. -/
theorem record {l : List (String × Json)} (h : ∀ f ∈ l, IsWritten f.2) : IsWritten (.record l) := by
  obtain ⟨hcompact, hpretty⟩ := fields h
  refine ⟨?_, fun level => ?_, _, _, rfl, rfl⟩
  · rw [chars, tokensOf]
    exact (Cuts.openRecord.append hcompact).append .closeRecord
  · cases l with
    | nil =>
      rw [prettyChars, tokensOf, fieldTokens]
      exact Cuts.openRecord.append .closeRecord
    | cons f rest =>
      rw [prettyChars, tokensOf, List.append_assoc]
      exact (Cuts.openRecord.append (hpretty _)).append
        ((Cuts.lineBreak level).append .closeRecord)

end IsWritten

end NestedLayout.Json
