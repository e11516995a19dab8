import Mathlib.Data.List.Basic
import Mathlib.Data.List.Infix

/-!
# Outlines of texts with blocks

A text in which some lines open a block with a brace and others close it has an outline: each of its
lines with the lines that opened the blocks around it, the innermost first. `Outline.read` finds it
with a stack of the blocks that are open.

* `linesOf_join`: the lines that a text was put together from.
* `balanced_of_read`: the braces of a text with an outline are balanced, when no line has two.
-/

set_option autoImplicit false

namespace NestedLayout.Outline

/-- A line with the lines of the blocks around it. -/
abbrev Entry := List String × String

/-- The lines of a text, each of which ends in a line break. -/
def linesOf (text : String) : List String :=
  ((text.toList.splitOn '\n').dropLast).map String.ofList

/-- The outline of lines inside the given blocks, unless the braces do not match. A line that closes
a block is not an entry of its own. -/
def read : List String → List String → Option (List Entry)
  | path, [] => if path.isEmpty then some [] else none
  | path, line :: rest =>
    if line.toList.contains '\x7b' then (read (line :: path) rest).map ((path, line) :: ·)
    else if line.toList.contains '\x7d' then
      if path.isEmpty then none else read path.tail rest
    else (read path rest).map ((path, line) :: ·)

/-- No block is closed before it is opened, and all are closed in the end. -/
structure Balanced (cs : List Char) : Prop where
  opened : ∀ p, p <+: cs → p.count '\x7d' ≤ p.count '\x7b'
  closed : cs.count '\x7d' = cs.count '\x7b'

instance (cs : List Char) : Decidable (Balanced cs) :=
  decidable_of_iff ((∀ p ∈ cs.inits, p.count '\x7d' ≤ p.count '\x7b') ∧
      cs.count '\x7d' = cs.count '\x7b')
    ⟨fun h => ⟨fun p hp => h.1 p ((List.mem_inits p cs).2 hp), h.2⟩,
      fun h => ⟨fun p hp => h.opened p ((List.mem_inits p cs).1 hp), h.closed⟩⟩

/-- The characters of lines, each with a line break after it. -/
def chars (lines : List String) : List Char := lines.flatMap fun l => l.toList ++ ['\n']

theorem toList_join (lines : List String) :
    (String.join (lines.map (· ++ "\n"))).toList = chars lines := by
  rw [String.toList_join, List.flatMap_map]
  exact List.flatMap_congr fun l _ => String.toList_append

theorem splitOn_chars {lines : List String} (h : ∀ l ∈ lines, '\n' ∉ l.toList) :
    (chars lines).splitOn '\n' = lines.map String.toList ++ [[]] := by
  induction lines with
  | nil => rfl
  | cons l lines ih =>
    obtain ⟨hl, hlines⟩ := List.forall_mem_cons.1 h
    have hplain : ∀ c ∈ l.toList, (c == '\n') = false := fun c hc => by
      simpa using fun he : c = '\n' => hl (he ▸ hc)
    have hsplit : chars (l :: lines) = l.toList ++ '\n' :: chars lines := by simp [chars]
    rw [hsplit, List.splitOn, List.splitOnP_append_cons_of_forall_mem hplain _ (by rfl)]
    exact congrArg _ (ih hlines)

/-- **A text has the lines** that it was put together from. -/
theorem linesOf_join {lines : List String} (h : ∀ l ∈ lines, '\n' ∉ l.toList) :
    linesOf (String.join (lines.map (· ++ "\n"))) = lines := by
  rw [linesOf, toList_join, splitOn_chars h, List.dropLast_concat, List.map_map]
  simp

/-! ## Braces -/

/-- Inside so many blocks, none but these is closed before it is opened, and all are closed. -/
structure ClosesFrom (d : Nat) (cs : List Char) : Prop where
  opened : ∀ p, p <+: cs → p.count '\x7d' ≤ d + p.count '\x7b'
  closed : cs.count '\x7d' = d + cs.count '\x7b'

/-- The blocks that a text leaves open are those that the next one closes. -/
theorem ClosesFrom.append {d d' : Nat} {cs rest : List Char} (h : ClosesFrom d' rest)
    (hcs : ∀ p, p <+: cs → p.count '\x7d' ≤ d + p.count '\x7b')
    (hd : d + cs.count '\x7b' = d' + cs.count '\x7d') : ClosesFrom d (cs ++ rest) where
  opened p hp := by
    rcases List.prefix_or_prefix_of_prefix hp (List.prefix_append cs rest) with hp' | ⟨q, rfl⟩
    · exact hcs p hp'
    · have hq := h.opened q ((List.prefix_append_right_inj cs).1 hp)
      rw [List.count_append, List.count_append]
      omega
  closed := by
    have := h.closed
    rw [List.count_append, List.count_append]
    omega

/-- A line with at most one brace opens or closes at most one block. -/
theorem ClosesFrom.line {d d' : Nat} {line : String} {lines : List String}
    (h : ClosesFrom d' (chars lines))
    (hone : line.toList.count '\x7b' + line.toList.count '\x7d' ≤ 1)
    (hd : d + line.toList.count '\x7b' = d' + line.toList.count '\x7d') :
    ClosesFrom d (chars (line :: lines)) := by
  -- the line break is no brace
  have hopen : (line.toList ++ ['\n']).count '\x7b' = line.toList.count '\x7b' := by simp
  have hclose : (line.toList ++ ['\n']).count '\x7d' = line.toList.count '\x7d' := by simp
  have hchars : chars (line :: lines) = (line.toList ++ ['\n']) ++ chars lines := rfl
  rw [hchars]
  refine h.append (fun p hp => ?_) ?_
  · have hprefix : p.count '\x7d' ≤ line.toList.count '\x7d' := hclose ▸ hp.sublist.count_le _
    omega
  · rw [hopen, hclose]
    exact hd

/-- **Lines with an outline** close the blocks around them. -/
theorem closesFrom_of_read {lines path : List String} {entries : List Entry}
    (h : ∀ l ∈ lines, l.toList.count '\x7b' + l.toList.count '\x7d' ≤ 1)
    (hr : read path lines = some entries) : ClosesFrom path.length (chars lines) := by
  -- as deep as the lines are read, so many blocks are open there
  induction lines generalizing path entries with
  | nil =>
    cases path with
    | nil => exact ⟨fun p hp => by rw [List.prefix_nil.1 hp]; exact Nat.le_refl _, rfl⟩
    | cons => simp [read] at hr
  | cons line rest ih =>
    obtain ⟨hline, hrest⟩ := List.forall_mem_cons.1 h
    unfold read at hr
    split at hr
    · rename_i hc
      obtain ⟨more, hmore, -⟩ := Option.map_eq_some_iff.1 hr
      have hone : 0 < line.toList.count '\x7b' := List.count_pos_iff.2 (by simpa using hc)
      refine (ih hrest hmore).line hline ?_
      rw [List.length_cons]
      omega
    · rename_i hc
      have hnone : line.toList.count '\x7b' = 0 :=
        List.count_eq_zero_of_not_mem (by simpa using hc)
      split at hr
      · rename_i hd
        have hone : 0 < line.toList.count '\x7d' := List.count_pos_iff.2 (by simpa using hd)
        cases path with
        | nil => simp at hr
        | cons block path =>
          refine ClosesFrom.line (ih hrest hr) hline ?_
          rw [List.length_cons, List.tail_cons]
          omega
      · rename_i hd
        have hnone' : line.toList.count '\x7d' = 0 :=
          List.count_eq_zero_of_not_mem (by simpa using hd)
        obtain ⟨more, hmore, -⟩ := Option.map_eq_some_iff.1 hr
        refine (ih hrest hmore).line hline ?_
        omega

theorem balanced_of_read {lines : List String} {entries : List Entry}
    (h : ∀ l ∈ lines, l.toList.count '\x7b' + l.toList.count '\x7d' ≤ 1)
    (hr : read [] lines = some entries) : Balanced (chars lines) := by
  have hc := closesFrom_of_read h hr
  exact ⟨fun p hp => by simpa using hc.opened p hp, by simpa using hc.closed⟩

/-! ## Reading on -/

section
variable {path lines rest : List String} {line : String}

theorem read_open (h : '\x7b' ∈ line.toList) :
    read path (line :: rest) = (read (line :: path) rest).map ((path, line) :: ·) := by
  rw [read, if_pos (by simpa using h)]

theorem read_close {block : String} (hopen : '\x7b' ∉ line.toList) (hclose : '\x7d' ∈ line.toList) :
    read (block :: path) (line :: rest) = read path rest := by
  rw [read, if_neg (by simpa using hopen), if_pos (by simpa using hclose)]
  rfl

/-- Lines without braces are entries of the block around them. -/
theorem read_plain (h : ∀ l ∈ lines, '\x7b' ∉ l.toList ∧ '\x7d' ∉ l.toList) :
    read path (lines ++ rest) = (read path rest).map (lines.map (path, ·) ++ ·) := by
  induction lines with
  | nil => simp
  | cons line lines ih =>
    obtain ⟨⟨hopen, hclose⟩, hlines⟩ := List.forall_mem_cons.1 h
    rw [List.cons_append, read, if_neg (by simpa using hopen), if_neg (by simpa using hclose),
      ih hlines, Option.map_map]
    rfl

end

end NestedLayout.Outline
