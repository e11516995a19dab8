import NestedLayout.Proofs.Fold
import NestedLayout.Proofs.Sizing.Dot.Outline
import NestedLayout.Proofs.Sizing.Dot.Reading
import NestedLayout.Proofs.Table

/-!
# Boxes and blocks

A cluster of the tool's answer is a block in braces, and its box should be one that stands in the
block. The reader does not look for the brace that closes the block: it takes the first box before
the next `subgraph`.

* `Source`: where the box of a cluster then stems from. It is the first one of the cluster's own
  block when that has one; a block with neither a box nor a `subgraph` takes one from behind it.
* `ofText_clustersRead`: which texts can be read, which clusters are found in them, and that each
  box has such a source.
* `stray_box_not_own`: a block without a box that is given the one of the graph around it.
-/

set_option autoImplicit false

namespace NestedLayout.DotAnswer

variable {c : Char} {s t u v body own behind own' behind' : List Char}
variable {box : Rect Float32} {index : Nat} {text : String}

/-! ## Boxes in a text -/

/-- Some attribute in the text is a bounding box. -/
def HasBox (t : List Char) : Prop := ∃ rest numbers, rest <:+ t ∧ boundingBox? rest = some numbers

/-- Four finite numbers, as they are written. -/
structure Reads (numbers : List (List Char)) (box : Rect Float32) : Prop where
  values : numbers.map Decimal.single? =
    [some box.left, some box.top, some box.right, some box.bottom]
  finite : box.left.isFinite = true ∧ box.top.isFinite = true ∧ box.right.isFinite = true ∧
    box.bottom.isFinite = true

/-- The first bounding box in the text is made of four finite numbers, those of this box. -/
def FirstBox (t : List Char) (box : Rect Float32) : Prop :=
  ∃ skipped rest numbers, t = skipped ++ rest ∧ boundingBox? rest = some numbers ∧
    (∀ p q, skipped = p ++ q → q ≠ [] → boundingBox? (q ++ rest) = none) ∧ Reads numbers box

theorem hasBox_iff : HasBox t ↔ firstMatch? boundingBox? t ≠ none := by
  rw [ne_eq, firstMatch?_eq_none_iff]
  constructor
  · rintro ⟨rest, numbers, hrest, hread⟩ hnone
    rw [hnone rest hrest] at hread
    cases hread
  · intro h
    obtain ⟨rest, h⟩ := not_forall.1 h
    obtain ⟨hrest, hread⟩ := Classical.not_imp.1 h
    obtain ⟨numbers, hread⟩ := Option.ne_none_iff_exists'.1 hread
    exact ⟨rest, numbers, hrest, hread⟩

instance : Decidable (HasBox t) := decidable_of_iff _ hasBox_iff.symm

theorem firstBox_iff :
    FirstBox t box ↔ ∃ numbers, firstMatch? boundingBox? t = some numbers ∧ Reads numbers box := by
  constructor
  · rintro ⟨skipped, rest, numbers, ht, hread, hfirst, hbox⟩
    exact ⟨numbers, firstMatch?_eq_some_iff.2 ⟨skipped, rest, ht, hread, hfirst⟩, hbox⟩
  · rintro ⟨numbers, h, hbox⟩
    obtain ⟨skipped, rest, ht, hread, hfirst⟩ := firstMatch?_eq_some_iff.1 h
    exact ⟨skipped, rest, numbers, ht, hread, hfirst, hbox⟩

theorem firstMatch?_boundingBox_append (hc : isForeign c = true) (u v : List Char) :
    firstMatch? boundingBox? (u ++ c :: v) =
      (firstMatch? boundingBox? u).or (firstMatch? boundingBox? v) :=
  firstMatch?_append rfl (boundingBox?_append hc) u v

/-- A box before a character that has no place in it stays the first one, whatever follows. -/
theorem FirstBox.append (hc : isForeign c = true) (h : FirstBox u box) (v : List Char) :
    FirstBox (u ++ c :: v) box := by
  obtain ⟨numbers, h, hbox⟩ := firstBox_iff.1 h
  refine firstBox_iff.2 ⟨numbers, ?_, hbox⟩
  rw [firstMatch?_boundingBox_append hc, h, Option.some_or]

/-- **The first box on either side** of a character that has no place in it. -/
theorem FirstBox.of_append (hc : isForeign c = true) (h : FirstBox (u ++ c :: v) box) :
    FirstBox u box ∨ ¬ HasBox u ∧ FirstBox v box := by
  obtain ⟨numbers, h, hbox⟩ := firstBox_iff.1 h
  rw [firstMatch?_boundingBox_append hc] at h
  cases hu : firstMatch? boundingBox? u with
  | some numbers' =>
    rw [hu] at h
    cases h
    exact .inl (firstBox_iff.2 ⟨numbers, hu, hbox⟩)
  | none =>
    rw [hu] at h
    exact .inr ⟨fun hhas => hasBox_iff.1 hhas hu, firstBox_iff.2 ⟨numbers, h, hbox⟩⟩

/-- The first box before a `subgraph` is the first one. -/
theorem FirstBox.of_before (h : FirstBox (before "subgraph".toList t) box) : FirstBox t box := by
  rcases before_eq "subgraph".toList t with ht | ⟨more, ht⟩
  · exact ht ▸ h
  · rw [ht, List.append_assoc]
    exact h.append (by decide) _

/-! ## Blocks -/

/-- What follows an opening brace, cut at the brace that closes the block: what stands in the block,
and what is behind it. Every brace counts, so these are the blocks of the graph unless a quoted
string holds a brace. -/
structure Block (body own behind : List Char) : Prop where
  split : body = own ++ '\x7d' :: behind
  balanced : Outline.Balanced own

/-- A block does not go on behind the brace that closes it. -/
theorem Block.eq_of_prefix (h : Block body own behind) (h' : Block body own' behind')
    (hp : own <+: own') : own = own' := by
  obtain ⟨more, rfl⟩ := hp
  have hbody : own ++ '\x7d' :: behind = own ++ (more ++ '\x7d' :: behind') := by
    rw [← h.split, h'.split, List.append_assoc]
  have hsplit := List.append_cancel_left hbody
  cases more with
  | nil => rw [List.append_nil]
  | cons c more =>
    obtain ⟨rfl, -⟩ := List.cons.inj hsplit
    -- with this brace the longer block closes more than it opens
    have hopened := h'.balanced.opened (own ++ ['\x7d']) ⟨more, by simp⟩
    have hclosed := h.balanced.closed
    have hclosing : (own ++ ['\x7d']).count '\x7d' = own.count '\x7d' + 1 := by simp
    have hopening : (own ++ ['\x7d']).count '\x7b' = own.count '\x7b' := by simp
    omega

/-- **A block is closed by one brace.** -/
theorem Block.unique (h : Block body own behind) (h' : Block body own' behind') : own = own' := by
  have hown : own <+: body := ⟨_, h.split.symm⟩
  have hown' : own' <+: body := ⟨_, h'.split.symm⟩
  rcases List.prefix_or_prefix_of_prefix hown hown' with hp | hp
  · exact h.eq_of_prefix h' hp
  · exact (h'.eq_of_prefix h hp).symm

/-! ## Clusters -/

/-- A cluster with this number stands in the text, and this is what follows its opening brace. -/
def ClusterAt (s : List Char) (index : Nat) (body : List Char) : Prop :=
  ∃ rest digits, rest <:+ s ∧ Opening rest digits body ∧ indexValue? digits = some index

theorem clusterAt_iff :
    ClusterAt s index body ↔
      ∃ start ∈ clusterStarts s, indexValue? start.1 = some index ∧ start.2 = body := by
  constructor
  · rintro ⟨rest, digits, hrest, hopening, hindex⟩
    exact ⟨(digits, body), mem_clusterStarts_iff.2 ⟨rest, hrest, hopening⟩, hindex, rfl⟩
  · rintro ⟨⟨digits, body⟩, hmem, hindex, rfl⟩
    obtain ⟨rest, hrest, hopening⟩ := mem_clusterStarts_iff.1 hmem
    exact ⟨rest, digits, hrest, hopening, hindex⟩

/-- Where the box of a cluster stems from, given what follows its opening brace. -/
inductive Source (body : List Char) (box : Rect Float32) : Prop
  /-- It is the first one of the cluster's own block. -/
  | own {own behind : List Char} : Block body own behind → FirstBox own box → Source body box
  /-- It is the first one behind the block, before any `subgraph`. The block has no box, and no
  `subgraph` in it. -/
  | behind {own behind : List Char} : Block body own behind → ¬ HasBox own →
      ¬ "subgraph".toList <:+: own → FirstBox (before "subgraph".toList behind) box →
      Source body box
  /-- It is the first one of a block that is never closed. -/
  | unclosed : (∀ own behind, ¬ Block body own behind) → FirstBox body box → Source body box

/-- **The first box before the next `subgraph`** has a source. -/
theorem source_of_firstBox (h : FirstBox (before "subgraph".toList body) box) :
    Source body box := by
  by_cases hclosed : ∃ own behind, Block body own behind
  · obtain ⟨own, behind, hblock⟩ := hclosed
    rw [hblock.split, before_append (by decide) (by decide)] at h
    split at h
    · exact .own hblock h.of_before
    · rename_i hsubgraph
      rcases h.of_append (by decide) with hown | ⟨hnone, hbehind⟩
      · exact .own hblock hown
      · exact .behind hblock hnone hsubgraph hbehind
  · exact .unclosed (fun own behind hblock => hclosed ⟨own, behind, hblock⟩) h.of_before

/-- **A block with a box or a `subgraph` in it** has its own box. -/
theorem Source.own_box (h : Source body box) (hblock : Block body own behind)
    (hown : HasBox own ∨ "subgraph".toList <:+: own) : FirstBox own box := by
  cases h with
  | own hblock' hfirst => exact hblock.unique hblock' ▸ hfirst
  | behind hblock' hnone hsubgraph _ =>
    rw [hblock.unique hblock'] at hown
    exact absurd hown (not_or.2 ⟨hnone, hsubgraph⟩)
  | unclosed hopen _ => exact absurd hblock (hopen own behind)

/-! ## Reading a cluster -/

theorem Reads.box_eq {numbers : List (List Char)} {left top right bottom : Float32}
    (h : Reads numbers box)
    (hvalues : numbers.map Decimal.single? = [some left, some top, some right, some bottom]) :
    box = ⟨left, top, right, bottom⟩ := by
  have hv := hvalues.symm.trans h.values
  simp only [List.cons.injEq, Option.some.injEq, and_true] at hv
  obtain ⟨rfl, rfl, rfl, rfl⟩ := hv
  rfl

/-- **A cluster's box** is read exactly when there is one before the next `subgraph`. -/
theorem clusterBox_eq_ok_iff :
    clusterBox index body = .ok box ↔ FirstBox (before "subgraph".toList body) box := by
  rw [firstBox_iff, clusterBox]
  cases firstMatch? boundingBox? (before "subgraph".toList body) with
  | none => exact iff_of_false (fun h => nomatch h) fun ⟨_, h, _⟩ => nomatch h
  | some numbers =>
    have hreads : (∃ numbers', some numbers = some numbers' ∧ Reads numbers' box) ↔
        Reads numbers box := by
      simp
    rw [hreads]
    dsimp only
    split
    · rename_i left top right bottom hvalues
      split
      · rename_i hfinite
        refine ⟨fun h => ?_, fun h => congrArg _ (h.box_eq hvalues).symm⟩
        cases h
        exact ⟨hvalues, by simpa only [Bool.and_eq_true, and_assoc] using hfinite⟩
      · rename_i hinfinite
        refine iff_of_false (fun h => nomatch h) fun h => hinfinite ?_
        cases h.box_eq hvalues
        simpa only [Bool.and_eq_true, and_assoc] using h.finite
    · rename_i hvalues
      exact iff_of_false (fun h => nomatch h) fun h => hvalues _ _ _ _ h.values

/-- The complaint about a cluster tells whether it has a box at all. -/
theorem clusterBox_eq_error {e : ToolError} (h : clusterBox index body = .error e) :
    e = .unparseable ("cluster_" ++ toString index ++
      if HasBox (before "subgraph".toList body) then " has a malformed bounding box"
      else " has no bounding box") := by
  simp only [hasBox_iff]
  rw [clusterBox] at h
  cases hfirst : firstMatch? boundingBox? (before "subgraph".toList body) with
  | none =>
    rw [hfirst] at h
    cases h
    rfl
  | some numbers =>
    rw [hfirst] at h
    dsimp only at h
    split at h
    · split at h
      · cases h
      · cases h
        simp
    · cases h
      simp

theorem addCluster_eq_ok_iff {found found' : Table Nat (Rect Float32)}
    {start : List Char × List Char} :
    addCluster found start = .ok found' ↔
      indexValue? start.1 = none ∧ found = found' ∨
        ∃ index box, indexValue? start.1 = some index ∧
          FirstBox (before "subgraph".toList start.2) box ∧ found.insert index box = found' := by
  rw [addCluster]
  cases indexValue? start.1 with
  | none => simp
  | some index =>
    dsimp only
    cases hbox : clusterBox index start.2 with
    | error e =>
      refine iff_of_false (fun h => nomatch h) ?_
      rintro (⟨h, -⟩ | ⟨_, box, -, hfirst, -⟩)
      · cases h
      · rw [clusterBox_eq_ok_iff.2 hfirst] at hbox
        cases hbox
    | ok box =>
      constructor
      · intro h
        cases h
        exact .inr ⟨index, box, rfl, clusterBox_eq_ok_iff.1 hbox, rfl⟩
      · rintro (⟨h, -⟩ | ⟨_, box', h, hfirst, rfl⟩)
        · cases h
        · cases h
          rw [clusterBox_eq_ok_iff.2 hfirst] at hbox
          cases hbox
          rfl

/-! ## Reading a text -/

/-- The boxes that were found at the starts of clusters up to some place. -/
structure Found (done : List (List Char × List Char)) (found : Table Nat (Rect Float32)) :
    Prop where
  listed : ∀ index, found.contains index = true ↔ ∃ start ∈ done, indexValue? start.1 = some index
  last : ∀ index box, found.get? index = some box → ∃ earlier start later,
    done = earlier ++ start :: later ∧ indexValue? start.1 = some index ∧
      (∀ next ∈ later, indexValue? next.1 ≠ some index) ∧
      FirstBox (before "subgraph".toList start.2) box

theorem Found.pass {done : List (List Char × List Char)} {found : Table Nat (Rect Float32)}
    {start : List Char × List Char} (h : Found done found) (hnone : indexValue? start.1 = none) :
    Found (done ++ [start]) found where
  listed index := by simp [h.listed, hnone, or_and_right, exists_or]
  last index box hbox := by
    obtain ⟨earlier, start', later, rfl, hindex, hlater, hfirst⟩ := h.last index box hbox
    refine ⟨earlier, start', later ++ [start], by simp, hindex, fun next hnext => ?_, hfirst⟩
    rcases List.mem_append.1 hnext with hnext | hnext
    · exact hlater next hnext
    · rw [List.mem_singleton.1 hnext, hnone]
      simp

theorem Found.insert {done : List (List Char × List Char)} {found : Table Nat (Rect Float32)}
    {start : List Char × List Char} (h : Found done found)
    (hindex : indexValue? start.1 = some index)
    (hfirst : FirstBox (before "subgraph".toList start.2) box) :
    Found (done ++ [start]) (found.insert index box) where
  listed other := by
    rw [Table.contains_insert_iff, h.listed]
    simp [hindex, or_and_right, exists_or, or_comm, eq_comm]
  last other box' hbox := by
    rw [Table.get?_insert_eq] at hbox
    split at hbox
    · rename_i he
      cases hbox
      exact ⟨done, start, [], rfl, he ▸ hindex, by simp, hfirst⟩
    · rename_i hne
      obtain ⟨earlier, start', later, rfl, hindex', hlater, hfirst'⟩ := h.last other box' hbox
      refine ⟨earlier, start', later ++ [start], by simp, hindex', fun next hnext => ?_, hfirst'⟩
      rcases List.mem_append.1 hnext with hnext | hnext
      · exact hlater next hnext
      · rw [List.mem_singleton.1 hnext, hindex]
        simpa using Ne.symm hne

theorem found_of_foldlM {starts : List (List Char × List Char)} {found : Table Nat (Rect Float32)}
    (h : starts.foldlM addCluster .empty = .ok found) : Found starts found := by
  refine Fold.keepsM Found ⟨fun index => ?_, fun index box hbox => ?_⟩ ?_ h
  · simp [Table.contains]
  · simp at hbox
  · intro done start rest found found' _ hfound hstep
    rcases addCluster_eq_ok_iff.1 hstep with ⟨hnone, rfl⟩ | ⟨index, box, hindex, hfirst, rfl⟩
    · exact hfound.pass hnone
    · exact hfound.insert hindex hfirst

theorem ofText_eq (text : String) :
    ofText text = ((clusterStarts text.toList).foldlM addCluster .empty).map fun clusters =>
      ⟨clusters, (nodeLinesWithin text.toList.length true text.toList).foldl addNode .empty⟩ := by
  rw [ofText, clusterStartsWithin_eq (Nat.le_refl _)]
  cases (clusterStarts text.toList).foldlM addCluster .empty <;> rfl

/-- How the clusters of an answer are read from its text. -/
structure ClustersRead (text : String) : Prop where
  /-- The text is read exactly when each of its clusters has a proper box before the next
  `subgraph`. -/
  readable : (∃ answer, ofText text = .ok answer) ↔
    ∀ index body, ClusterAt text.toList index body →
      ∃ box, FirstBox (before "subgraph".toList body) box
  /-- Otherwise it is unparseable, and the complaint is about a cluster that has none. -/
  complaint : ∀ e, ofText text = .error e → ∃ index body, ClusterAt text.toList index body ∧
    (¬ ∃ box, FirstBox (before "subgraph".toList body) box) ∧
    e = .unparseable ("cluster_" ++ toString index ++
      if HasBox (before "subgraph".toList body) then " has a malformed bounding box"
      else " has no bounding box")
  /-- The answer has boxes for the clusters of the text. -/
  listed : ∀ answer, ofText text = .ok answer → ∀ index,
    answer.clusters.contains index = true ↔ ∃ body, ClusterAt text.toList index body
  /-- The box of a number stems from the last cluster with that number. -/
  source : ∀ answer, ofText text = .ok answer → ∀ index box,
    answer.clusters.get? index = some box → ∃ body, ClusterAt text.toList index body ∧
      (∀ body', ¬ ClusterAt body index body') ∧ Source body box
  /-- All boxes are those of their own blocks when each block is closed and has a box, or a
  `subgraph`, in it. -/
  ownBoxes : ∀ answer, ofText text = .ok answer →
    (∀ index body, ClusterAt text.toList index body → ∃ own behind, Block body own behind ∧
      (HasBox own ∨ "subgraph".toList <:+: own)) →
    ∀ index box, answer.clusters.get? index = some box → ∃ body own behind,
      ClusterAt text.toList index body ∧ Block body own behind ∧ FirstBox own box

theorem ofText_readable :
    (∃ answer, ofText text = .ok answer) ↔
      ∀ index body, ClusterAt text.toList index body →
        ∃ box, FirstBox (before "subgraph".toList body) box := by
  have hclusters : (∃ answer, ofText text = .ok answer) ↔
      ∃ found, (clusterStarts text.toList).foldlM addCluster .empty = .ok found := by
    rw [ofText_eq]
    cases (clusterStarts text.toList).foldlM addCluster .empty with
    | error e => exact iff_of_false (fun ⟨_, h⟩ => nomatch h) fun ⟨_, h⟩ => nomatch h
    | ok found => exact iff_of_true ⟨_, rfl⟩ ⟨found, rfl⟩
  have hstep : ∀ start ∈ clusterStarts text.toList, ∀ found,
      (∃ found', addCluster found start = .ok found') ↔
        ∀ index, indexValue? start.1 = some index →
          ∃ box, FirstBox (before "subgraph".toList start.2) box := by
    intro start _ found
    simp only [addCluster_eq_ok_iff]
    cases indexValue? start.1 with
    | none => simp
    | some index => simp
  rw [hclusters, Fold.ok_iff hstep]
  simp only [clusterAt_iff]
  constructor
  · rintro h index body ⟨start, hstart, hindex, rfl⟩
    exact h start hstart index hindex
  · exact fun h start hstart index hindex => h index start.2 ⟨start, hstart, hindex, rfl⟩

theorem ofText_complaint {e : ToolError} (h : ofText text = .error e) :
    ∃ index body, ClusterAt text.toList index body ∧
      (¬ ∃ box, FirstBox (before "subgraph".toList body) box) ∧
      e = .unparseable ("cluster_" ++ toString index ++
        if HasBox (before "subgraph".toList body) then " has a malformed bounding box"
        else " has no bounding box") := by
  rw [ofText_eq] at h
  cases hfold : (clusterStarts text.toList).foldlM addCluster .empty with
  | ok found => rw [hfold] at h; cases h
  | error e' =>
    rw [hfold] at h
    cases h
    -- the walk stops at a start with a number
    obtain ⟨done, start, rest, found, hstarts, -, hstop⟩ :=
      Fold.failsM (fun _ _ => True) trivial (fun _ _ _ _ _ _ _ _ => trivial) hfold
    rw [addCluster] at hstop
    cases hindex : indexValue? start.1 with
    | none => rw [hindex] at hstop; cases hstop
    | some index =>
      rw [hindex] at hstop
      dsimp only at hstop
      cases hbox : clusterBox index start.2 with
      | ok box => rw [hbox] at hstop; cases hstop
      | error e'' =>
        rw [hbox] at hstop
        cases hstop
        refine ⟨index, start.2, clusterAt_iff.2 ⟨start, by simp [hstarts], hindex, rfl⟩, ?_,
          clusterBox_eq_error hbox⟩
        rintro ⟨box, hfirst⟩
        rw [clusterBox_eq_ok_iff.2 hfirst] at hbox
        cases hbox

theorem found_of_ofText {answer : DotAnswer Float32} (h : ofText text = .ok answer) :
    Found (clusterStarts text.toList) answer.clusters := by
  rw [ofText_eq] at h
  cases hfold : (clusterStarts text.toList).foldlM addCluster .empty with
  | error e => rw [hfold] at h; cases h
  | ok found =>
    rw [hfold] at h
    cases h
    exact found_of_foldlM hfold

section
variable {answer : DotAnswer Float32} (h : ofText text = .ok answer)
include h

theorem ofText_listed (index : Nat) :
    answer.clusters.contains index = true ↔ ∃ body, ClusterAt text.toList index body := by
  rw [(found_of_ofText h).listed]
  simp only [clusterAt_iff]
  exact ⟨fun ⟨start, hstart, hindex⟩ => ⟨start.2, start, hstart, hindex, rfl⟩,
    fun ⟨_, start, hstart, hindex, _⟩ => ⟨start, hstart, hindex⟩⟩

/-- **A box that was read** stems from the last cluster with its number. -/
theorem ofText_source (hbox : answer.clusters.get? index = some box) :
    ∃ body, ClusterAt text.toList index body ∧ (∀ body', ¬ ClusterAt body index body') ∧
      Source body box := by
  obtain ⟨earlier, start, later, hstarts, hindex, hlater, hfirst⟩ :=
    (found_of_ofText h).last index box hbox
  refine ⟨start.2, clusterAt_iff.2 ⟨start, by simp [hstarts], hindex, rfl⟩, fun body' hbody => ?_,
    source_of_firstBox hfirst⟩
  obtain ⟨next, hnext, hnext', -⟩ := clusterAt_iff.1 hbody
  rw [← clusterStarts_after hstarts] at hnext
  exact hlater next hnext hnext'

end

/-- **The clusters of an answer**: which texts can be read, which boxes they have, and where each
of these stems from. -/
theorem ofText_clustersRead (text : String) : ClustersRead text where
  readable := ofText_readable
  complaint _ h := ofText_complaint h
  listed _ h index := ofText_listed h index
  source _ h _ _ hbox := ofText_source h hbox
  ownBoxes answer h hown index box hbox := by
    obtain ⟨body, hcluster, -, hsource⟩ := ofText_source h hbox
    obtain ⟨own, behind, hblock, hhas⟩ := hown index body hcluster
    exact ⟨body, own, behind, hcluster, hblock, hsource.own_box hblock hhas⟩

/-- Two clusters, of which one stands in the other, each with a box of its own. -/
def nestedText : String :=
  "digraph \x7b subgraph cluster_0 \x7b bb=\"0,0,30,20\"; " ++
    "subgraph cluster_1 \x7b bb=\"3,7,11,12\"; \x7d \x7d \x7d"

theorem nested_clustersRead : ∃ answer, ofText nestedText = .ok answer ∧
    answer.clusters.get? 1 = some ⟨3, 7, 11, 12⟩ ∧
    ∃ body, ClusterAt nestedText.toList 1 body ∧ (∀ body', ¬ ClusterAt body 1 body') ∧
      Source body ⟨3, 7, 11, 12⟩ :=
  ⟨_, rfl, rfl, (ofText_clustersRead nestedText).source _ rfl 1 _ rfl⟩

/-! ## A box from behind a block -/

/-- Whether a quoted string of the text holds a brace; the first argument tells whether the text
starts inside one. -/
def quotesBrace : Bool → List Char → Bool
  | _, [] => false
  | true, '\\' :: c :: rest => c == '\x7b' || c == '\x7d' || quotesBrace true rest
  | quoted, c :: rest =>
    if c = '"' then quotesBrace (!quoted) rest
    else quoted && (c == '\x7b' || c == '\x7d') || quotesBrace quoted rest

/-- A graph whose own box follows the block of a cluster without one. -/
def strayText : String :=
  "digraph \x7b subgraph cluster_0 \x7b n0; \x7d graph [bb=\"0,0,10,10\"]; \x7d"

theorem stray_box_not_own :
    quotesBrace false strayText.toList = false ∧
      (∃ answer box, ofText strayText = .ok answer ∧ answer.clusters.get? 0 = some box) ∧
      ∀ body own behind, ClusterAt strayText.toList 0 body → Block body own behind →
        ¬ HasBox own := by
  refine ⟨by decide, ⟨_, _, rfl, rfl⟩, fun body own behind hcluster hblock => ?_⟩
  have hstarts : clusterStarts strayText.toList =
      [("0".toList, " n0; \x7d graph [bb=\"0,0,10,10\"]; \x7d".toList)] := by rfl
  obtain ⟨start, hstart, -, rfl⟩ := clusterAt_iff.1 hcluster
  rw [hstarts, List.mem_singleton] at hstart
  subst hstart
  have hown : Block _ " n0; ".toList " graph [bb=\"0,0,10,10\"]; \x7d".toList :=
    ⟨rfl, by decide⟩
  rw [hblock.unique hown]
  decide

end NestedLayout.DotAnswer
