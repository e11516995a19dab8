import NestedLayout.Proofs.Space.Search

/-!
# Candidates stand for all admissible places

Along one axis the search collects places, drops those too far past an edge, pulls the others
between the edges, sorts them and thins them. In exact arithmetic the candidates that are left stand
for all that was let through:

* `AdmissiblePlace`: what the filter lets through: a seed, an edge or a slot beside a zone that is
  hardly past an edge.
* `AdmissiblePlace.exists_candidate`: next to every admissible place, once it is pulled between the
  edges, there is a candidate, however many places stand close together.
* `exists_admissiblePlace`: and every candidate is an admissible place.
* `axisCandidates_represent` puts this together with the order of the candidates.

Nothing here asks for a size or a gap that is not negative, or for zones with their ends in order.
-/

set_option autoImplicit false

namespace NestedLayout

open Scalar (epsilon)

/-- A place along an axis that passes the filter: a seed or a flush place, past an edge by no more
than the tolerance or a quarter of the gap, whichever is more. -/
structure AdmissiblePlace (span : Span ℝ) (size gap : ℝ) (seeds : List ℝ) (zones : List (Span ℝ))
    (p : ℝ) : Prop where
  origin : p ∈ seeds ∨ FlushPlace span size gap zones p
  low : span.low + size / 2 - max epsilon (gap / 4) ≤ p
  high : p ≤ span.high - size / 2 + max epsilon (gap / 4)

variable {span : Span ℝ} {size gap p : ℝ} {seeds : List ℝ} {zones : List (Span ℝ)}

/-- The places of an axis are the seeds and the flush places. -/
theorem mem_axisPlaces_iff : p ∈ axisPlaces span (size / 2) gap seeds zones ↔
    p ∈ seeds ∨ FlushPlace span size gap zones p := by
  constructor
  · intro hp
    simp only [axisPlaces, List.append_assoc, List.mem_append, List.mem_flatMap, List.mem_cons,
      List.not_mem_nil, or_false] at hp
    rcases hp with hseed | (rfl | rfl) | ⟨z, hz, rfl | rfl⟩
    · exact .inl hseed
    · exact .inr .low
    · exact .inr .high
    · exact .inr (.after hz)
    · exact .inr (.before hz)
  · rintro (hseed | hflush)
    · exact List.mem_append_left _ (List.mem_append_left _ hseed)
    · exact hflush.mem_axisPlaces seeds

/-- What starts out between the edges is admissible. -/
theorem AdmissiblePlace.of_between (origin : p ∈ seeds ∨ FlushPlace span size gap zones p)
    (hlow : span.low + size / 2 ≤ p) (hhigh : p ≤ span.high - size / 2) :
    AdmissiblePlace span size gap seeds zones p := by
  have hslack : 0 < max epsilon (gap / 4) := lt_max_of_lt_left Scalar.epsilon_pos
  exact ⟨origin, by linarith, by linarith⟩

section
variable (hfit : size ≤ span.high - span.low)
include hfit

/-- **An admissible place has a candidate next to it**, once it is pulled between the edges: itself,
or the last value that thinning kept below it. -/
theorem AdmissiblePlace.exists_candidate (hp : AdmissiblePlace span size gap seeds zones p) :
    ∃ c ∈ axisCandidates span size gap seeds zones,
      |c - pulledTo span (size / 2) p| ≤ epsilon := by
  obtain ⟨c, hc, hnear, hle⟩ :=
    exists_candidate_below hfit (mem_axisPlaces_iff.2 hp.origin) hp.low hp.high
  refine ⟨c, hc, ?_⟩
  rw [abs_sub_comm, abs_of_nonneg (sub_nonneg.2 hle)]
  linarith

/-- **Every candidate is an admissible place**, pulled between the edges. -/
theorem exists_admissiblePlace {c : ℝ} (hc : c ∈ axisCandidates span size gap seeds zones) :
    ∃ p, AdmissiblePlace span size gap seeds zones p ∧ pulledTo span (size / 2) p = c := by
  obtain ⟨p, hp, ⟨hlow, hhigh⟩, hpull⟩ := exists_axisPlace hfit hc
  exact ⟨p, ⟨mem_axisPlaces_iff.1 hp, hlow, hhigh⟩, hpull⟩

variable (gap seeds zones) in
/-- **Candidates represent every admissible place.** For an extent that fits there is a candidate;
candidates increase, by more than the tolerance from each to the next, and lie between the edges.
Within the tolerance of both edges there is a candidate, and so there is of every admissible seed
and slot beside a zone, once that is pulled between the edges. There are no candidates but such
places. -/
theorem axisCandidates_represent :
    let candidates := axisCandidates span size gap seeds zones
    candidates ≠ [] ∧ candidates.Pairwise (· < ·) ∧
    (candidates.IsChain fun a b => epsilon < b - a) ∧
    (∀ c ∈ candidates, span.low + size / 2 ≤ c ∧ c ≤ span.high - size / 2) ∧
    (∃ c ∈ candidates, |c - (span.low + size / 2)| ≤ epsilon) ∧
    (∃ c ∈ candidates, |c - (span.high - size / 2)| ≤ epsilon) ∧
    (∀ p, AdmissiblePlace span size gap seeds zones p →
      ∃ c ∈ candidates, |c - pulledTo span (size / 2) p| ≤ epsilon) ∧
    ∀ c ∈ candidates, ∃ p, AdmissiblePlace span size gap seeds zones p ∧
      pulledTo span (size / 2) p = c := by
  intro candidates
  have hedges : span.low + size / 2 ≤ span.high - size / 2 := by linarith
  have htried := axisCandidates_tried hfit gap seeds zones
  have hedge : ∀ p, FlushPlace span size gap zones p → span.low + size / 2 ≤ p →
      p ≤ span.high - size / 2 → ∃ c ∈ candidates, |c - p| ≤ epsilon := by
    intro p hp hlow hhigh
    have hadmissible : AdmissiblePlace span size gap seeds zones p :=
      .of_between (.inr hp) hlow hhigh
    have hnear := hadmissible.exists_candidate hfit
    rwa [pulledTo_of_between hlow hhigh] at hnear
  refine ⟨List.ne_nil_of_mem (htried.low_mem hfit), htried.increasing, ?_, htried.within,
    hedge _ .low le_rfl hedges, hedge _ .high hedges le_rfl, fun p hp => hp.exists_candidate hfit,
    fun c hc => exists_admissiblePlace hfit hc⟩
  exact (htried.spaced.imp fun {a b} hab => by linarith).isChain

end

/-- Candidates in a span of ten for an extent of two, four away from a zone in the middle. Each of
the seeds is within the tolerance of the next one, but the last is not within that of the first. -/
noncomputable def crowdedCandidates : List ℝ :=
  axisCandidates ⟨0, 10⟩ 2 4 [5, 5 + epsilon * (4 / 5), 5 + epsilon * (5 / 4)] [⟨2, 5⟩]

/-- The seed in the middle has a candidate next to it. The slot past the zone is just admissible,
and has one next to the far edge, to which it is pulled. -/
theorem crowdedCandidates_represent : (2 : ℝ) ≤ 10 - 0 ∧ crowdedCandidates ≠ [] ∧
    (∀ c ∈ crowdedCandidates, 1 ≤ c ∧ c ≤ 9) ∧
    (∃ c ∈ crowdedCandidates, |c - (5 + epsilon * (4 / 5))| ≤ epsilon) ∧
    ∃ c ∈ crowdedCandidates, |c - 9| ≤ epsilon := by
  have hfit : (2 : ℝ) ≤ (⟨0, 10⟩ : Span ℝ).high - (⟨0, 10⟩ : Span ℝ).low := by norm_num
  have heps : (epsilon : ℝ) ≤ 1 := by norm_num [epsilon]
  have hpos := Scalar.epsilon_pos
  have hslack : max epsilon ((4 : ℝ) / 4) = 1 := by rw [max_eq_right] <;> linarith
  obtain ⟨hne, -, -, hbetween, -, -, hnear, -⟩ := axisCandidates_represent 4
    [5, 5 + epsilon * (4 / 5), 5 + epsilon * (5 / 4)] [⟨2, 5⟩] hfit
  refine ⟨hfit, hne, fun c hc => ?_, ?_, ?_⟩
  · have h := hbetween c hc
    norm_num at h
    exact h
  · have hlow : (0 : ℝ) + 2 / 2 ≤ 5 + epsilon * (4 / 5) := by linarith
    have hhigh : (5 : ℝ) + epsilon * (4 / 5) ≤ 10 - 2 / 2 := by linarith
    have h := hnear _ (.of_between (.inl (.tail _ (.head _))) hlow hhigh)
    rwa [pulledTo_of_between hlow hhigh] at h
  · have hslot : pulledTo ⟨0, 10⟩ (2 / 2) (5 + 4 + 2 / 2) = 9 := by norm_num [pulledTo]
    have h := hnear _ ⟨.inr (.after (.head _)), by rw [hslack]; norm_num, by rw [hslack]; norm_num⟩
    rwa [hslot] at h

end NestedLayout
