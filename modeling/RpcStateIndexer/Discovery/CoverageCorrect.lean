import Mathlib.Order.Bounds.Basic
import RpcStateIndexer.Discovery.Coverage

/-!
# The three sweeps agree

The frontier is the least block that no range covers, and the gaps are the required blocks that none
covers, apart from one another.  So the frontier of a required range and its gaps tell of the same
blocks.
-/

namespace RpcStateIndexer

/-! ## The frontier -/

/-- Over ranges apart from one another the loop stops at the first block that none of them covers. -/
theorem isLeast_frontierFrom {ranges : List BlockRange}
    (hsorted : ranges.Pairwise fun a b => a.endExclusive < b.start) (frontier : Nat) :
    IsLeast {block | frontier ≤ block ∧ ¬ Covered ranges block} (frontierFrom frontier ranges) := by
  induction ranges generalizing frontier with
  | nil => exact ⟨⟨le_rfl, covered_nil _⟩, fun _ hblock => hblock.1⟩
  | cons r rest ih =>
    rw [List.pairwise_cons] at hsorted
    obtain ⟨hfirst, hrest⟩ := hsorted
    unfold frontierFrom
    split
    · -- The range lies behind the frontier.
      rename_i hbehind
      have hset : {block | frontier ≤ block ∧ ¬ Covered (r :: rest) block} =
          {block | frontier ≤ block ∧ ¬ Covered rest block} := by
        ext block
        simp only [Set.mem_ofPred_eq, covered_cons, BlockRange.Contains]
        refine and_congr_right fun hle => not_congr (or_iff_right ?_)
        omega
      rw [hset]
      exact ih hrest frontier
    · split
      · rename_i hahead
        refine ⟨⟨le_rfl, ?_⟩, fun block hblock => hblock.1⟩
        rw [covered_cons]
        rintro (⟨hstart, -⟩ | ⟨later, hlater, hstart, -⟩)
        · omega
        · have hapart := hfirst later hlater
          have hnonempty := r.nonempty
          omega
      · -- The range holds the frontier, which moves to its end.
        rename_i hend hstart
        have hset : {block | frontier ≤ block ∧ ¬ Covered (r :: rest) block} =
            {block | r.endExclusive ≤ block ∧ ¬ Covered rest block} := by
          ext block
          simp only [Set.mem_ofPred_eq, covered_cons, BlockRange.Contains, not_or]
          constructor
          · rintro ⟨hle, hout, hnot⟩
            exact ⟨by omega, hnot⟩
          · rintro ⟨hle, hnot⟩
            exact ⟨by omega, by omega, hnot⟩
        rw [hset]
        exact ih hrest r.endExclusive

theorem isLeast_contiguousFrontier (coverageStart : Nat) (ranges : List BlockRange) :
    IsLeast {block | coverageStart ≤ block ∧ ¬ Covered ranges block}
      (contiguousFrontier coverageStart ranges) := by
  have hleast := isLeast_frontierFrom (mergeCoverage_separated ranges) coverageStart
  simp only [covered_mergeCoverage] at hleast
  exact hleast

/-! ## The gaps -/

theorem start_of_mem_rangeOrNone {start endExclusive : Nat} {gap : BlockRange}
    (h : gap ∈ rangeOrNone start endExclusive) :
    gap.start = start ∧ gap.endExclusive = endExclusive := by
  unfold rangeOrNone at h
  split at h
  · rw [List.mem_singleton.mp h]
    exact ⟨rfl, rfl⟩
  · exact absurd h List.not_mem_nil

theorem rangeOrNone_pairwise (start endExclusive : Nat) :
    (rangeOrNone start endExclusive).Pairwise fun a b => a.endExclusive < b.start := by
  unfold rangeOrNone
  split
  · exact List.pairwise_singleton _ _
  · exact .nil

/-- From a cursor on, the gaps start no earlier than the cursor and never touch. -/
theorem gapsFrom_separated (required : BlockRange) (ranges : List BlockRange) (cursor : Nat) :
    (∀ gap ∈ gapsFrom required cursor ranges, cursor ≤ gap.start) ∧
      (gapsFrom required cursor ranges).Pairwise fun a b => a.endExclusive < b.start := by
  have hsingle : ∀ first, cursor ≤ first →
      (∀ gap ∈ rangeOrNone first required.endExclusive, cursor ≤ gap.start) := by
    intro first hle gap hgap
    rw [(start_of_mem_rangeOrNone hgap).1]
    exact hle
  induction ranges generalizing cursor with
  | nil => exact ⟨hsingle cursor le_rfl, rangeOrNone_pairwise _ _⟩
  | cons covered rest ih =>
    have ih' : ∀ first, (∀ gap ∈ gapsFrom required first rest, first ≤ gap.start) ∧
        (gapsFrom required first rest).Pairwise fun a b => a.endExclusive < b.start := by
      intro first
      refine ih first fun second hle gap hgap => ?_
      rw [(start_of_mem_rangeOrNone hgap).1]
      exact hle
    unfold gapsFrom
    split
    · exact ih' cursor
    split
    · exact ⟨hsingle cursor le_rfl, rangeOrNone_pairwise _ _⟩
    rename_i hbehind hahead
    -- The covered part is not empty, so the gap before it and those after it do not touch.
    set clippedStart := max covered.start required.start with hclippedStart
    set next := max cursor (min covered.endExclusive required.endExclusive) with hnext
    have hcovered := covered.nonempty
    have hrequired := required.nonempty
    have htail : (∀ gap ∈ (if required.endExclusive ≤ next then rangeOrNone next required.endExclusive
          else gapsFrom required next rest), next ≤ gap.start) ∧
        (if required.endExclusive ≤ next then rangeOrNone next required.endExclusive
          else gapsFrom required next rest).Pairwise fun a b => a.endExclusive < b.start := by
      split
      · refine ⟨fun gap hgap => ?_, rangeOrNone_pairwise _ _⟩
        rw [(start_of_mem_rangeOrNone hgap).1]
      · exact ih' next
    obtain ⟨hlater, hpairwise⟩ := htail
    constructor
    · intro gap hgap
      rcases List.mem_append.mp hgap with hgap | hgap
      · rw [(start_of_mem_rangeOrNone hgap).1]
      · have hle := hlater gap hgap
        omega
    · refine List.pairwise_append.mpr ⟨rangeOrNone_pairwise _ _, hpairwise, fun gap hgap other hother => ?_⟩
      have hle := hlater other hother
      have hend := (start_of_mem_rangeOrNone hgap).2
      omega

theorem coverageGaps_separated (required : BlockRange) (completed : List BlockRange) :
    (coverageGaps required completed).Pairwise fun a b => a.endExclusive < b.start :=
  (gapsFrom_separated required (mergeCoverage completed) required.start).2

/-! ## The frontier of a required range -/

/-- The frontier reaches the end exactly when there is no gap. -/
theorem frontier_reaches_iff (required : BlockRange) (completed : List BlockRange) :
    required.endExclusive ≤ contiguousFrontier required.start completed ↔
      coverageGaps required completed = [] := by
  obtain ⟨⟨hstart, hnot⟩, hleast⟩ := isLeast_contiguousFrontier required.start completed
  rw [coverageGaps_eq_nil_iff]
  constructor
  · intro hreaches block hblock
    by_contra huncovered
    have hle := hleast ⟨hblock.1, huncovered⟩
    have hlt := hblock.2
    omega
  · intro hall
    by_contra hbefore
    exact hnot (hall _ ⟨hstart, by omega⟩)

/-- Otherwise it stops at the start of the first gap. -/
theorem frontier_eq_start {required gap : BlockRange} {completed rest : List BlockRange}
    (h : coverageGaps required completed = gap :: rest) :
    contiguousFrontier required.start completed = gap.start := by
  obtain ⟨⟨hstart, hnot⟩, hleast⟩ := isLeast_contiguousFrontier required.start completed
  have hsorted := coverageGaps_separated required completed
  have hcovered := covered_coverageGaps required completed
  rw [h] at hsorted hcovered
  rw [List.pairwise_cons] at hsorted
  obtain ⟨hinside, huncovered⟩ := (hcovered gap.start).mp ⟨gap, List.mem_cons_self, le_rfl, gap.nonempty⟩
  have hle := hleast ⟨hinside.1, huncovered⟩
  have hlt := hinside.2
  -- The frontier is itself a block of some gap, and none starts before the first.
  obtain ⟨other, hother, hfrom, -⟩ := (hcovered (contiguousFrontier required.start completed)).mpr
    ⟨⟨hstart, by omega⟩, hnot⟩
  rcases List.mem_cons.mp hother with rfl | hother
  · omega
  · have hapart := hsorted.1 other hother
    have hnonempty := gap.nonempty
    omega

/-- Merging keeps the blocks, the gaps are the required blocks left, the frontier is the first block
left, and the frontier of a required range is where its first gap starts, or past its end. -/
theorem coverage_exact (ranges : List BlockRange) (required : BlockRange) :
    ((∀ block, Covered (mergeCoverage ranges) block ↔ Covered ranges block) ∧
        (mergeCoverage ranges).Pairwise fun a b => a.endExclusive < b.start) ∧
      ((∀ block, Covered (coverageGaps required ranges) block ↔
          required.Contains block ∧ ¬ Covered ranges block) ∧
        (coverageGaps required ranges).Pairwise fun a b => a.endExclusive < b.start) ∧
      (∀ coverageStart, IsLeast {block | coverageStart ≤ block ∧ ¬ Covered ranges block}
        (contiguousFrontier coverageStart ranges)) ∧
      (required.endExclusive ≤ contiguousFrontier required.start ranges ↔
        coverageGaps required ranges = []) ∧
      ∀ gap rest, coverageGaps required ranges = gap :: rest →
        contiguousFrontier required.start ranges = gap.start :=
  ⟨⟨covered_mergeCoverage ranges, mergeCoverage_separated ranges⟩,
    ⟨covered_coverageGaps required ranges, coverageGaps_separated required ranges⟩,
    fun coverageStart => isLeast_contiguousFrontier coverageStart ranges,
    frontier_reaches_iff required ranges, fun _ _ h => frontier_eq_start h⟩

end RpcStateIndexer
