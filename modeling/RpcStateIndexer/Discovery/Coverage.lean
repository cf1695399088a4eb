import RpcStateIndexer.Discovery.Log
import RpcStateIndexer.Reasoning.Tiling

/-!
# Coverage: unions and gaps of completed ranges

The sweeps of `merge_coverage`, `contiguous_frontier` and `coverage_gaps`, read as sets of blocks.
-/

namespace RpcStateIndexer

open Reasoning

/-- A block lies in one of the ranges. -/
def Covered (ranges : List BlockRange) (block : Nat) : Prop :=
  ∃ r ∈ ranges, r.Contains block

@[simp] theorem covered_nil (block : Nat) : ¬ Covered [] block := by simp [Covered]

@[simp] theorem covered_cons (r : BlockRange) (ranges : List BlockRange) (block : Nat) :
    Covered (r :: ranges) block ↔ r.Contains block ∨ Covered ranges block := by
  simp [Covered]

@[simp] theorem covered_append (l₁ l₂ : List BlockRange) (block : Nat) :
    Covered (l₁ ++ l₂) block ↔ Covered l₁ block ∨ Covered l₂ block := by
  simp [Covered, or_and_right, exists_or]

theorem covered_congr {l₁ l₂ : List BlockRange} (h : ∀ r, r ∈ l₁ ↔ r ∈ l₂) (block : Nat) :
    Covered l₁ block ↔ Covered l₂ block := by
  simp [Covered, h]

/-- The ranges abut from one block to another. -/
abbrev TilesRange (a b : Nat) (ranges : List BlockRange) : Prop :=
  Tiles BlockRange.start BlockRange.endExclusive a b ranges

theorem TilesRange.covered_iff {a b : Nat} {ranges : List BlockRange}
    (h : TilesRange a b ranges) (block : Nat) : Covered ranges block ↔ a ≤ block ∧ block < b :=
  h.mem_iff (fun r _ => r.nonempty) block

/-- Ranges rebuilt from their ends have those ends. -/
theorem mapM_make_eq_ok {rows : List (Nat × Nat)} {ranges : List BlockRange}
    (h : rows.mapM (fun range => BlockRange.make range.1 range.2) = .ok ranges) :
    ∀ r ∈ ranges, (r.start, r.endExclusive) ∈ rows := by
  intro r hr
  obtain ⟨⟨start, stop⟩, hmem, hok⟩ := exists_of_mem_mapM h hr
  unfold BlockRange.make at hok
  split at hok
  · rw [Except.ok.injEq] at hok
    subst hok
    exact hmem
  · simp at hok

/-! ## `merge_coverage` -/

/-- The loop of `merge_coverage`: `previous` is the range at the end of `merged`. -/
def mergeFrom (previous : BlockRange) : List BlockRange → List BlockRange
  | [] => [previous]
  | current :: rest =>
    if current.start ≤ previous.endExclusive then
      mergeFrom ⟨previous.start, max previous.endExclusive current.endExclusive,
        previous.nonempty.trans_le (le_max_left _ _)⟩ rest
    else previous :: mergeFrom current rest

/-- Return the union of completed half-open ranges. -/
def mergeCoverage (ranges : List BlockRange) : List BlockRange :=
  match sortBy BlockRange.key ranges with
  | [] => []
  | first :: rest => mergeFrom first rest

theorem covered_mergeFrom (previous : BlockRange) (rest : List BlockRange)
    (hsorted : (previous :: rest).Pairwise fun a b => a.key ≤ b.key) (block : Nat) :
    Covered (mergeFrom previous rest) block ↔ Covered (previous :: rest) block := by
  induction rest generalizing previous with
  | nil => rfl
  | cons current rest ih =>
    rw [List.pairwise_cons, List.pairwise_cons] at hsorted
    obtain ⟨hprev, hcur, hrest⟩ := hsorted
    have hle := BlockRange.key_le_iff.mp (hprev current (by simp))
    unfold mergeFrom
    split
    · rename_i htouch
      rw [ih]
      · simp only [covered_cons, BlockRange.Contains, ← or_assoc]
        refine or_congr_left ?_
        have h₁ := previous.nonempty
        have h₂ := current.nonempty
        omega
      · refine .cons (fun r hr => ?_) hrest
        have h₁ := BlockRange.key_le_iff.mp (hprev r (by simp [hr]))
        have h₂ := BlockRange.key_le_iff.mp (hcur r hr)
        rw [BlockRange.key_le_iff]
        simp only
        omega
    · rw [covered_cons, ih current (.cons hcur hrest), covered_cons, covered_cons, covered_cons]

/-- The merged ranges start no earlier than the first and never touch. -/
theorem mergeFrom_separated (previous : BlockRange) (rest : List BlockRange)
    (hsorted : (previous :: rest).Pairwise fun a b => a.key ≤ b.key) :
    (∀ r ∈ mergeFrom previous rest, previous.start ≤ r.start) ∧
      (mergeFrom previous rest).Pairwise fun a b => a.endExclusive < b.start := by
  induction rest generalizing previous with
  | nil => simp [mergeFrom]
  | cons current rest ih =>
    rw [List.pairwise_cons, List.pairwise_cons] at hsorted
    obtain ⟨hprev, hcur, hrest⟩ := hsorted
    have hle := BlockRange.key_le_iff.mp (hprev current (by simp))
    unfold mergeFrom
    split
    · refine ih _ (.cons (fun r hr => ?_) hrest)
      have h₁ := BlockRange.key_le_iff.mp (hprev r (by simp [hr]))
      have h₂ := BlockRange.key_le_iff.mp (hcur r hr)
      rw [BlockRange.key_le_iff]
      simp only
      omega
    · rename_i hapart
      obtain ⟨hfirst, hsep⟩ := ih current (.cons hcur hrest)
      refine ⟨fun r hr => ?_, .cons (fun r hr => ?_) hsep⟩
      · rcases List.mem_cons.mp hr with rfl | hr
        · exact le_rfl
        · have := hfirst r hr
          omega
      · have := hfirst r hr
        omega

theorem covered_mergeCoverage (ranges : List BlockRange) (block : Nat) :
    Covered (mergeCoverage ranges) block ↔ Covered ranges block := by
  have hperm := covered_congr (fun r => (sortBy_perm BlockRange.key ranges).mem_iff) block
  have hsorted := sortBy_pairwise BlockRange.key ranges
  unfold mergeCoverage
  rw [← hperm]
  split
  · rename_i h
    simp [h]
  · rename_i first rest h
    rw [h] at hsorted ⊢
    exact covered_mergeFrom first rest hsorted block

theorem mergeCoverage_separated (ranges : List BlockRange) :
    (mergeCoverage ranges).Pairwise fun a b => a.endExclusive < b.start := by
  have hsorted := sortBy_pairwise BlockRange.key ranges
  unfold mergeCoverage
  split
  · exact .nil
  · rename_i first rest h
    rw [h] at hsorted
    exact (mergeFrom_separated first rest hsorted).2

/-! ## `contiguous_frontier` -/

/-- The loop of `contiguous_frontier`. -/
def frontierFrom (frontier : Nat) : List BlockRange → Nat
  | [] => frontier
  | r :: rest =>
    if r.endExclusive ≤ frontier then frontierFrom frontier rest
    else if frontier < r.start then frontier
    else frontierFrom r.endExclusive rest

/-- Return the first uncovered block starting from the configured registry start. -/
def contiguousFrontier (coverageStart : Nat) (ranges : List BlockRange) : Nat :=
  frontierFrom coverageStart (mergeCoverage ranges)

/-! ## `coverage_gaps` -/

/-- The range from one block to another, when it is not empty. -/
def rangeOrNone (start endExclusive : Nat) : List BlockRange :=
  if h : start < endExclusive then [⟨start, endExclusive, h⟩] else []

@[simp] theorem covered_rangeOrNone (start endExclusive block : Nat) :
    Covered (rangeOrNone start endExclusive) block ↔ start ≤ block ∧ block < endExclusive := by
  unfold rangeOrNone
  split
  · simp [BlockRange.Contains]
  · simp only [covered_nil, false_iff]
    omega

/-- The loop of `coverage_gaps` from a cursor on, with the gap left after the loop. -/
def gapsFrom (requiredRange : BlockRange) (cursor : Nat) : List BlockRange → List BlockRange
  | [] => rangeOrNone cursor requiredRange.endExclusive
  | covered :: rest =>
    if covered.endExclusive ≤ requiredRange.start then gapsFrom requiredRange cursor rest
    else if requiredRange.endExclusive ≤ covered.start then
      rangeOrNone cursor requiredRange.endExclusive
    else
      let clippedStart := max covered.start requiredRange.start
      let clippedEnd := min covered.endExclusive requiredRange.endExclusive
      let cursor' := max cursor clippedEnd
      rangeOrNone cursor clippedStart ++
        if requiredRange.endExclusive ≤ cursor' then
          rangeOrNone cursor' requiredRange.endExclusive
        else gapsFrom requiredRange cursor' rest

/-- List uncovered subranges within a required half-open range. -/
def coverageGaps (requiredRange : BlockRange) (completedRanges : List BlockRange) :
    List BlockRange :=
  gapsFrom requiredRange requiredRange.start (mergeCoverage completedRanges)

/-- From a cursor on, the gaps are the required blocks that no remaining range covers. -/
theorem covered_gapsFrom (required : BlockRange) (cursor : Nat) (ranges : List BlockRange)
    (hcursor : required.start ≤ cursor)
    (hsorted : ranges.Pairwise fun a b => a.endExclusive < b.start) (block : Nat) :
    Covered (gapsFrom required cursor ranges) block ↔
      cursor ≤ block ∧ block < required.endExclusive ∧ ¬ Covered ranges block := by
  induction ranges generalizing cursor with
  | nil => simp [gapsFrom]
  | cons covered rest ih =>
    rw [List.pairwise_cons] at hsorted
    obtain ⟨hfirst, hrest⟩ := hsorted
    have hlater : Covered rest block → covered.endExclusive < block := by
      rintro ⟨r, hr, hb, -⟩
      exact (hfirst r hr).trans_le hb
    have hne := covered.nonempty
    unfold gapsFrom
    simp only [covered_cons, BlockRange.Contains]
    split
    · rw [ih cursor hcursor hrest]
      by_cases hc : Covered rest block
      · simp [hc]
      · simp only [hc, not_false_eq_true, or_false, and_true]
        omega
    · split
      · rw [covered_rangeOrNone]
        by_cases hc : Covered rest block
        · have := hlater hc
          simp only [hc, or_true, not_true_eq_false, and_false, iff_false]
          omega
        · simp only [hc, or_false]
          omega
      · simp only [covered_append, covered_rangeOrNone]
        -- the gap before the covered range, then the blocks beyond the new cursor
        have htail : Covered (if required.endExclusive ≤
              max cursor (min covered.endExclusive required.endExclusive) then
            rangeOrNone (max cursor (min covered.endExclusive required.endExclusive))
              required.endExclusive
          else gapsFrom required
            (max cursor (min covered.endExclusive required.endExclusive)) rest) block ↔
            max cursor covered.endExclusive ≤ block ∧ block < required.endExclusive ∧
              ¬ Covered rest block := by
          split
          · rw [covered_rangeOrNone]
            constructor
            · rintro ⟨h₁, h₂⟩
              omega
            · rintro ⟨h₁, h₂, -⟩
              omega
          · rw [ih _ (by omega) hrest]
            exact ⟨fun ⟨h₁, h₂, h₃⟩ => ⟨by omega, h₂, h₃⟩,
              fun ⟨h₁, h₂, h₃⟩ => ⟨by omega, h₂, h₃⟩⟩
        rw [htail]
        by_cases hc : Covered rest block
        · have := hlater hc
          simp only [hc, or_true, not_true_eq_false, and_false, or_false, iff_false]
          omega
        · simp only [hc, or_false, not_false_eq_true, and_true]
          omega

theorem covered_coverageGaps (required : BlockRange) (completed : List BlockRange)
    (block : Nat) : Covered (coverageGaps required completed) block ↔
      required.Contains block ∧ ¬ Covered completed block := by
  unfold coverageGaps
  rw [covered_gapsFrom _ _ _ le_rfl (mergeCoverage_separated completed),
    covered_mergeCoverage, BlockRange.Contains, and_assoc]

/-- Nothing is left to scan exactly when every required block is covered. -/
theorem coverageGaps_eq_nil_iff (required : BlockRange) (completed : List BlockRange) :
    coverageGaps required completed = [] ↔
      ∀ block, required.Contains block → Covered completed block := by
  constructor
  · intro h block hblock
    by_contra hnot
    have := (covered_coverageGaps required completed block).mpr ⟨hblock, hnot⟩
    simp [h] at this
  · intro h
    rw [List.eq_nil_iff_forall_not_mem]
    intro gap hgap
    have hin : Covered (coverageGaps required completed) gap.start :=
      ⟨gap, hgap, le_rfl, gap.nonempty⟩
    obtain ⟨hreq, hnot⟩ := (covered_coverageGaps required completed gap.start).mp hin
    exact hnot (h _ hreq)

/-- Every gap lies inside the required range. -/
theorem contains_of_mem_coverageGaps {required gap : BlockRange} {completed : List BlockRange}
    (h : gap ∈ coverageGaps required completed) {block : Nat} (hblock : gap.Contains block) :
    required.Contains block :=
  ((covered_coverageGaps required completed block).mp ⟨gap, h, hblock⟩).1

end RpcStateIndexer
