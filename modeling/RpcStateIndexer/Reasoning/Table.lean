import Mathlib.Data.List.Dedup
import Mathlib.Order.Lattice
import Mathlib.Order.MinMax

/-!
# Append-only tables

A table is the list of its rows in insertion order.  `final` keeps the last row of each key, as a
replacing engine does once merged; `aggregate` folds the rows of each key into one, as an
aggregating engine does.
-/

namespace RpcStateIndexer.Reasoning

variable {α κ : Type} [DecidableEq κ]

/-- The last row of each key. -/
def final (key : α → κ) : List α → List α
  | [] => []
  | row :: rows =>
    if rows.any fun later => key later = key row then final key rows else row :: final key rows

theorem final_nil (key : α → κ) : final key [] = [] := rfl

theorem final_cons (key : α → κ) (row : α) (rows : List α) : final key (row :: rows) =
    if rows.any fun later => key later = key row then final key rows else row :: final key rows := rfl

theorem mem_final_cons {key : α → κ} {row r : α} {rows : List α} :
    r ∈ final key (row :: rows) ↔
      r ∈ final key rows ∨ r = row ∧ ∀ later ∈ rows, key later ≠ key row := by
  rw [final_cons]
  split
  · rename_i h
    rw [List.any_eq_true] at h
    obtain ⟨later, hlater, hkey⟩ := h
    constructor
    · exact .inl
    · rintro (hr | ⟨-, hnone⟩)
      · exact hr
      · exact absurd (by simpa using hkey) (hnone later hlater)
  · rename_i h
    simp only [List.any_eq_true, not_exists, not_and, decide_eq_true_eq] at h
    rw [List.mem_cons, or_comm]
    exact or_congr_right ⟨fun hr => ⟨hr, h⟩, fun hr => hr.1⟩

/-- A row is final when no later row has its key. -/
theorem mem_final_iff {key : α → κ} {r : α} {rows : List α} :
    r ∈ final key rows ↔
      ∃ earlier later, rows = earlier ++ r :: later ∧ ∀ x ∈ later, key x ≠ key r := by
  induction rows with
  | nil => simp [final_nil]
  | cons row rows ih =>
    rw [mem_final_cons, ih]
    constructor
    · rintro (⟨earlier, later, rfl, hlater⟩ | ⟨rfl, hlater⟩)
      · exact ⟨row :: earlier, later, rfl, hlater⟩
      · exact ⟨[], rows, rfl, hlater⟩
    · rintro ⟨earlier, later, heq, hlater⟩
      cases earlier with
      | nil =>
        rw [List.nil_append, List.cons.injEq] at heq
        obtain ⟨rfl, rfl⟩ := heq
        exact .inr ⟨rfl, hlater⟩
      | cons x earlier =>
        rw [List.cons_append, List.cons.injEq] at heq
        exact .inl ⟨earlier, later, heq.2, hlater⟩

theorem mem_of_mem_final {key : α → κ} {r : α} {rows : List α} (h : r ∈ final key rows) :
    r ∈ rows := by
  obtain ⟨earlier, later, rfl, -⟩ := mem_final_iff.mp h
  simp

/-- Every key of the table has a final row. -/
theorem exists_final {key : α → κ} {r : α} {rows : List α} (h : r ∈ rows) :
    ∃ last ∈ final key rows, key last = key r := by
  induction rows generalizing r with
  | nil => simp at h
  | cons row rows ih =>
    by_cases hlater : ∃ later ∈ rows, key later = key r
    · obtain ⟨later, hmem, hkey⟩ := hlater
      obtain ⟨last, hlast, hk⟩ := ih hmem
      exact ⟨last, mem_final_cons.mpr (.inl hlast), hk.trans hkey⟩
    · rcases List.mem_cons.mp h with rfl | hr
      · exact ⟨r, mem_final_cons.mpr (.inr ⟨rfl, fun x hx hk => hlater ⟨x, hx, hk⟩⟩), rfl⟩
      · exact absurd ⟨r, hr, rfl⟩ hlater

/-- Final rows have distinct keys. -/
theorem final_unique {key : α → κ} {a b : α} {rows : List α} (ha : a ∈ final key rows)
    (hb : b ∈ final key rows) (h : key a = key b) : a = b := by
  induction rows with
  | nil => simp [final_nil] at ha
  | cons row rows ih =>
    rcases mem_final_cons.mp ha with ha | ⟨ha, hna⟩
    · rcases mem_final_cons.mp hb with hb | ⟨hb, hnb⟩
      · exact ih ha hb
      · exact absurd (hb ▸ h) (hnb a (mem_of_mem_final ha))
    · rcases mem_final_cons.mp hb with hb | ⟨hb, -⟩
      · exact absurd (ha ▸ h.symm) (hna b (mem_of_mem_final hb))
      · rw [ha, hb]

/-- No two of the final rows have one key. -/
theorem final_pairwise (key : α → κ) (rows : List α) :
    (final key rows).Pairwise fun a b => key a ≠ key b := by
  induction rows with
  | nil => exact .nil
  | cons row rows ih =>
    rw [final_cons]
    split
    · exact ih
    · rename_i h
      simp only [List.any_eq_true, not_exists, not_and, decide_eq_true_eq] at h
      refine .cons (fun b hb => ?_) ih
      exact fun hkey => h b (mem_of_mem_final hb) hkey.symm

/-- Rows appended later replace the final rows of their keys and leave the others. -/
theorem mem_final_append {key : α → κ} {r : α} {rows new : List α} :
    r ∈ final key (rows ++ new) ↔
      r ∈ final key new ∨ r ∈ final key rows ∧ ∀ later ∈ new, key later ≠ key r := by
  induction rows with
  | nil => simp [final_nil]
  | cons row rows ih =>
    rw [List.cons_append, mem_final_cons, ih, mem_final_cons]
    simp only [List.mem_append, or_imp, forall_and]
    constructor
    · rintro ((hr | ⟨hr, hnew⟩) | ⟨rfl, hrows, hnew⟩)
      · exact .inl hr
      · exact .inr ⟨.inl hr, hnew⟩
      · exact .inr ⟨.inr ⟨rfl, hrows⟩, hnew⟩
    · rintro (hr | ⟨hr | ⟨rfl, hrows⟩, hnew⟩)
      · exact .inl (.inl hr)
      · exact .inl (.inr ⟨hr, hnew⟩)
      · exact .inr ⟨rfl, hrows, hnew⟩

/-- The rows of each key folded into one. -/
def aggregate (key : α → κ) (merge : α → α → α) (rows : List α) : List α :=
  (rows.map key).dedup.filterMap fun k =>
    match rows.filter fun row => key row = k with
    | [] => none
    | row :: rest => some (rest.foldl merge row)

theorem mem_aggregate {key : α → κ} {merge : α → α → α} {rows : List α} {g : α} :
    g ∈ aggregate key merge rows ↔ ∃ k row rest,
      (rows.filter fun row => key row = k) = row :: rest ∧ g = rest.foldl merge row := by
  simp only [aggregate, List.mem_filterMap, List.mem_dedup, List.mem_map]
  constructor
  · rintro ⟨k, -, hmatch⟩
    split at hmatch
    · simp at hmatch
    · rename_i row rest hrows
      exact ⟨k, row, rest, hrows, by simpa using hmatch.symm⟩
  · rintro ⟨k, row, rest, hrows, rfl⟩
    have hrow : row ∈ rows.filter fun row => key row = k := by simp [hrows]
    rw [List.mem_filter] at hrow
    exact ⟨k, ⟨row, hrow.1, by simpa using hrow.2⟩, by simp [hrows]⟩

omit [DecidableEq κ] in
theorem key_foldl_merge {key : α → κ} {merge : α → α → α}
    (hkey : ∀ a b, key (merge a b) = key a) (row : α) (rest : List α) :
    key (rest.foldl merge row) = key row := by
  induction rest generalizing row with
  | nil => rfl
  | cons x rest ih => rw [List.foldl_cons, ih, hkey]

theorem min_foldl_merge {ν : Type} [LinearOrder ν] {merge : α → α → α} {measure : α → ν}
    (hmin : ∀ a b, measure (merge a b) = min (measure a) (measure b)) (row : α)
    (rest : List α) (n : ν) :
    measure (rest.foldl merge row) ≤ n ↔ ∃ r ∈ row :: rest, measure r ≤ n := by
  induction rest generalizing row with
  | nil => simp
  | cons x rest ih =>
    rw [List.foldl_cons, ih]
    simp only [List.mem_cons, exists_eq_or_imp, hmin, min_le_iff, or_assoc]

/-- A measure merged by `min` is at most `n` on the aggregate of a key exactly when it is on some
row of that key. -/
theorem exists_aggregate_le_iff {ν : Type} [LinearOrder ν] {key : α → κ} {merge : α → α → α}
    {measure : α → ν} (hkey : ∀ a b, key (merge a b) = key a)
    (hmin : ∀ a b, measure (merge a b) = min (measure a) (measure b)) (rows : List α) (k : κ)
    (n : ν) :
    (∃ g ∈ aggregate key merge rows, key g = k ∧ measure g ≤ n) ↔
      ∃ r ∈ rows, key r = k ∧ measure r ≤ n := by
  constructor
  · rintro ⟨g, hg, rfl, hle⟩
    obtain ⟨k, row, rest, hrows, rfl⟩ := mem_aggregate.mp hg
    obtain ⟨r, hr, hle⟩ := (min_foldl_merge hmin row rest n).mp hle
    have hkeys : ∀ x ∈ row :: rest, x ∈ rows ∧ key x = k := fun x hx => by
      rw [← hrows, List.mem_filter] at hx
      simpa using hx
    refine ⟨r, (hkeys r hr).1, ?_, hle⟩
    rw [key_foldl_merge hkey, (hkeys r hr).2, (hkeys row (by simp)).2]
  · rintro ⟨r, hr, rfl, hle⟩
    have hmem : r ∈ rows.filter fun row => key row = key r := by simp [hr]
    obtain ⟨row, rest, hrows⟩ := List.exists_cons_of_ne_nil (List.ne_nil_of_mem hmem)
    have hrow : row ∈ rows.filter fun row => key row = key r := by simp [hrows]
    refine ⟨rest.foldl merge row, mem_aggregate.mpr ⟨_, row, rest, hrows, rfl⟩, ?_, ?_⟩
    · rw [key_foldl_merge hkey]
      simpa using (List.mem_filter.mp hrow).2
    · exact (min_foldl_merge hmin row rest n).mpr ⟨r, hrows ▸ hmem, hle⟩

end RpcStateIndexer.Reasoning
