import Mathlib.Order.Interval.Set.Basic

/-!
# Lists of abutting half-open intervals

An interval is anything with a lower and an upper end.  `Tiles lo hi a b l` says that the intervals
of `l`, in order, abut from `a` to `b`; when none is empty they partition `[a, b)`.
-/

namespace RpcStateIndexer.Reasoning

variable {ι α : Type} {lo hi : ι → α}

/-- The intervals of the list abut in order from the first end to the second. -/
inductive Tiles (lo hi : ι → α) : α → α → List ι → Prop where
  | nil (a : α) : Tiles lo hi a a []
  | cons {b : α} {x : ι} {l : List ι} (rest : Tiles lo hi (hi x) b l) :
      Tiles lo hi (lo x) b (x :: l)

namespace Tiles

@[simp] theorem nil_iff {a b : α} : Tiles lo hi a b [] ↔ a = b := by
  constructor
  · rintro ⟨⟩
    rfl
  · rintro rfl
    exact .nil a

@[simp] theorem cons_iff {a b : α} {x : ι} {l : List ι} :
    Tiles lo hi a b (x :: l) ↔ lo x = a ∧ Tiles lo hi (hi x) b l := by
  constructor
  · rintro ⟨⟩
    exact ⟨rfl, by assumption⟩
  · rintro ⟨rfl, h⟩
    exact .cons h

theorem append_iff {a c : α} {l₁ l₂ : List ι} :
    Tiles lo hi a c (l₁ ++ l₂) ↔ ∃ b, Tiles lo hi a b l₁ ∧ Tiles lo hi b c l₂ := by
  induction l₁ generalizing a with
  | nil => simp
  | cons x l₁ ih => simp [ih, and_assoc]

theorem map_iff {κ : Type} {f : κ → ι} {a b : α} {l : List κ} :
    Tiles lo hi a b (l.map f) ↔ Tiles (fun x => lo (f x)) (fun x => hi (f x)) a b l := by
  induction l generalizing a with
  | nil => simp
  | cons x l ih => simp [ih]

variable [LinearOrder α]

theorem le {a b : α} {l : List ι} (h : Tiles lo hi a b l) (hne : ∀ x ∈ l, lo x < hi x) :
    a ≤ b := by
  induction h with
  | nil => exact le_rfl
  | @cons b x l _ ih =>
    exact (hne x (by simp)).le.trans (ih fun y hy => hne y (by simp [hy]))

/-- Every point of the tiled range lies in a tile, and no tile leaves the range. -/
theorem mem_iff {a b : α} {l : List ι} (h : Tiles lo hi a b l) (hne : ∀ x ∈ l, lo x < hi x)
    (n : α) : (∃ x ∈ l, lo x ≤ n ∧ n < hi x) ↔ a ≤ n ∧ n < b := by
  induction h with
  | nil => simp only [List.not_mem_nil, false_and, exists_false, false_iff, not_and, not_lt,
      imp_self]
  | @cons b x l rest ih =>
    have hx := hne x (by simp)
    have hl : ∀ y ∈ l, lo y < hi y := fun y hy => hne y (by simp [hy])
    have hb := rest.le hl
    simp only [List.mem_cons, exists_eq_or_imp, ih hl]
    constructor
    · rintro (⟨h₁, h₂⟩ | ⟨h₁, h₂⟩)
      · exact ⟨h₁, h₂.trans_le hb⟩
      · exact ⟨hx.le.trans h₁, h₂⟩
    · rintro ⟨h₁, h₂⟩
      rcases lt_or_ge n (hi x) with hn | hn
      · exact .inl ⟨h₁, hn⟩
      · exact .inr ⟨hn, h₂⟩

/-- Tiles are ordered: each ends before every later one starts. -/
theorem pairwise {a b : α} {l : List ι} (h : Tiles lo hi a b l)
    (hne : ∀ x ∈ l, lo x < hi x) : l.Pairwise fun x y => hi x ≤ lo y := by
  induction h with
  | nil => exact .nil
  | @cons b x l rest ih =>
    have hl : ∀ y ∈ l, lo y < hi y := fun y hy => hne y (by simp [hy])
    refine .cons (fun y hy => ?_) (ih hl)
    exact ((rest.mem_iff hl (lo y)).mp ⟨y, hy, le_rfl, hl y hy⟩).1

end Tiles

end RpcStateIndexer.Reasoning
