import RpcStateIndexer.Reasoning.Except
import Mathlib.Data.List.Sort
import Mathlib.Data.List.Dedup
import Mathlib.Data.List.Perm.Basic

/-!
# Sorting by a key, and sorted sets

`sortBy` is a stable sort by a key, `sortedSet` the sorted list of distinct members.  Either forgets
the order of its input, the first only where the key tells its items apart.
-/

namespace RpcStateIndexer.Reasoning

variable {ε α κ : Type} [LinearOrder κ]

/-- A stable sort by a key. -/
def sortBy (key : α → κ) (l : List α) : List α :=
  l.insertionSort fun a b => key a ≤ key b

theorem sortBy_perm (key : α → κ) (l : List α) : (sortBy key l).Perm l :=
  List.perm_insertionSort _ l

@[simp] theorem mem_sortBy {key : α → κ} {l : List α} {a : α} : a ∈ sortBy key l ↔ a ∈ l :=
  (sortBy_perm key l).mem_iff

@[simp] theorem length_sortBy (key : α → κ) (l : List α) : (sortBy key l).length = l.length :=
  (sortBy_perm key l).length_eq

theorem sortBy_pairwise (key : α → κ) (l : List α) :
    (sortBy key l).Pairwise fun a b => key a ≤ key b := by
  have htotal : Std.Total fun a b : α => key a ≤ key b := ⟨fun a b => le_total (key a) (key b)⟩
  have htrans : IsTrans α fun a b => key a ≤ key b := ⟨fun _ _ _ hab hbc => hab.trans hbc⟩
  exact List.pairwise_insertionSort _ l

/-- Items with different keys are sorted into strictly ascending order. -/
theorem sortBy_pairwise_lt {key : α → κ} {l : List α} (h : l.Pairwise fun a b => key a ≠ key b) :
    (sortBy key l).Pairwise fun a b => key a < key b := by
  have hne : (sortBy key l).Pairwise fun a b => key a ≠ key b :=
    ((sortBy_perm key l).pairwise_iff fun hab => hab.symm).mpr h
  exact ((sortBy_pairwise key l).and hne).imp fun hab => lt_of_le_of_ne hab.1 hab.2

/-- Where the key tells the items apart, the sorted list depends on the multiset only. -/
theorem sortBy_eq_iff {key : α → κ} {l₁ l₂ : List α}
    (hkey : ∀ a ∈ l₁, ∀ b ∈ l₁, key a = key b → a = b) :
    sortBy key l₁ = sortBy key l₂ ↔ l₁.Perm l₂ := by
  constructor
  · intro h
    exact (sortBy_perm key l₁).symm.trans ((List.Perm.of_eq h).trans (sortBy_perm key l₂))
  · intro h
    have hperm : (sortBy key l₁).Perm (sortBy key l₂) :=
      (sortBy_perm key l₁).trans (h.trans (sortBy_perm key l₂).symm)
    refine hperm.eq_of_pairwise ?_ (sortBy_pairwise key l₁) (sortBy_pairwise key l₂)
    intro a b ha hb hab hba
    rw [mem_sortBy] at ha hb
    exact hkey a ha b (h.mem_iff.mpr hb) (hab.antisymm hba)

/-- A stable sort by a key whose computation may raise: every key is computed before any is compared. -/
def sortByM (key : α → Except ε κ) (l : List α) : Except ε (List α) := do
  let keyed ← l.mapM fun a => do return (← key a, a)
  return (sortBy Prod.fst keyed).map Prod.snd

section SortByM

variable {key : α → Except ε κ} {l l₁ l₂ m m₁ m₂ : List α}

omit [LinearOrder κ] in
private theorem mapM_keyed {keyed : List (κ × α)}
    (h : l.mapM (fun a => do return (← key a, a)) = .ok keyed) :
    keyed.map Prod.snd = l ∧ ∀ p ∈ keyed, key p.2 = .ok p.1 := by
  have hpair : ∀ (a : α) (p : κ × α),
      (do return (← key a, a) : Except ε (κ × α)) = .ok p → p.2 = a ∧ key a = .ok p.1 := by
    intro a p hp
    simp only [except_bind_eq_ok_iff, except_pure_eq_ok_iff] at hp
    obtain ⟨k, hk, rfl⟩ := hp
    exact ⟨rfl, hk⟩
  constructor
  · have hall := mapM_eq_ok_iff.mp h
    induction hall with
    | nil => rfl
    | cons hab hrest ih => rw [List.map_cons, (hpair _ _ hab).1, ih (mapM_eq_ok_iff.mpr hrest)]
  · intro p hp
    obtain ⟨a, -, ha⟩ := exists_of_mem_mapM h hp
    rw [(hpair a p ha).1]
    exact (hpair a p ha).2

theorem sortByM_perm (h : sortByM key l = .ok m) : m.Perm l := by
  simp only [sortByM, except_bind_eq_ok_iff, except_pure_eq_ok_iff] at h
  obtain ⟨keyed, hkeyed, rfl⟩ := h
  have hperm := (sortBy_perm Prod.fst keyed).map Prod.snd
  rwa [(mapM_keyed hkeyed).1] at hperm

/-- Where the key tells the items apart, the sorted list depends on the multiset only. -/
theorem sortByM_eq_iff (hkey : ∀ a ∈ l₁, ∀ b ∈ l₁, ∀ k, key a = .ok k → key b = .ok k → a = b)
    (h₁ : sortByM key l₁ = .ok m₁) (h₂ : sortByM key l₂ = .ok m₂) : m₁ = m₂ ↔ l₁.Perm l₂ := by
  constructor
  · intro h
    exact (sortByM_perm h₁).symm.trans ((List.Perm.of_eq h).trans (sortByM_perm h₂))
  · intro hperm
    simp only [sortByM, except_bind_eq_ok_iff, except_pure_eq_ok_iff] at h₁ h₂
    obtain ⟨keyed₁, hkeyed₁, rfl⟩ := h₁
    obtain ⟨keyed₂, hkeyed₂, rfl⟩ := h₂
    obtain ⟨hsnd₁, hok₁⟩ := mapM_keyed hkeyed₁
    obtain ⟨hsnd₂, hok₂⟩ := mapM_keyed hkeyed₂
    -- The keyed lists are the inputs with each item's key beside it.
    have hkeyed : ∀ {keyed : List (κ × α)}, (∀ p ∈ keyed, key p.2 = .ok p.1) →
        (keyed.map Prod.snd).map (fun a => (key a, a)) = keyed.map fun p => (.ok p.1, p.2) := by
      intro keyed hok
      rw [List.map_map]
      exact List.map_congr_left fun p hp => by simp [hok p hp]
    have hinj : Function.Injective fun p : κ × α => ((.ok p.1, p.2) : Except ε κ × α) := by
      intro p q hpq
      simp only [Prod.mk.injEq, Except.ok.injEq] at hpq
      exact Prod.ext hpq.1 hpq.2
    have hpair : keyed₁.Perm keyed₂ := by
      have hmap := hperm.map fun a => (key a, a)
      rw [← hsnd₁, ← hsnd₂, hkeyed hok₁, hkeyed hok₂] at hmap
      exact (List.map_perm_map_iff hinj).mp hmap
    have hmem : ∀ p ∈ keyed₁, p.2 ∈ l₁ := by
      intro p hp
      rw [← hsnd₁]
      exact List.mem_map_of_mem hp
    congr 1
    refine (sortBy_eq_iff fun p hp q hq hpq => ?_).mpr hpair
    have hkq := hok₁ q hq
    rw [← hpq] at hkq
    exact Prod.ext hpq (hkey _ (hmem p hp) _ (hmem q hq) _ (hok₁ p hp) hkq)

end SortByM

/-- The distinct members of a list, sorted: `sorted(set(…))`. -/
def sortedSet (l : List κ) : List κ := sortBy id l.dedup

@[simp] theorem mem_sortedSet {l : List κ} {a : κ} : a ∈ sortedSet l ↔ a ∈ l := by
  simp [sortedSet]

theorem sortedSet_pairwise (l : List κ) : (sortedSet l).Pairwise (· < ·) := by
  have hne : (sortedSet l).Pairwise (· ≠ ·) := (sortBy_perm id l.dedup).nodup_iff.mpr
    (List.nodup_dedup l)
  exact ((sortBy_pairwise id l.dedup).and hne).imp fun h => lt_of_le_of_ne h.1 h.2

theorem nodup_sortedSet (l : List κ) : (sortedSet l).Nodup :=
  (sortedSet_pairwise l).imp fun h => h.ne

/-- A sorted set is determined by its members. -/
theorem sortedSet_eq_iff {l₁ l₂ : List κ} :
    sortedSet l₁ = sortedSet l₂ ↔ ∀ a, a ∈ l₁ ↔ a ∈ l₂ := by
  constructor
  · intro h a
    rw [← mem_sortedSet, h, mem_sortedSet]
  · intro h
    have hperm : l₁.dedup.Perm l₂.dedup :=
      (List.perm_ext_iff_of_nodup (List.nodup_dedup _) (List.nodup_dedup _)).mpr (by simpa using h)
    exact (sortBy_eq_iff fun _ _ _ _ (hab : id _ = id _) => hab).mpr hperm

end RpcStateIndexer.Reasoning
