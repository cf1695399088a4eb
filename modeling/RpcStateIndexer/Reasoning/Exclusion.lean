import Mathlib.Data.Set.Lattice
import Mathlib.Data.List.Basic

/-!
# Exclusion along a trace

The events of a trace use names and ban them.  A trace respects a set of names when it never uses one of
them, nor one that it has banned before.
-/

namespace RpcStateIndexer.Reasoning

variable {X N : Type} (uses bans : X → Option N)

/-- The names that are banned in a trace. -/
def bannedIn (t : List X) : Set N := { n | ∃ x ∈ t, bans x = some n }

def Respects (excluded : Set N) (t : List X) : Prop :=
  ∀ before x after, t = before ++ x :: after →
    ∀ n, uses x = some n → n ∉ excluded ∧ n ∉ bannedIn bans before

variable {uses bans} {excluded excluded' : Set N} {t t' : List X}

theorem bannedIn_nil : bannedIn bans [] = ∅ := by
  simp [bannedIn]

theorem bannedIn_cons (x : X) (t : List X) :
    bannedIn bans (x :: t) = { n | bans x = some n } ∪ bannedIn bans t := by
  ext n
  simp [bannedIn]

theorem bannedIn_append (t t' : List X) :
    bannedIn bans (t ++ t') = bannedIn bans t ∪ bannedIn bans t' := by
  induction t with
  | nil => rw [List.nil_append, bannedIn_nil, Set.empty_union]
  | cons x t ih => rw [List.cons_append, bannedIn_cons, bannedIn_cons, ih, Set.union_assoc]

theorem respects_nil : Respects uses bans excluded [] := by
  intro before x after h
  exact absurd h.symm (List.append_ne_nil_of_right_ne_nil _ (List.cons_ne_nil _ _))

/-- The head is tried against the excluded names, the rest also against what the head bans. -/
theorem respects_cons {x : X} : Respects uses bans excluded (x :: t) ↔
    (∀ n, uses x = some n → n ∉ excluded) ∧
      Respects uses bans (excluded ∪ { n | bans x = some n }) t := by
  constructor
  · intro h
    refine ⟨fun n hn => (h [] x t rfl n hn).1, ?_⟩
    intro before y after heq n hn
    obtain ⟨hexcluded, hbefore⟩ := h (x :: before) y after (by rw [heq, List.cons_append]) n hn
    rw [bannedIn_cons] at hbefore
    exact ⟨fun hmem => hmem.elim hexcluded fun hx => hbefore (.inl hx), fun hmem => hbefore (.inr hmem)⟩
  · rintro ⟨hx, hrest⟩ before y after heq n hn
    cases before with
    | nil =>
      obtain ⟨rfl, -⟩ := List.cons.inj heq
      exact ⟨hx n hn, by rw [bannedIn_nil]; exact Set.notMem_empty n⟩
    | cons z before =>
      obtain ⟨rfl, rfl⟩ := List.cons.inj heq
      obtain ⟨hexcluded, hbefore⟩ := hrest before y after rfl n hn
      rw [bannedIn_cons]
      exact ⟨fun hmem => hexcluded (.inl hmem), fun hmem => hmem.elim (fun hz => hexcluded (.inr hz)) hbefore⟩

theorem respects_append : Respects uses bans excluded (t ++ t') ↔
    Respects uses bans excluded t ∧ Respects uses bans (excluded ∪ bannedIn bans t) t' := by
  induction t generalizing excluded with
  | nil => rw [List.nil_append, bannedIn_nil, Set.union_empty]; exact (and_iff_right respects_nil).symm
  | cons x t ih =>
    rw [List.cons_append, respects_cons, respects_cons, ih, bannedIn_cons, Set.union_assoc, and_assoc]

theorem Respects.anti (h : Respects uses bans excluded' t) (hsub : excluded ⊆ excluded') :
    Respects uses bans excluded t := by
  intro before x after heq n hn
  obtain ⟨hexcluded, hbefore⟩ := h before x after heq n hn
  exact ⟨fun hmem => hexcluded (hsub hmem), hbefore⟩

/-- Nothing is used in it. -/
theorem Respects.of_unused (h : ∀ x ∈ t, uses x = none) : Respects uses bans excluded t := by
  rintro before x after rfl n hn
  rw [h x (List.mem_append_right _ List.mem_cons_self)] at hn
  cases hn

/-- Nothing is banned in it, so it is enough that no use is excluded. -/
theorem Respects.of_unbanned (hbans : bannedIn bans t = ∅)
    (huses : ∀ x ∈ t, ∀ n, uses x = some n → n ∉ excluded) : Respects uses bans excluded t := by
  rintro before x after rfl n hn
  refine ⟨huses x (List.mem_append_right _ List.mem_cons_self) n hn, fun hmem => ?_⟩
  have hall : n ∈ bannedIn bans (before ++ x :: after) := by
    rw [bannedIn_append]
    exact .inl hmem
  rw [hbans] at hall
  exact hall

end RpcStateIndexer.Reasoning
