import Mathlib.Data.List.Dedup
import Mathlib.Data.List.Pairwise
import Mathlib.Algebra.BigOperators.Group.List.Basic
import Mathlib.Algebra.GroupWithZero.Nat

/-!
# Counting by parts

Where every item lies in exactly one part, the counts of the parts add up to the number of items.  A
part that was collected with repetitions has more entries than items.
-/

namespace RpcStateIndexer.Reasoning

variable {κ α : Type}

/-- Every item of the list lies in exactly one of the parts. -/
def Partitions (inside : κ → α → Bool) (parts : List κ) (items : List α) : Prop :=
  ∀ a ∈ items, parts.countP (inside · a) = 1

/-- No item lies in two of the parts. -/
def Disjoined (inside : κ → α → Bool) (parts : List κ) : Prop :=
  parts.Pairwise fun k k' => ∀ a, ¬ (inside k a = true ∧ inside k' a = true)

variable {inside : κ → α → Bool} {parts : List κ} {items : List α}

theorem Partitions.sum (h : Partitions inside parts items) :
    (parts.map fun k => items.countP (inside k)).sum = items.length := by
  induction items with
  | nil => simp
  | cons a items ih =>
    obtain ⟨ha, hitems⟩ := List.forall_mem_cons.mp h
    have hstep : ∀ parts : List κ, (parts.map fun k => (a :: items).countP (inside k)).sum =
        (parts.map fun k => items.countP (inside k)).sum + parts.countP (inside · a) := by
      intro parts
      induction parts with
      | nil => rfl
      | cons k parts ihk =>
        rw [List.map_cons, List.sum_cons, ihk, List.map_cons, List.sum_cons, List.countP_cons,
          List.countP_cons]
        omega
    rw [hstep, ih hitems, ha, List.length_cons]

theorem Partitions.sublist {others : List α} (h : Partitions inside parts items)
    (hsub : ∀ a ∈ others, a ∈ items) : Partitions inside parts others :=
  fun a ha => h a (hsub a ha)

theorem Disjoined.unique (h : Disjoined inside parts) {k k' : κ} (hk : k ∈ parts) (hk' : k' ∈ parts)
    {a : α} (ha : inside k a = true) (ha' : inside k' a = true) : k = k' := by
  by_contra hne
  have hsymm : Std.Symm fun k k' : κ => ∀ a, ¬ (inside k a = true ∧ inside k' a = true) :=
    ⟨fun k k' hkk a ha => hkk a ha.symm⟩
  exact List.Pairwise.forall h hk hk' hne a ⟨ha, ha'⟩

theorem Disjoined.partitions (h : Disjoined inside parts)
    (hcover : ∀ a ∈ items, ∃ k ∈ parts, inside k a = true) : Partitions inside parts items := by
  intro a ha
  obtain ⟨k, hk, hin⟩ := hcover a ha
  clear hcover
  induction parts with
  | nil => cases hk
  | cons k' parts ih =>
    obtain ⟨hhead, htail⟩ := List.pairwise_cons.mp h
    rw [List.countP_cons]
    rcases List.mem_cons.mp hk with rfl | hk
    · have hnone : parts.countP (inside · a) = 0 :=
        List.countP_eq_zero.mpr fun k' hk' hin' => hhead k' hk' a ⟨hin, hin'⟩
      rw [hnone, if_pos hin]
    · rw [ih htail hk, if_neg fun hin' => hhead k hk a ⟨hin', hin⟩]

/-! ## Parts collected with repetitions -/

section Collected

variable [DecidableEq α] {batches : List (κ × List α)}

theorem length_dedup_eq_iff {l : List α} : l.length = l.dedup.length ↔ l.Nodup := by
  constructor
  · intro h
    have hsame : l.dedup = l := (List.dedup_sublist l).eq_of_length h.symm
    exact List.dedup_eq_self.mp hsame
  · intro h
    rw [h.dedup]

/-- The items of a part are as many as its batch has without repetitions. -/
theorem countP_collected (hdisjoined : Disjoined inside (batches.map Prod.fst))
    (hinside : ∀ x ∈ batches, ∀ a ∈ x.2, inside x.1 a = true) (hnodup : items.Nodup)
    (hitems : ∀ a, a ∈ items ↔ ∃ x ∈ batches, a ∈ x.2) {x : κ × List α} (hx : x ∈ batches) :
    items.countP (inside x.1) = x.2.dedup.length := by
  have hpairs : Disjoined (fun x : κ × List α => inside x.1) batches := List.pairwise_map.mp hdisjoined
  rw [List.countP_eq_length_filter]
  refine List.Perm.length_eq ((List.perm_ext_iff_of_nodup (hnodup.filter _) (List.nodup_dedup _)).mpr ?_)
  intro a
  rw [List.mem_filter, List.mem_dedup, hitems]
  constructor
  · rintro ⟨⟨y, hy, hay⟩, hin⟩
    obtain rfl := hpairs.unique hx hy hin (hinside y hy a hay)
    exact hay
  · intro ha
    exact ⟨⟨x, hx, ha⟩, hinside x hx a ha⟩

end Collected

end RpcStateIndexer.Reasoning
