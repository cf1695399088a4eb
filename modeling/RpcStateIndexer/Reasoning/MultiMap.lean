import RpcStateIndexer.Reasoning.Sorting

/-!
# Mappings to sets

A mapping from keys to non-empty sets of values, as insertions leave it.  It represents a relation, and
what is sorted of it depends on the relation only.
-/

namespace RpcStateIndexer.Reasoning

variable {κ β ι : Type} [DecidableEq κ]

/-- The keys in the order they came, each with its values. -/
abbrev MultiMap (κ β : Type) := List (κ × List β)

namespace MultiMap

/-- `setdefault(key, set()).update(values)` -/
def update : MultiMap κ β → κ → List β → MultiMap κ β
  | [], key, values => [(key, values)]
  | (other, old) :: rest, key, values =>
    if other = key then (other, old ++ values) :: rest else (other, old) :: update rest key values

def keys (m : MultiMap κ β) : List κ := m.map Prod.fst

def valuesOf (m : MultiMap κ β) (key : κ) : List β := (m.lookup key).getD []

/-- Every entry of the second mapping goes into the first. -/
def merge (m other : MultiMap κ β) : MultiMap κ β :=
  other.foldl (fun m entry => m.update entry.1 entry.2) m

def join (ms : List (MultiMap κ β)) : MultiMap κ β := ms.foldl merge []

/-- The keys that every mapping has, each with its values in all of them. -/
def meet : List (MultiMap κ β) → MultiMap κ β
  | [] => []
  | first :: rest =>
    (first.keys.filter fun key => rest.all fun m => decide (key ∈ m.keys)).map
      fun key => (key, (first :: rest).flatMap fun m => m.valuesOf key)

omit [DecidableEq κ] in
@[simp] theorem mem_keys_cons {entry : κ × List β} {rest : MultiMap κ β} {key : κ} :
    key ∈ keys (entry :: rest) ↔ key = entry.1 ∨ key ∈ keys rest := List.mem_cons

theorem mem_keys_update {m : MultiMap κ β} {key other : κ} {values : List β} :
    other ∈ (m.update key values).keys ↔ other ∈ m.keys ∨ other = key := by
  induction m with
  | nil => simp [update, keys]
  | cons entry rest ih =>
    unfold update
    by_cases hkey : entry.1 = key
    · rw [if_pos hkey, mem_keys_cons, mem_keys_cons, hkey]
      grind
    · rw [if_neg hkey, mem_keys_cons, mem_keys_cons, ih, or_assoc]

theorem nodup_keys_update {m : MultiMap κ β} (h : m.keys.Nodup) (key : κ) (values : List β) :
    (m.update key values).keys.Nodup := by
  induction m with
  | nil => exact List.nodup_singleton key
  | cons entry rest ih =>
    have hcons : entry.1 ∉ keys rest ∧ (keys rest).Nodup := List.nodup_cons.mp h
    unfold update
    by_cases hkey : entry.1 = key
    · rw [if_pos hkey]
      exact List.nodup_cons.mpr hcons
    · rw [if_neg hkey]
      refine List.nodup_cons.mpr ⟨?_, ih hcons.2⟩
      show entry.1 ∉ (update rest key values).keys
      rw [mem_keys_update]
      exact fun hmem => hmem.elim hcons.1 hkey

theorem mem_valuesOf_update {m : MultiMap κ β} {key other : κ} {values : List β} {value : β} :
    value ∈ (m.update key values).valuesOf other ↔
      value ∈ m.valuesOf other ∨ other = key ∧ value ∈ values := by
  induction m with
  | nil =>
    by_cases hkey : other = key
    · simp [update, valuesOf, hkey]
    · simp [update, valuesOf, List.lookup_cons, beq_eq_false_iff_ne.mpr hkey, hkey]
  | cons entry rest ih =>
    unfold valuesOf at ih ⊢
    unfold update
    by_cases hkey : entry.1 = key
    · rw [if_pos hkey, List.lookup_cons, List.lookup_cons]
      by_cases hother : other = entry.1
      · simp [hother, hkey]
      · have hne : other ≠ key := fun heq => hother (heq.trans hkey.symm)
        simp [beq_eq_false_iff_ne.mpr hother, hne]
    · rw [if_neg hkey, List.lookup_cons, List.lookup_cons]
      by_cases hother : other = entry.1
      · have hne : other ≠ key := fun heq => hkey (hother ▸ heq)
        rw [beq_iff_eq.mpr hother]
        simp [hne]
      · rw [beq_eq_false_iff_ne.mpr hother]
        exact ih

end MultiMap

open MultiMap

/-- The mapping has a key where the relation has a value, and the values that it has. -/
structure Represents (m : MultiMap κ β) (R : κ → β → Prop) : Prop where
  nodup : m.keys.Nodup
  nonempty : ∀ key ∈ m.keys, m.valuesOf key ≠ []
  values : ∀ key value, value ∈ m.valuesOf key ↔ R key value

namespace Represents

variable {m other : MultiMap κ β} {R S : κ → β → Prop}

theorem nil : Represents ([] : MultiMap κ β) fun _ _ => False where
  nodup := List.nodup_nil
  nonempty key hkey := absurd hkey List.not_mem_nil
  values key value := by simp [valuesOf]

theorem congr (h : Represents m R) (hiff : ∀ key value, R key value ↔ S key value) : Represents m S :=
  ⟨h.nodup, h.nonempty, fun key value => (h.values key value).trans (hiff key value)⟩

theorem mem_keys (h : Represents m R) {key : κ} : key ∈ m.keys ↔ ∃ value, R key value := by
  simp only [← h.values]
  constructor
  · exact fun hkey => List.exists_mem_of_ne_nil _ (h.nonempty key hkey)
  · rintro ⟨value, hvalue⟩
    unfold valuesOf at hvalue
    cases hlookup : m.lookup key with
    | none =>
      rw [hlookup] at hvalue
      cases hvalue
    | some values =>
      obtain ⟨before, after, rfl, -⟩ := List.lookup_eq_some_iff.mp hlookup
      simp [keys]

theorem update (h : Represents m R) {key : κ} {values : List β} (hvalues : values ≠ []) :
    Represents (m.update key values) fun k v => R k v ∨ k = key ∧ v ∈ values where
  nodup := nodup_keys_update h.nodup key values
  nonempty k hk := by
    rcases mem_keys_update.mp hk with hold | rfl
    · obtain ⟨value, hvalue⟩ := h.mem_keys.mp hold
      exact List.ne_nil_of_mem (mem_valuesOf_update.mpr (.inl ((h.values k value).mpr hvalue)))
    · obtain ⟨value, hvalue⟩ := List.exists_mem_of_ne_nil values hvalues
      exact List.ne_nil_of_mem (mem_valuesOf_update.mpr (.inr ⟨rfl, hvalue⟩))
  values k v := by rw [mem_valuesOf_update, h.values]

theorem merge (h : Represents m R) (hother : Represents other S) :
    Represents (m.merge other) fun k v => R k v ∨ S k v := by
  have hentry : ∀ k v, S k v ↔ ∃ entry ∈ other, k = entry.1 ∧ v ∈ entry.2 := by
    intro k v
    rw [← hother.values, valuesOf]
    constructor
    · intro hv
      cases hlookup : other.lookup k with
      | none => simp [hlookup] at hv
      | some values =>
        rw [hlookup] at hv
        exact ⟨(k, values), (mem_iff_lookup hother.nodup).mpr hlookup, rfl, hv⟩
    · rintro ⟨⟨key, values⟩, hmem, rfl, hv⟩
      rw [(mem_iff_lookup hother.nodup).mp hmem]
      exact hv
  have hne : ∀ entry ∈ other, entry.2 ≠ [] := by
    rintro ⟨key, values⟩ hmem
    have hvalues := hother.nonempty key (List.mem_map_of_mem hmem)
    rw [valuesOf, (mem_iff_lookup hother.nodup).mp hmem] at hvalues
    exact hvalues
  have hfold : ∀ (entries : List (κ × List β)) (m : MultiMap κ β) (R : κ → β → Prop),
      Represents m R → (∀ entry ∈ entries, entry.2 ≠ []) →
        Represents (entries.foldl (fun m entry => m.update entry.1 entry.2) m) fun k v =>
          R k v ∨ ∃ entry ∈ entries, k = entry.1 ∧ v ∈ entry.2 := by
    intro entries
    induction entries with
    | nil => exact fun m R hm _ => hm.congr fun k v => by simp
    | cons entry rest ih =>
      intro m R hm hentries
      obtain ⟨hfirst, hrest⟩ := List.forall_mem_cons.mp hentries
      refine (ih _ _ (hm.update hfirst) hrest).congr fun k v => ?_
      simp only [List.mem_cons, exists_eq_or_imp, or_assoc]
  exact (hfold other m R h hne).congr fun k v => by rw [hentry]

theorem join {ms : List (MultiMap κ β)} {is : List ι} {R : ι → κ → β → Prop}
    (h : List.Forall₂ (fun m i => Represents m (R i)) ms is) :
    Represents (join ms) fun k v => ∃ i ∈ is, R i k v := by
  have hfold : ∀ (m : MultiMap κ β) (S : κ → β → Prop), Represents m S →
      Represents (ms.foldl MultiMap.merge m) fun k v => S k v ∨ ∃ i ∈ is, R i k v := by
    induction h with
    | nil => exact fun m S hm => hm.congr fun k v => by simp
    | cons hfirst _ ih =>
      intro m S hm
      refine (ih _ _ (hm.merge hfirst)).congr fun k v => ?_
      simp only [List.mem_cons, exists_eq_or_imp, or_assoc]
  exact (hfold [] _ nil).congr fun k v => by simp

theorem meet {ms : List (MultiMap κ β)} {is : List ι} {R : ι → κ → β → Prop}
    (h : List.Forall₂ (fun m i => Represents m (R i)) ms is) (hne : ms ≠ []) :
    Represents (meet ms) fun k v => (∀ i ∈ is, ∃ w, R i k w) ∧ ∃ i ∈ is, R i k v := by
  cases h with
  | nil => exact absurd rfl hne
  | @cons first i rest is hfirst hrest =>
    have hkeys : ∀ k, (k ∈ first.keys ∧ ∀ m ∈ rest, k ∈ m.keys) ↔ ∀ j ∈ i :: is, ∃ w, R j k w := by
      intro k
      rw [List.forall_mem_cons, hfirst.mem_keys]
      refine and_congr_right fun _ => ?_
      constructor
      · intro hall j hj
        obtain ⟨m, hm, hrep⟩ := forall₂_right hrest hj
        exact hrep.mem_keys.mp (hall m hm)
      · intro hall m hm
        obtain ⟨j, hj, hrep⟩ := forall₂_left hrest hm
        exact hrep.mem_keys.mpr (hall j hj)
    have hvalues : ∀ k v, v ∈ (first :: rest).flatMap (fun m => m.valuesOf k) ↔
        ∃ j ∈ i :: is, R j k v := by
      intro k v
      have hall : List.Forall₂ (fun m j => Represents m (R j)) (first :: rest) (i :: is) :=
        .cons hfirst hrest
      rw [List.mem_flatMap]
      constructor
      · rintro ⟨m, hm, hv⟩
        obtain ⟨j, hj, hrep⟩ := forall₂_left hall hm
        exact ⟨j, hj, (hrep.values k v).mp hv⟩
      · rintro ⟨j, hj, hv⟩
        obtain ⟨m, hm, hrep⟩ := forall₂_right hall hj
        exact ⟨m, hm, (hrep.values k v).mpr hv⟩
    let shared := first.keys.filter fun key => rest.all fun m => decide (key ∈ m.keys)
    have hshared : ∀ k, k ∈ shared ↔ ∀ j ∈ i :: is, ∃ w, R j k w := by
      intro k
      rw [← hkeys]
      simp [shared]
    have hmapKeys : (MultiMap.meet (first :: rest)).keys = shared := by
      show (shared.map _).map Prod.fst = shared
      rw [List.map_map]
      exact List.map_id shared
    have hnodup : (MultiMap.meet (first :: rest)).keys.Nodup := by
      rw [hmapKeys]
      exact hfirst.nodup.filter _
    have hvaluesOf : ∀ k ∈ shared, (MultiMap.meet (first :: rest)).valuesOf k =
        (first :: rest).flatMap fun m => m.valuesOf k := by
      intro k hk
      have hmem : (k, (first :: rest).flatMap fun m => m.valuesOf k) ∈ MultiMap.meet (first :: rest) :=
        List.mem_map.mpr ⟨k, hk, rfl⟩
      rw [valuesOf, (mem_iff_lookup hnodup).mp hmem]
      rfl
    refine ⟨hnodup, ?_, ?_⟩
    · intro k hk
      rw [hmapKeys] at hk
      rw [hvaluesOf k hk]
      obtain ⟨w, hw⟩ := (hshared k).mp hk i (.head _)
      exact List.ne_nil_of_mem ((hvalues k w).mpr ⟨i, .head _, hw⟩)
    · intro k v
      by_cases hk : k ∈ shared
      · rw [hvaluesOf k hk, hvalues, and_iff_right ((hshared k).mp hk)]
      · have hnone : (MultiMap.meet (first :: rest)).valuesOf k = [] := by
          have hlookup : (MultiMap.meet (first :: rest)).lookup k = none := by
            rw [List.lookup_eq_none_iff]
            intro entry hentry
            have hne : k ≠ entry.1 := by
              rintro rfl
              exact hk (hmapKeys ▸ List.mem_map_of_mem hentry)
            exact bne_iff_ne.mpr hne
          rw [valuesOf, hlookup]
          rfl
        rw [hnone]
        constructor
        · exact fun hv => absurd hv List.not_mem_nil
        · exact fun hv => absurd ((hshared k).mpr hv.1) hk

end Represents

end RpcStateIndexer.Reasoning
