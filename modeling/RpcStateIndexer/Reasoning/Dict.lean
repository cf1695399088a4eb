import Mathlib.Data.List.Basic
import Mathlib.Data.List.Nodup
import RpcStateIndexer.Reasoning.Except

/-!
# Insertion-ordered dictionaries

Distinct keys with their values, in the order the keys came.  A dictionary extends another when it has
its entries first, unchanged, and more after them.
-/

namespace RpcStateIndexer.Reasoning

structure Dict (κ ν : Type) where
  entries : List (κ × ν)
  nodup : (entries.map Prod.fst).Nodup

namespace Dict

variable {κ ν : Type}

@[ext] theorem ext {d d' : Dict κ ν} (h : d.entries = d'.entries) : d = d' := by
  cases d
  cases d'
  cases h
  rfl

def keys (d : Dict κ ν) : List κ := d.entries.map Prod.fst

def values (d : Dict κ ν) : List ν := d.entries.map Prod.snd

def empty : Dict κ ν := ⟨[], List.nodup_nil⟩

theorem nodup_append {d : Dict κ ν} {key : κ} (h : key ∉ d.keys) (value : ν) :
    ((d.entries ++ [(key, value)]).map Prod.fst).Nodup := by
  rw [List.map_append, List.map_singleton, List.nodup_append]
  refine ⟨d.nodup, List.nodup_singleton _, ?_⟩
  intro a ha b hb hab
  rw [List.mem_singleton] at hb
  subst hb hab
  exact h ha

/-- The entry of a new key comes last. -/
def append (d : Dict κ ν) (key : κ) (value : ν) (h : key ∉ d.keys) : Dict κ ν :=
  ⟨d.entries ++ [(key, value)], nodup_append h value⟩

variable [DecidableEq κ]

/-- `d[key] = f(d[key])`, for the entry of the key alone. -/
def modifyEntry (key : κ) (f : ν → ν) (entry : κ × ν) : κ × ν :=
  if entry.1 = key then (entry.1, f entry.2) else entry

theorem modifyEntry_fst (key : κ) (f : ν → ν) (entry : κ × ν) :
    (modifyEntry key f entry).1 = entry.1 := by
  unfold modifyEntry
  split <;> rfl

theorem map_fst_modifyEntry (key : κ) (f : ν → ν) (entries : List (κ × ν)) :
    (entries.map (modifyEntry key f)).map Prod.fst = entries.map Prod.fst := by
  rw [List.map_map]
  exact List.map_congr_left fun entry _ => modifyEntry_fst key f entry

/-- The value of a key is changed in its place. -/
def modify (d : Dict κ ν) (key : κ) (f : ν → ν) : Dict κ ν :=
  ⟨d.entries.map (modifyEntry key f), by rw [map_fst_modifyEntry]; exact d.nodup⟩

def get? (d : Dict κ ν) (key : κ) : Option ν := d.entries.lookup key

/-- A key that is there keeps its value. -/
def setdefault (d : Dict κ ν) (key : κ) (value : ν) : Dict κ ν :=
  if h : key ∈ d.keys then d else d.append key value h

/-- `d[key] = value`: a key that is there keeps its place. -/
def set (d : Dict κ ν) (key : κ) (value : ν) : Dict κ ν :=
  if h : key ∈ d.keys then d.modify key fun _ => value else d.append key value h

/-- The dictionary comprehension `{key(v): v for v in values}`. -/
def ofValues (key : ν → κ) (values : List ν) : Dict κ ν :=
  values.foldl (fun d v => d.set (key v) v) empty

/-! ## Lookup -/

theorem mem_of_get? {d : Dict κ ν} {key : κ} {value : ν} (h : d.get? key = some value) :
    (key, value) ∈ d.entries := by
  obtain ⟨l₁, l₂, hl, -⟩ := List.lookup_eq_some_iff.mp h
  simp [hl]

theorem get?_of_mem {d : Dict κ ν} {key : κ} {value : ν} (h : (key, value) ∈ d.entries) :
    d.get? key = some value := by
  obtain ⟨l₁, l₂, hl⟩ := List.append_of_mem h
  refine List.lookup_eq_some_iff.mpr ⟨l₁, l₂, hl, fun p hp => ?_⟩
  have hnodup := d.nodup
  rw [hl, List.map_append, List.map_cons, List.nodup_append] at hnodup
  have hne := hnodup.2.2 p.1 (List.mem_map_of_mem hp) key List.mem_cons_self
  simpa using fun heq => hne heq.symm

theorem get?_eq_some_iff {d : Dict κ ν} {key : κ} {value : ν} :
    d.get? key = some value ↔ (key, value) ∈ d.entries := ⟨mem_of_get?, get?_of_mem⟩

theorem exists_get? {d : Dict κ ν} {key : κ} (h : key ∈ d.keys) : ∃ value, d.get? key = some value := by
  obtain ⟨⟨_, value⟩, hmem, rfl⟩ := List.mem_map.mp h
  exact ⟨value, get?_of_mem hmem⟩

theorem mem_keys_of_get? {d : Dict κ ν} {key : κ} {value : ν} (h : d.get? key = some value) :
    key ∈ d.keys := List.mem_map.mpr ⟨_, mem_of_get? h, rfl⟩

/-! ## Extension -/

omit [DecidableEq κ] in
/-- The second dictionary has the entries of the first, and more after them. -/
def Extends (d d' : Dict κ ν) : Prop := d.entries <+: d'.entries

omit [DecidableEq κ] in
@[refl] theorem Extends.refl (d : Dict κ ν) : d.Extends d := List.prefix_rfl

omit [DecidableEq κ] in
theorem Extends.trans {d d' d'' : Dict κ ν} (h : d.Extends d') (h' : d'.Extends d'') :
    d.Extends d'' := List.IsPrefix.trans h h'

theorem Extends.get? {d d' : Dict κ ν} (h : d.Extends d') {key : κ} {value : ν}
    (hget : d.get? key = some value) : d'.get? key = some value :=
  get?_of_mem (List.IsPrefix.subset h (mem_of_get? hget))

omit [DecidableEq κ] in
theorem Extends.mem_keys {d d' : Dict κ ν} (h : d.Extends d') {key : κ} (hkey : key ∈ d.keys) :
    key ∈ d'.keys := List.IsPrefix.subset (List.IsPrefix.map Prod.fst h) hkey

omit [DecidableEq κ] in
theorem extends_append (d : Dict κ ν) (key : κ) (value : ν) (h : key ∉ d.keys) :
    d.Extends (d.append key value h) := List.prefix_append ..

theorem setdefault_of_mem {d : Dict κ ν} {key : κ} (h : key ∈ d.keys) (value : ν) :
    d.setdefault key value = d := dif_pos h

theorem extends_setdefault (d : Dict κ ν) (key : κ) (value : ν) : d.Extends (d.setdefault key value) := by
  unfold setdefault
  split
  · exact .refl d
  · exact extends_append ..

theorem mem_keys_setdefault (d : Dict κ ν) (key : κ) (value : ν) : key ∈ (d.setdefault key value).keys := by
  unfold setdefault
  split
  · assumption
  · simp [keys, append]

/-! ## Modification -/

theorem keys_modify (d : Dict κ ν) (key : κ) (f : ν → ν) : (d.modify key f).keys = d.keys :=
  map_fst_modifyEntry key f d.entries

theorem get?_modify {d : Dict κ ν} {key other : κ} {f : ν → ν} {value : ν}
    (h : d.get? other = some value) :
    (d.modify key f).get? other = some (if other = key then f value else value) := by
  apply get?_of_mem
  refine List.mem_map.mpr ⟨(other, value), mem_of_get? h, ?_⟩
  unfold modifyEntry
  split
  · rfl
  · rfl

/-- A modification that leaves the key's value as it is leaves the dictionary as it is. -/
theorem modify_eq_self {d : Dict κ ν} {key : κ} {f : ν → ν}
    (h : ∀ value, d.get? key = some value → f value = value) : d.modify key f = d := by
  apply Dict.ext
  have hentry : ∀ entry ∈ d.entries, modifyEntry key f entry = entry := by
    intro entry hentry
    unfold modifyEntry
    split
    · rename_i hkey
      subst hkey
      rw [h entry.2 (get?_of_mem hentry)]
    · rfl
  calc d.entries.map (modifyEntry key f) = d.entries.map id := List.map_congr_left hentry
    _ = d.entries := List.map_id _

/-- A modification that leaves the first entries as they are acts on the later ones only. -/
theorem Extends.modify {d d' : Dict κ ν} (h : d.Extends d') {key : κ} {f : ν → ν}
    (hkeep : ∀ value, d.get? key = some value → f value = value) : d.Extends (d'.modify key f) := by
  have hmap : (d.modify key f).entries <+: (d'.modify key f).entries :=
    List.IsPrefix.map (modifyEntry key f) h
  rw [modify_eq_self hkeep] at hmap
  exact hmap

theorem get?_set (d : Dict κ ν) (key other : κ) (value : ν) :
    (d.set key value).get? other = if other = key then some value else d.get? other := by
  by_cases hmem : key ∈ d.keys
  · have hset : d.set key value = d.modify key fun _ => value := dif_pos hmem
    rw [hset]
    cases hother : d.get? other with
    | none =>
      have hne : other ≠ key := by
        rintro rfl
        obtain ⟨old, hold⟩ := exists_get? hmem
        rw [hold] at hother
        cases hother
      rw [if_neg hne, Option.eq_none_iff_forall_ne_some]
      intro v hv
      have hkey := mem_keys_of_get? hv
      rw [keys_modify] at hkey
      obtain ⟨old, hold⟩ := exists_get? hkey
      rw [hold] at hother
      cases hother
    | some old =>
      rw [get?_modify hother]
      split <;> rfl
  · have hset : d.set key value = d.append key value hmem := dif_neg hmem
    rw [hset]
    split
    · rename_i heq
      subst heq
      exact get?_of_mem (List.mem_append_right _ (List.mem_singleton.mpr rfl))
    · rename_i hne
      rw [Option.ext_iff]
      intro v
      rw [get?_eq_some_iff, get?_eq_some_iff]
      show _ ∈ d.entries ++ [(key, value)] ↔ _
      rw [List.mem_append, List.mem_singleton, or_iff_left]
      intro heq
      exact hne (congrArg Prod.fst heq)

/-- The loop `d[key(a)] = value(a)`, where an item's key and value may not be readable. -/
def setAll {ε α : Type} (parse : α → Except ε (κ × ν)) (items : List α) (d : Dict κ ν) :
    Except ε (Dict κ ν) :=
  items.foldlM (fun d a => do
    let entry ← parse a
    return d.set entry.1 entry.2) d

theorem exists_entry_of_setAll {ε α : Type} {parse : α → Except ε (κ × ν)} {items : List α}
    {d d' : Dict κ ν} (h : setAll parse items d = .ok d') : ∀ a ∈ items, ∃ entry, parse a = .ok entry := by
  induction items generalizing d with
  | nil => exact fun a ha => absurd ha List.not_mem_nil
  | cons a items ih =>
    rw [setAll, List.foldlM_cons, except_bind_eq_ok_iff] at h
    obtain ⟨next, hnext, hrest⟩ := h
    rw [except_bind_eq_ok_iff] at hnext
    obtain ⟨entry, hentry, -⟩ := hnext
    exact List.forall_mem_cons.mpr ⟨⟨entry, hentry⟩, ih hrest⟩

/-- A key has the value of the last item that has it. -/
theorem get?_setAll {ε α : Type} {parse : α → Except ε (κ × ν)} {items : List α} {d d' : Dict κ ν}
    (h : setAll parse items d = .ok d') {key : κ} {value : ν} : d'.get? key = some value ↔
      (∃ before a after, items = before ++ a :: after ∧ parse a = .ok (key, value) ∧
          ∀ x ∈ after, ∀ entry, parse x = .ok entry → entry.1 ≠ key) ∨
        d.get? key = some value ∧ ∀ x ∈ items, ∀ entry, parse x = .ok entry → entry.1 ≠ key := by
  induction items generalizing d with
  | nil =>
    obtain rfl := Except.ok.inj h
    simp
  | cons a items ih =>
    rw [setAll, List.foldlM_cons, except_bind_eq_ok_iff] at h
    obtain ⟨next, hnext, hrest⟩ := h
    rw [except_bind_eq_ok_iff] at hnext
    obtain ⟨entry, hentry, hset⟩ := hnext
    obtain rfl := Except.ok.inj hset
    rw [ih hrest, get?_set]
    constructor
    · rintro (⟨before, x, after, rfl, hx, hafter⟩ | ⟨hget, hitems⟩)
      · exact .inl ⟨a :: before, x, after, rfl, hx, hafter⟩
      · split at hget
        · rename_i hkey
          subst hkey
          obtain rfl := Option.some.inj hget
          exact .inl ⟨[], a, items, rfl, hentry, hitems⟩
        · rename_i hkey
          refine .inr ⟨hget, fun x hx other hother => ?_⟩
          rcases List.mem_cons.mp hx with rfl | hx
          · obtain rfl := Except.ok.inj (hentry.symm.trans hother)
            exact fun heq => hkey heq.symm
          · exact hitems x hx other hother
    · rintro (⟨before, x, after, heq, hx, hafter⟩ | ⟨hget, hitems⟩)
      · cases before with
        | nil =>
          rw [List.nil_append, List.cons.injEq] at heq
          obtain ⟨rfl, rfl⟩ := heq
          obtain rfl := Except.ok.inj (hentry.symm.trans hx)
          exact .inr ⟨if_pos rfl, hafter⟩
        | cons b before =>
          rw [List.cons_append, List.cons.injEq] at heq
          exact .inl ⟨before, x, after, heq.2, hx, hafter⟩
      · obtain ⟨hhead, htail⟩ := List.forall_mem_cons.mp hitems
        exact .inr ⟨by rw [if_neg fun heq => hhead entry hentry heq.symm]; exact hget, htail⟩

/-! ## Dictionaries whose keys are read off the values -/

omit [DecidableEq κ] in
def KeyedBy (key : ν → κ) (d : Dict κ ν) : Prop := ∀ entry ∈ d.entries, entry.1 = key entry.2

omit [DecidableEq κ] in
theorem KeyedBy.empty (key : ν → κ) : KeyedBy key empty := by
  intro entry hentry
  cases hentry

omit [DecidableEq κ] in
theorem KeyedBy.append {key : ν → κ} {d : Dict κ ν} (h : d.KeyedBy key) {k : κ} {value : ν}
    (hkey : k = key value) (hnew : k ∉ d.keys) : (d.append k value hnew).KeyedBy key := by
  intro entry hentry
  rcases List.mem_append.mp hentry with hold | hlast
  · exact h entry hold
  · rw [List.mem_singleton] at hlast
    rw [hlast]
    exact hkey

theorem KeyedBy.modify {key : ν → κ} {d : Dict κ ν} (h : d.KeyedBy key) {k : κ} {f : ν → ν}
    (hf : ∀ value, key value = k → key (f value) = k) : (d.modify k f).KeyedBy key := by
  intro entry hentry
  obtain ⟨old, hold, rfl⟩ := List.mem_map.mp hentry
  unfold modifyEntry
  split
  · rename_i hk
    exact hk.trans (hf old.2 ((h old hold).symm.trans hk)).symm
  · exact h old hold

theorem KeyedBy.setdefault {key : ν → κ} {d : Dict κ ν} (h : d.KeyedBy key) (value : ν) :
    (d.setdefault (key value) value).KeyedBy key := by
  unfold Dict.setdefault
  split
  · exact h
  · exact h.append rfl _

theorem KeyedBy.set {key : ν → κ} {d : Dict κ ν} (h : d.KeyedBy key) (value : ν) :
    (d.set (key value) value).KeyedBy key := by
  unfold Dict.set
  split
  · exact h.modify fun _ _ => rfl
  · exact h.append rfl _

theorem keyedBy_foldl_set {key : ν → κ} (values : List ν) {d : Dict κ ν} (h : d.KeyedBy key) :
    (values.foldl (fun d v => d.set (key v) v) d).KeyedBy key := by
  induction values generalizing d with
  | nil => exact h
  | cons v values ih => exact ih (h.set v)

theorem keyedBy_ofValues (key : ν → κ) (values : List ν) : (ofValues key values).KeyedBy key :=
  keyedBy_foldl_set values (.empty key)

omit [DecidableEq κ] in
theorem KeyedBy.entries_eq {key : ν → κ} {d : Dict κ ν} (h : d.KeyedBy key) :
    d.entries = d.values.map fun v => (key v, v) := by
  have hentry : ∀ entry ∈ d.entries, entry = (key entry.2, entry.2) :=
    fun entry hentry => Prod.ext (h entry hentry) rfl
  calc d.entries = d.entries.map id := (List.map_id _).symm
    _ = d.entries.map fun entry => (key entry.2, entry.2) := List.map_congr_left hentry
    _ = d.values.map fun v => (key v, v) := by rw [values, List.map_map]; rfl

omit [DecidableEq κ] in
theorem KeyedBy.keys_eq {key : ν → κ} {d : Dict κ ν} (h : d.KeyedBy key) :
    d.keys = d.values.map key := by
  rw [keys, h.entries_eq, List.map_map]
  rfl

/-- Values of distinct keys all go in, in their order. -/
theorem entries_foldl_set {key : ν → κ} {values : List ν} {d : Dict κ ν}
    (h : (d.keys ++ values.map key).Nodup) :
    (values.foldl (fun d v => d.set (key v) v) d).entries =
      d.entries ++ values.map fun v => (key v, v) := by
  induction values generalizing d with
  | nil => simp
  | cons v values ih =>
    have hnew : key v ∉ d.keys := by
      intro hmem
      exact (List.nodup_append.mp h).2.2 _ hmem _ List.mem_cons_self rfl
    have hset : d.set (key v) v = d.append (key v) v hnew := dif_neg hnew
    rw [List.foldl_cons, hset, ih]
    · simp [append]
    · simpa [keys, append] using h

theorem entries_ofValues {key : ν → κ} {values : List ν} (h : (values.map key).Nodup) :
    (ofValues key values).entries = values.map fun v => (key v, v) :=
  entries_foldl_set h

theorem values_ofValues {key : ν → κ} {values : List ν} (h : (values.map key).Nodup) :
    (ofValues key values).values = values := by
  rw [Dict.values, entries_ofValues h, List.map_map]
  exact List.map_id'' (fun _ => rfl) values

/-- A dictionary keyed by its values is the comprehension over them. -/
theorem KeyedBy.ofValues_values {key : ν → κ} {d : Dict κ ν} (h : d.KeyedBy key) :
    ofValues key d.values = d := by
  apply Dict.ext
  rw [entries_ofValues (h.keys_eq ▸ d.nodup), ← h.entries_eq]

theorem KeyedBy.mem_values_iff {key : ν → κ} {d : Dict κ ν} (h : d.KeyedBy key) {v : ν} :
    v ∈ d.values ↔ d.get? (key v) = some v := by
  rw [get?_eq_some_iff]
  constructor
  · intro hv
    obtain ⟨entry, hentry, rfl⟩ := List.mem_map.mp hv
    rwa [← h entry hentry]
  · exact fun hv => List.mem_map.mpr ⟨_, hv, rfl⟩

section Told

variable {key : ν → κ} {S : ν → Prop} {d : Dict κ ν}

/-- Where keys tell the values apart, setting one adds it. -/
theorem KeyedBy.mem_values_set (h : d.KeyedBy key) (hinj : ∀ a b, S a → S b → key a = key b → a = b)
    (hd : ∀ v ∈ d.values, S v) {value v : ν} (hvalue : S value) :
    v ∈ (d.set (key value) value).values ↔ v ∈ d.values ∨ v = value := by
  rw [(h.set value).mem_values_iff, get?_set, h.mem_values_iff]
  constructor
  · intro hget
    split at hget
    · exact .inr (Option.some.inj hget).symm
    · exact .inl hget
  · rintro (hget | rfl)
    · split
      · rename_i hkey
        rw [hinj value v hvalue (hd v (h.mem_values_iff.mpr hget)) hkey.symm]
      · exact hget
    · rw [if_pos rfl]

theorem KeyedBy.mem_values_foldl_set (h : d.KeyedBy key)
    (hinj : ∀ a b, S a → S b → key a = key b → a = b) (hd : ∀ v ∈ d.values, S v) {values : List ν}
    (hvalues : ∀ v ∈ values, S v) {v : ν} :
    v ∈ (values.foldl (fun d v => d.set (key v) v) d).values ↔ v ∈ d.values ∨ v ∈ values := by
  induction values generalizing d with
  | nil => simp
  | cons value values ih =>
    have hvalue := hvalues value List.mem_cons_self
    have hset : ∀ u, u ∈ (d.set (key value) value).values ↔ u ∈ d.values ∨ u = value :=
      fun u => h.mem_values_set hinj hd hvalue
    have hnext : ∀ u ∈ (d.set (key value) value).values, S u := fun u hu =>
      ((hset u).mp hu).elim (hd u) fun heq => heq ▸ hvalue
    rw [List.foldl_cons, ih (h.set value) hnext fun u hu => hvalues u (List.mem_cons_of_mem _ hu), hset,
      List.mem_cons, or_assoc]

theorem KeyedBy.mem_values_setdefault (h : d.KeyedBy key)
    (hinj : ∀ a b, S a → S b → key a = key b → a = b) (hd : ∀ v ∈ d.values, S v) {value v : ν}
    (hvalue : S value) : v ∈ (d.setdefault (key value) value).values ↔ v ∈ d.values ∨ v = value := by
  unfold Dict.setdefault
  split
  · rename_i hmem
    refine ⟨.inl, fun hv => hv.elim id ?_⟩
    rintro rfl
    obtain ⟨old, hold⟩ := exists_get? hmem
    have hkey : key v = key old := h _ (mem_of_get? hold)
    rw [hkey, ← h.mem_values_iff] at hold
    rwa [hinj v old hvalue (hd old hold) hkey]
  · show v ∈ (d.entries ++ [(key value, value)]).map Prod.snd ↔ _
    rw [List.map_append, List.mem_append, List.map_singleton, List.mem_singleton]
    rfl

end Told

end Dict

/-- A loop whose every step leaves the state as it is leaves it as it is. -/
theorem foldl_eq_self {α β : Type} {f : β → α → β} {b : β} {l : List α} (h : ∀ a ∈ l, f b a = b) :
    l.foldl f b = b := by
  induction l with
  | nil => rfl
  | cons a l ih =>
    rw [List.foldl_cons, h a List.mem_cons_self]
    exact ih fun x hx => h x (List.mem_cons_of_mem a hx)

/-- What every step keeps, and one item's step establishes, the loop establishes for every item. -/
theorem foldl_establishes {α β : Type} {f : β → α → β} {P : α → β → Prop} {l : List α}
    (hsets : ∀ a ∈ l, ∀ b, P a (f b a)) (hkeeps : ∀ a, ∀ x ∈ l, ∀ b, P a b → P a (f b x)) (b : β) :
    ∀ a ∈ l, P a (l.foldl f b) := by
  have hrun : ∀ (l' : List α), (∀ x ∈ l', x ∈ l) → ∀ a b, P a b → P a (l'.foldl f b) := by
    intro l'
    induction l' with
    | nil => exact fun _ a b h => h
    | cons x l' ih =>
      intro hsub a b h
      exact ih (fun y hy => hsub y (List.mem_cons_of_mem x hy)) a _
        (hkeeps a x (hsub x List.mem_cons_self) b h)
  intro a ha
  obtain ⟨l₁, l₂, rfl⟩ := List.append_of_mem ha
  rw [List.foldl_append, List.foldl_cons]
  exact hrun l₂ (fun x hx => List.mem_append_right l₁ (List.mem_cons_of_mem a hx)) a _ (hsets a ha _)

end RpcStateIndexer.Reasoning
