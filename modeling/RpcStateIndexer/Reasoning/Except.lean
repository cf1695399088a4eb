import Mathlib.Data.List.Forall2

/-!
# Inverting computations that may raise

From a computation that returned, what each of its parts returned.
-/

namespace RpcStateIndexer.Reasoning

variable {ε α β : Type}

theorem error_ne_ok {e : ε} {a : α} : (.error e : Except ε α) ≠ .ok a := by
  intro h
  cases h

theorem ok_ne_error {e : ε} {a : α} : (.ok a : Except ε α) ≠ .error e := error_ne_ok.symm

theorem ok_of_toOption {x : Except ε α} {a : α} (h : x.toOption = some a) : x = .ok a := by
  cases x with
  | error e => cases h
  | ok b => exact congrArg Except.ok (Option.some.inj h)

/-- Raise the exception unless the condition holds. -/
def check (condition : Bool) (e : ε) : Except ε Unit :=
  if condition then .ok () else .error e

@[simp] theorem check_eq_ok_iff {condition : Bool} {e : ε} {u : Unit} :
    check condition e = .ok u ↔ condition = true := by
  cases condition <;> simp [check]

@[simp] theorem except_ok_bind (a : α) (f : α → Except ε β) : (.ok a >>= f) = f a := rfl

@[simp] theorem except_bind_eq_ok_iff {x : Except ε α} {f : α → Except ε β} {b : β} :
    (x >>= f) = .ok b ↔ ∃ a, x = .ok a ∧ f a = .ok b := by
  cases x with
  | error e => simp [bind, Except.bind]
  | ok a => simp [bind, Except.bind]

theorem except_bind_eq_error_iff {x : Except ε α} {f : α → Except ε β} {e : ε} :
    (x >>= f) = .error e ↔ x = .error e ∨ ∃ a, x = .ok a ∧ f a = .error e := by
  cases x with
  | error e' => simp [bind, Except.bind]
  | ok a => simp [bind, Except.bind]

@[simp] theorem except_pure_eq_ok_iff {a b : α} : (pure a : Except ε α) = .ok b ↔ a = b := by
  simp [pure, Except.pure]

@[simp] theorem except_mapError_eq_ok_iff {ε' : Type} {f : ε → ε'} {x : Except ε α} {a : α} :
    x.mapError f = .ok a ↔ x = .ok a := by
  cases x <;> simp [Except.mapError]

/-- A traversal returns exactly when it returns on every item, in order. -/
theorem mapM_eq_ok_iff {f : α → Except ε β} {l : List α} {l' : List β} :
    l.mapM f = .ok l' ↔ List.Forall₂ (fun a b => f a = .ok b) l l' := by
  induction l generalizing l' with
  | nil => simp [pure, Except.pure, eq_comm]
  | cons a l ih =>
    rw [List.mapM_cons]
    simp only [except_bind_eq_ok_iff, except_pure_eq_ok_iff, ih, List.forall₂_cons_left_iff]
    constructor
    · rintro ⟨b, hb, bs, hbs, rfl⟩
      exact ⟨b, bs, hb, hbs, rfl⟩
    · rintro ⟨b, bs, hb, hbs, rfl⟩
      exact ⟨b, hb, bs, hbs, rfl⟩

/-- A traversal of partial results is total exactly when each of them is there, in order. -/
theorem mapM_eq_some_iff {f : α → Option β} {l : List α} {l' : List β} :
    l.mapM f = some l' ↔ List.Forall₂ (fun a b => f a = some b) l l' := by
  induction l generalizing l' with
  | nil => simp [eq_comm]
  | cons a l ih =>
    simp only [List.mapM_cons, bind, Option.bind_eq_some_iff, pure, Option.some.injEq, ih,
      List.forall₂_cons_left_iff]
    constructor
    · rintro ⟨b, hb, bs, hbs, rfl⟩
      exact ⟨b, bs, hb, hbs, rfl⟩
    · rintro ⟨b, bs, hb, hbs, rfl⟩
      exact ⟨b, hb, bs, hbs, rfl⟩

theorem exists_mapM_eq_some {f : α → Option β} {l : List α} (h : ∀ a ∈ l, ∃ b, f a = some b) :
    ∃ l', l.mapM f = some l' := by
  induction l with
  | nil => exact ⟨[], rfl⟩
  | cons a l ih =>
    obtain ⟨⟨b, hb⟩, hrest⟩ := List.forall_mem_cons.mp h
    obtain ⟨bs, hbs⟩ := ih hrest
    exact ⟨b :: bs, mapM_eq_some_iff.mpr (.cons hb (mapM_eq_some_iff.mp hbs))⟩

theorem mapM_eq_ok_length {f : α → Except ε β} {l : List α} {l' : List β}
    (h : l.mapM f = .ok l') : l'.length = l.length :=
  (mapM_eq_ok_iff.mp h).length_eq.symm

theorem forall₂_left {R : α → β → Prop} {l : List α} {l' : List β} (h : List.Forall₂ R l l')
    {a : α} (ha : a ∈ l) : ∃ b ∈ l', R a b := by
  induction h with
  | nil => simp at ha
  | cons hab _ ih =>
    rcases List.mem_cons.mp ha with rfl | ha
    · exact ⟨_, by simp, hab⟩
    · obtain ⟨b, hb, hR⟩ := ih ha
      exact ⟨b, by simp [hb], hR⟩

theorem forall₂_right {R : α → β → Prop} {l : List α} {l' : List β} (h : List.Forall₂ R l l')
    {b : β} (hb : b ∈ l') : ∃ a ∈ l, R a b := by
  obtain ⟨a, ha, hR⟩ := forall₂_left h.flip hb
  exact ⟨a, ha, hR⟩

/-- Every output of a traversal comes from an input. -/
theorem exists_of_mem_mapM {f : α → Except ε β} {l : List α} {l' : List β}
    (h : l.mapM f = .ok l') {b : β} (hb : b ∈ l') : ∃ a ∈ l, f a = .ok b :=
  forall₂_right (mapM_eq_ok_iff.mp h) hb

/-- Every input of a traversal has an output. -/
theorem exists_of_mem_of_mapM {f : α → Except ε β} {l : List α} {l' : List β}
    (h : l.mapM f = .ok l') {a : α} (ha : a ∈ l) : ∃ b ∈ l', f a = .ok b :=
  forall₂_left (mapM_eq_ok_iff.mp h) ha

/-- A traversal returns when it returns on every item. -/
theorem mapM_isOk {f : α → Except ε β} {l : List α}
    (h : ∀ a ∈ l, ∃ b, f a = .ok b) : ∃ l', l.mapM f = .ok l' := by
  induction l with
  | nil => exact ⟨[], rfl⟩
  | cons a l ih =>
    obtain ⟨b, hb⟩ := h a (by simp)
    obtain ⟨l', hl'⟩ := ih fun x hx => h x (by simp [hx])
    exact ⟨b :: l', by rw [List.mapM_cons, hb, except_ok_bind, hl']; rfl⟩

/-- A traversal that returns on every item as it should returns so. -/
theorem exists_mapM_forall₂ {f : α → Except ε β} {R : α → β → Prop} {l : List α}
    (h : ∀ a ∈ l, ∃ b, f a = .ok b ∧ R a b) : ∃ l', l.mapM f = .ok l' ∧ List.Forall₂ R l l' := by
  induction l with
  | nil => exact ⟨[], rfl, .nil⟩
  | cons a l ih =>
    obtain ⟨⟨b, hb, hR⟩, hrest⟩ := List.forall_mem_cons.mp h
    obtain ⟨l', hl', hall⟩ := ih hrest
    exact ⟨b :: l', by rw [List.mapM_cons, hb, except_ok_bind, hl']; rfl, .cons hR hall⟩

/-- A traversal that raises does so on an item. -/
theorem exists_of_mapM_eq_error {f : α → Except ε β} {l : List α} {e : ε}
    (h : l.mapM f = .error e) : ∃ a ∈ l, f a = .error e := by
  induction l with
  | nil => cases h
  | cons a l ih =>
    rw [List.mapM_cons] at h
    cases ha : f a with
    | error e' =>
      rw [ha] at h
      cases h
      exact ⟨a, List.mem_cons_self, ha⟩
    | ok b =>
      rw [ha, except_ok_bind] at h
      cases hl : l.mapM f with
      | ok bs =>
        rw [hl] at h
        cases h
      | error e' =>
        rw [hl] at h
        cases h
        obtain ⟨a', ha', hraise⟩ := ih hl
        exact ⟨a', List.mem_cons_of_mem a ha', hraise⟩

/-- A fold that raises does so on an item. -/
theorem exists_of_foldlM_eq_error {f : β → α → Except ε β} {l : List α} {b : β} {e : ε}
    (h : l.foldlM f b = .error e) : ∃ b', ∃ a ∈ l, f b' a = .error e := by
  induction l generalizing b with
  | nil => cases h
  | cons a l ih =>
    rw [List.foldlM_cons] at h
    cases ha : f b a with
    | error e' =>
      rw [ha] at h
      cases h
      exact ⟨b, a, List.mem_cons_self, ha⟩
    | ok b' =>
      rw [ha, except_ok_bind] at h
      obtain ⟨b'', a', ha', hraise⟩ := ih h
      exact ⟨b'', a', List.mem_cons_of_mem a ha', hraise⟩

/-- A loop for its checks returns exactly when each of them does. -/
theorem forM_eq_ok_iff {f : α → Except ε Unit} {l : List α} :
    l.forM f = .ok () ↔ ∀ a ∈ l, f a = .ok () := by
  induction l with
  | nil => exact iff_of_true rfl (List.forall_mem_nil _)
  | cons a l ih =>
    rw [List.forall_mem_cons, ← ih]
    change (f a >>= fun _ => l.forM f) = .ok () ↔ _
    rw [except_bind_eq_ok_iff]
    exact ⟨fun ⟨(), h⟩ => h, fun h => ⟨(), h⟩⟩

/-- The first condition that holds ends the search; one that raises before it is not passed over. -/
def anyOf : List (Except ε Bool) → Except ε Bool
  | [] => .ok false
  | condition :: rest => do
    if ← condition then return true
    anyOf rest

theorem exists_anyOf {l : List (Except ε Bool)} (h : ∀ x ∈ l, ∃ b, x = .ok b) :
    ∃ b, anyOf l = .ok b ∧ (b = true ↔ .ok true ∈ l) := by
  induction l with
  | nil => exact ⟨false, rfl, by simp⟩
  | cons x rest ih =>
    obtain ⟨⟨b, rfl⟩, hrest⟩ := List.forall_mem_cons.mp h
    obtain ⟨found, hfound, hiff⟩ := ih hrest
    cases b with
    | true => exact ⟨true, rfl, by simp⟩
    | false => exact ⟨found, hfound, by simp [hiff]⟩

/-! ## Association lists -/

theorem mem_of_lookup_eq_some {κ : Type} [BEq κ] [LawfulBEq κ] {entries : List (κ × β)} {key : κ} {value : β}
    (h : entries.lookup key = some value) : (key, value) ∈ entries := by
  obtain ⟨before, after, rfl, -⟩ := List.lookup_eq_some_iff.mp h
  exact List.mem_append_right _ (.head _)

/-- Where no key repeats, an entry is what its key is looked up to. -/
theorem mem_iff_lookup {κ : Type} [DecidableEq κ] {entries : List (κ × β)}
    (hnodup : (entries.map Prod.fst).Nodup) {key : κ} {value : β} :
    (key, value) ∈ entries ↔ entries.lookup key = some value := by
  induction entries with
  | nil => simp
  | cons entry rest ih =>
    obtain ⟨k, v⟩ := entry
    rw [List.map_cons, List.nodup_cons] at hnodup
    rw [List.mem_cons, List.lookup_cons]
    by_cases hk : key = k
    · subst hk
      have hnot : (key, value) ∉ rest := fun hmem =>
        hnodup.1 (List.mem_map.mpr ⟨_, hmem, rfl⟩)
      simp [hnot, eq_comm]
    · have hbeq : (key == k) = false := by simpa using hk
      simp [hk, hbeq, ih hnodup.2]

/-- Where no key repeats, an item is what its key is found to. -/
theorem find?_eq_some_iff_of_nodup {κ : Type} [DecidableEq κ] {f : α → κ} {l : List α}
    (hnodup : (l.map f).Nodup) {key : κ} {a : α} :
    l.find? (fun x => decide (f x = key)) = some a ↔ a ∈ l ∧ f a = key := by
  induction l with
  | nil => simp
  | cons b rest ih =>
    rw [List.map_cons, List.nodup_cons] at hnodup
    rw [List.find?_cons, List.mem_cons]
    by_cases hkey : f b = key
    · simp only [hkey, decide_true, Option.some.injEq]
      constructor
      · rintro rfl
        exact ⟨.inl rfl, hkey⟩
      · rintro ⟨rfl | hmem, ha⟩
        · rfl
        · rw [hkey, ← ha] at hnodup
          exact absurd (List.mem_map_of_mem hmem) hnodup.1
    · simp only [hkey, decide_false, ih hnodup.2]
      constructor
      · rintro ⟨hmem, ha⟩
        exact ⟨.inr hmem, ha⟩
      · rintro ⟨rfl | hmem, ha⟩
        · exact absurd ha hkey
        · exact ⟨hmem, ha⟩

/-- A traversal of more items has what the traversal of the first ones has, and more after it. -/
theorem mapM_initial {f : α → Except ε β} {l l' : List α} {bs bs' : List β} (h : l <+: l')
    (hl : l.mapM f = .ok bs) (hl' : l'.mapM f = .ok bs') : bs <+: bs' := by
  obtain ⟨more, rfl⟩ := h
  rw [List.mapM_append, except_bind_eq_ok_iff] at hl'
  obtain ⟨first, hfirst, hrest⟩ := hl'
  obtain rfl := Except.ok.inj (hl.symm.trans hfirst)
  rw [except_bind_eq_ok_iff] at hrest
  obtain ⟨last, -, hlast⟩ := hrest
  obtain rfl := Except.ok.inj hlast
  exact List.prefix_append ..

/-! ## Computations that return at least what others do -/

/-- The second computation returns what the first does, if that returns. -/
def Refines (x y : Except ε α) : Prop := ∀ a, x = .ok a → y = .ok a

namespace Refines

theorem refl (x : Except ε α) : Refines x x := fun _ h => h

theorem error (e : ε) (y : Except ε α) : Refines (.error e) y :=
  fun _ h => absurd h error_ne_ok

theorem bind {x y : Except ε α} {f g : α → Except ε β} (h : Refines x y)
    (hrest : ∀ a, Refines (f a) (g a)) : Refines (x >>= f) (y >>= g) := by
  intro b hb
  rw [except_bind_eq_ok_iff] at hb ⊢
  obtain ⟨a, ha, hfa⟩ := hb
  exact ⟨a, h a ha, hrest a b hfa⟩

theorem mapM {f g : α → Except ε β} (h : ∀ a, Refines (f a) (g a)) (l : List α) :
    Refines (l.mapM f) (l.mapM g) := by
  intro bs hbs
  rw [mapM_eq_ok_iff] at hbs ⊢
  exact hbs.imp fun a b hab => h a b hab

end Refines

end RpcStateIndexer.Reasoning
