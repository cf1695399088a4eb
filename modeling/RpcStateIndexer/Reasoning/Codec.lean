import RpcStateIndexer.Reasoning.Except
import Mathlib.Logic.Function.Basic
import Mathlib.Tactic.Ring
import Mathlib.Tactic.Linarith
import Mathlib.Tactic.Positivity

/-!
# Encoders whose output can be told apart

A canonical byte stream is a concatenation of encodings, with no separators and seldom a count.  An
encoder determines what it can be read back to when its output, *followed by anything*, fixes it:
that is what survives concatenation.  The rules below go through a record field by field and through
a list of records, either counted or tagged.
-/

namespace RpcStateIndexer.Reasoning

variable {ε α β γ δ : Type}

/-! ## Parts in sequence -/

/-- The concatenation of the parts; the first part that raises raises. -/
def updates : List (Except ε (List β)) → Except ε (List β)
  | [] => .ok []
  | part :: rest => do
    let bytes ← part
    let following ← updates rest
    return bytes ++ following

theorem updates_nil : updates ([] : List (Except ε (List β))) = .ok [] := rfl

theorem updates_cons (part : Except ε (List β)) (rest : List (Except ε (List β))) :
    updates (part :: rest) =
      (part >>= fun bytes => updates rest >>= fun following => pure (bytes ++ following)) := rfl

@[simp] theorem updates_nil_eq_ok_iff {x : List β} :
    updates ([] : List (Except ε (List β))) = .ok x ↔ x = [] := by
  simp [updates_nil, eq_comm]

@[simp] theorem updates_cons_eq_ok_iff {part : Except ε (List β)} {rest : List (Except ε (List β))}
    {x : List β} : updates (part :: rest) = .ok x ↔
      ∃ bytes following, part = .ok bytes ∧ updates rest = .ok following ∧
        x = bytes ++ following := by
  simp only [updates_cons, except_bind_eq_ok_iff, except_pure_eq_ok_iff]
  constructor
  · rintro ⟨bytes, hpart, following, hrest, rfl⟩
    exact ⟨bytes, following, hpart, hrest, rfl⟩
  · rintro ⟨bytes, following, hpart, hrest, rfl⟩
    exact ⟨bytes, hpart, following, hrest, rfl⟩

/-- Parts that return are concatenated. -/
theorem exists_updates {parts : List (Except ε (List β))}
    (h : ∀ part ∈ parts, ∃ bytes, part = .ok bytes) : ∃ bytes, updates parts = .ok bytes := by
  induction parts with
  | nil => exact ⟨[], rfl⟩
  | cons part parts ih =>
    obtain ⟨⟨bytes, rfl⟩, hrest⟩ := List.forall_mem_cons.mp h
    obtain ⟨rest, hparts⟩ := ih hrest
    refine ⟨bytes ++ rest, ?_⟩
    rw [updates_cons, hparts]
    rfl

theorem exists_updates_iff {parts : List (Except ε (List β))} :
    (∃ bytes, updates parts = .ok bytes) ↔ ∀ part ∈ parts, ∃ bytes, part = .ok bytes := by
  refine ⟨?_, exists_updates⟩
  induction parts with
  | nil => exact fun _ => List.forall_mem_nil _
  | cons part parts ih =>
    rintro ⟨bytes, h⟩
    obtain ⟨own, rest, hpart, hrest, -⟩ := updates_cons_eq_ok_iff.mp h
    exact List.forall_mem_cons.mpr ⟨⟨own, hpart⟩, ih ⟨rest, hrest⟩⟩

theorem exists_of_mem_updates {enc : α → Except ε (List β)} {l : List α} {x : List β}
    (h : updates (l.map enc) = .ok x) {a : α} (ha : a ∈ l) : ∃ y, enc a = .ok y := by
  induction l generalizing x with
  | nil => simp at ha
  | cons b l ih =>
    obtain ⟨y, z, hy, hz, -⟩ := updates_cons_eq_ok_iff.mp h
    rcases List.mem_cons.mp ha with rfl | ha
    · exact ⟨y, hy⟩
    · exact ih hz ha

/-! ## Tags -/

theorem head?_updates {first : β} {bytes : List β} {rest : List (Except ε (List β))} {x : List β}
    (h : updates (.ok (first :: bytes) :: rest) = .ok x) : x.head? = some first := by
  obtain ⟨y, z, hy, -, rfl⟩ := updates_cons_eq_ok_iff.mp h
  cases hy
  rfl

/-- Records under a tag, when there are any, begin with it. -/
theorem head?_records_cons {enc : α → Except ε (List β)} {first : β}
    (htag : ∀ a x, enc a = .ok x → x.head? = some first) {a : α} {l : List α} {x : List β}
    (hx : updates ((a :: l).map enc) = .ok x) (s : List β) : (x ++ s).head? = some first := by
  rw [List.map_cons, updates_cons_eq_ok_iff] at hx
  obtain ⟨y, z, hy, -, rfl⟩ := hx
  rw [List.append_assoc, List.head?_append, htag a y hy]
  rfl

theorem head?_records_ne {enc : α → Except ε (List β)} {first other : β}
    (htag : ∀ a x, enc a = .ok x → x.head? = some first) (hne : first ≠ other) {l : List α}
    {x : List β} (hx : updates (l.map enc) = .ok x) : x.head? ≠ some other := by
  cases l with
  | nil =>
    rw [List.map_nil, updates_nil_eq_ok_iff] at hx
    simp [hx]
  | cons a l =>
    have hhead := head?_records_cons htag hx []
    rw [List.append_nil] at hhead
    rw [hhead]
    simpa using hne

/-! ## What an encoding determines -/

/-- What `enc` writes, followed by anything, fixes `p` of what was written and what follows. -/
def Determines (enc : α → Except ε (List β)) (p : α → γ) : Prop :=
  ∀ ⦃a b : α⦄ ⦃x y s t : List β⦄, enc a = .ok x → enc b = .ok y → x ++ s = y ++ t →
    p a = p b ∧ s = t

/-- The whole input can be read back. -/
def SelfDelimiting (enc : α → Except ε (List β)) : Prop := Determines enc id

namespace Determines

variable {enc : α → Except ε (List β)} {p : α → γ}

/-- A fixed tag determines nothing and is read past. -/
theorem tag (bytes : List β) : Determines (fun _ : α => (.ok bytes : Except ε _)) fun _ => () := by
  intro a b x y s t hx hy h
  cases hx
  cases hy
  exact ⟨rfl, List.append_cancel_left h⟩

theorem nil : Determines (fun _ : α => updates ([] : List (Except ε (List β)))) fun _ => () :=
  tag []

/-- One part after another determines what both determine. -/
theorem cons {first : α → Except ε (List β)} {rest : α → List (Except ε (List β))} {q : α → δ}
    (hfirst : Determines first p) (hrest : Determines (fun a => updates (rest a)) q) :
    Determines (fun a => updates (first a :: rest a)) fun a => (p a, q a) := by
  intro a b x y s t hx hy h
  obtain ⟨x₁, x₂, hx₁, hx₂, rfl⟩ := updates_cons_eq_ok_iff.mp hx
  obtain ⟨y₁, y₂, hy₁, hy₂, rfl⟩ := updates_cons_eq_ok_iff.mp hy
  rw [List.append_assoc, List.append_assoc] at h
  obtain ⟨hp, h⟩ := hfirst hx₁ hy₁ h
  obtain ⟨hq, h⟩ := hrest hx₂ hy₂ h
  exact ⟨Prod.ext hp hq, h⟩

/-- Encoding a field of a record. -/
theorem comap (h : Determines enc p) (field : δ → α) :
    Determines (fun d => enc (field d)) fun d => p (field d) :=
  fun _ _ _ _ _ _ hx hy heq => h hx hy heq

/-- As many records as the other stream has, one after another. -/
theorem records (h : Determines enc p) {l₁ l₂ : List α} {x y s t : List β}
    (hlen : l₁.length = l₂.length) (hx : updates (l₁.map enc) = .ok x)
    (hy : updates (l₂.map enc) = .ok y) (heq : x ++ s = y ++ t) : l₁.map p = l₂.map p ∧ s = t := by
  induction l₁ generalizing l₂ x y with
  | nil =>
    obtain rfl := List.length_eq_zero_iff.mp hlen.symm
    simp only [List.map_nil, updates_nil_eq_ok_iff] at hx hy
    subst hx hy
    exact ⟨rfl, heq⟩
  | cons a l₁ ih =>
    obtain ⟨b, l₂, rfl⟩ := List.exists_cons_of_length_eq_add_one hlen.symm
    rw [List.map_cons, updates_cons_eq_ok_iff] at hx hy
    obtain ⟨x₁, x₂, hx₁, hx₂, rfl⟩ := hx
    obtain ⟨y₁, y₂, hy₁, hy₂, rfl⟩ := hy
    rw [List.append_assoc, List.append_assoc] at heq
    obtain ⟨hp, heq⟩ := h hx₁ hy₁ heq
    obtain ⟨hrest, rfl⟩ := ih (Nat.succ.inj hlen) hx₂ hy₂ heq
    rw [List.map_cons, List.map_cons, hp, hrest]
    exact ⟨rfl, rfl⟩

/-- Enough fields determine the record. -/
theorem selfDelimiting (h : Determines enc p) (hp : Function.Injective p) : SelfDelimiting enc :=
  fun _ _ _ _ _ _ hx hy heq => ⟨hp (h hx hy heq).1, (h hx hy heq).2⟩

end Determines

namespace SelfDelimiting

variable {enc : α → Except ε (List β)}

theorem cancel (h : SelfDelimiting enc) {a b : α} {x y s t : List β} (hx : enc a = .ok x)
    (hy : enc b = .ok y) (heq : x ++ s = y ++ t) : a = b ∧ s = t :=
  h hx hy heq

/-- A code of one width. -/
theorem of_length {n : Nat} (hlen : ∀ a x, enc a = .ok x → x.length = n)
    (hinj : ∀ a b x, enc a = .ok x → enc b = .ok x → a = b) : SelfDelimiting enc := by
  intro a b x y s t hx hy h
  obtain ⟨rfl, rfl⟩ := List.append_inj h ((hlen a x hx).trans (hlen b y hy).symm)
  exact ⟨hinj a b x hx hy, rfl⟩

/-- As many records as the other stream has, one after another. -/
theorem records (h : SelfDelimiting enc) {l₁ l₂ : List α} {x y s t : List β}
    (hlen : l₁.length = l₂.length) (hx : updates (l₁.map enc) = .ok x)
    (hy : updates (l₂.map enc) = .ok y) (heq : x ++ s = y ++ t) : l₁ = l₂ ∧ s = t := by
  have hrecords := Determines.records h hlen hx hy heq
  rwa [List.map_id, List.map_id] at hrecords

/-- A count, and that many records. -/
theorem counted {count : Nat → Except ε (List β)} (hcount : SelfDelimiting count)
    (h : SelfDelimiting enc) :
    SelfDelimiting fun l : List α => updates (count l.length :: l.map enc) := by
  intro l₁ l₂ x y s t hx hy heq
  obtain ⟨x₁, x₂, hx₁, hx₂, rfl⟩ := updates_cons_eq_ok_iff.mp hx
  obtain ⟨y₁, y₂, hy₁, hy₂, rfl⟩ := updates_cons_eq_ok_iff.mp hy
  rw [List.append_assoc, List.append_assoc] at heq
  obtain ⟨hlen, heq⟩ := hcount.cancel hx₁ hy₁ heq
  exact h.records hlen hx₂ hy₂ heq

/-- Records without a count: what follows them does not begin with their tag. -/
theorem tagged {first : β} (h : SelfDelimiting enc)
    (htag : ∀ a x, enc a = .ok x → x.head? = some first) {l₁ l₂ : List α} {x y s t : List β}
    (hx : updates (l₁.map enc) = .ok x) (hy : updates (l₂.map enc) = .ok y)
    (hs : s.head? ≠ some first) (ht : t.head? ≠ some first) (heq : x ++ s = y ++ t) :
    l₁ = l₂ ∧ s = t := by
  induction l₁ generalizing l₂ x y with
  | nil =>
    cases l₂ with
    | nil =>
      simp only [List.map_nil, updates_nil_eq_ok_iff] at hx hy
      subst hx hy
      exact ⟨rfl, heq⟩
    | cons b l₂ =>
      simp only [List.map_nil, updates_nil_eq_ok_iff] at hx
      subst hx
      exact absurd ((congrArg List.head? heq).trans (head?_records_cons htag hy t)) hs
  | cons a l₁ ih =>
    cases l₂ with
    | nil =>
      simp only [List.map_nil, updates_nil_eq_ok_iff] at hy
      subst hy
      exact absurd ((congrArg List.head? heq).symm.trans (head?_records_cons htag hx s)) ht
    | cons b l₂ =>
      rw [List.map_cons, updates_cons_eq_ok_iff] at hx hy
      obtain ⟨x₁, x₂, hx₁, hx₂, rfl⟩ := hx
      obtain ⟨y₁, y₂, hy₁, hy₂, rfl⟩ := hy
      rw [List.append_assoc, List.append_assoc] at heq
      obtain ⟨rfl, heq⟩ := h.cancel hx₁ hy₁ heq
      obtain ⟨rfl, rfl⟩ := ih hx₂ hy₂ heq
      exact ⟨rfl, rfl⟩

end SelfDelimiting

/-- A length, and that many bytes. -/
theorem selfDelimiting_prefixed {count : Nat → Except ε (List β)} (hcount : SelfDelimiting count)
    {bytes : α → List β} (hbytes : Function.Injective bytes) :
    SelfDelimiting fun a => updates [count (bytes a).length, .ok (bytes a)] := by
  intro a b x y s t hx hy h
  obtain ⟨x₁, x₂, hx₁, hx₂, rfl⟩ := updates_cons_eq_ok_iff.mp hx
  obtain ⟨y₁, y₂, hy₁, hy₂, rfl⟩ := updates_cons_eq_ok_iff.mp hy
  simp only [updates_cons_eq_ok_iff, updates_nil_eq_ok_iff, Except.ok.injEq] at hx₂ hy₂
  obtain ⟨_, _, rfl, rfl, rfl⟩ := hx₂
  obtain ⟨_, _, rfl, rfl, rfl⟩ := hy₂
  rw [List.append_nil, List.append_nil, List.append_assoc, List.append_assoc] at h
  obtain ⟨hlen, h⟩ := hcount.cancel hx₁ hy₁ h
  obtain ⟨hbytes', rfl⟩ := List.append_inj h hlen
  exact ⟨hbytes hbytes', rfl⟩

/-- A length, that many bytes, and what follows. -/
theorem Determines.prefixed {count : Nat → Except ε (List β)} (hcount : SelfDelimiting count)
    (bytes : α → List β) {rest : α → List (Except ε (List β))} {q : α → δ}
    (hrest : Determines (fun a => updates (rest a)) q) :
    Determines (fun a => updates (count (bytes a).length :: .ok (bytes a) :: rest a))
      fun a => (bytes a, q a) := by
  intro a b x y s t hx hy h
  obtain ⟨x₁, x₂, hx₁, hx₂, rfl⟩ := updates_cons_eq_ok_iff.mp hx
  obtain ⟨y₁, y₂, hy₁, hy₂, rfl⟩ := updates_cons_eq_ok_iff.mp hy
  obtain ⟨_, x₃, hbytes₁, hx₃, rfl⟩ := updates_cons_eq_ok_iff.mp hx₂
  obtain ⟨_, y₃, hbytes₂, hy₃, rfl⟩ := updates_cons_eq_ok_iff.mp hy₂
  obtain rfl := Except.ok.inj hbytes₁
  obtain rfl := Except.ok.inj hbytes₂
  rw [List.append_assoc, List.append_assoc, List.append_assoc, List.append_assoc] at h
  obtain ⟨hlen, h⟩ := hcount.cancel hx₁ hy₁ h
  obtain ⟨hbytes, h⟩ := List.append_inj h hlen
  obtain ⟨hq, h⟩ := hrest hx₃ hy₃ h
  exact ⟨Prod.ext hbytes hq, h⟩

/-! ## Numbers -/

/-- The number in big-endian bytes, to the width. -/
def bytesBE : Nat → Nat → List UInt8
  | 0, _ => []
  | width + 1, n => bytesBE width (n / 256) ++ [UInt8.ofNat n]

/-- The number that big-endian bytes write. -/
def ofBytesBE (bytes : List UInt8) : Nat :=
  bytes.foldl (fun acc b => 256 * acc + b.toNat) 0

@[simp] theorem length_bytesBE (width n : Nat) : (bytesBE width n).length = width := by
  induction width generalizing n with
  | zero => rfl
  | succ width ih => rw [bytesBE, List.length_append, ih, List.length_singleton]

theorem ofBytesBE_bytesBE {width n : Nat} (h : n < 256 ^ width) :
    ofBytesBE (bytesBE width n) = n := by
  induction width generalizing n with
  | zero =>
    have hn : n = 0 := by simpa using h
    subst hn
    rfl
  | succ width ih =>
    have hdiv : n / 256 < 256 ^ width := by
      rw [Nat.div_lt_iff_lt_mul (by decide)]
      rwa [pow_succ] at h
    have hfold := ih hdiv
    unfold ofBytesBE at hfold ⊢
    rw [bytesBE, List.foldl_append, hfold]
    show 256 * (n / 256) + n % 256 = n
    omega

theorem ofBytesBE_lt (bytes : List UInt8) : ofBytesBE bytes < 256 ^ bytes.length := by
  induction bytes using List.reverseRecOn with
  | nil => exact Nat.one_pos
  | append_singleton bytes b ih =>
    have hb := b.toNat_lt
    unfold ofBytesBE at ih ⊢
    rw [List.foldl_append, List.foldl_cons, List.foldl_nil, List.length_append, List.length_singleton,
      Nat.pow_succ]
    omega

theorem bytesBE_inj {width n m : Nat} (hn : n < 256 ^ width) (hm : m < 256 ^ width)
    (h : bytesBE width n = bytesBE width m) : n = m := by
  rw [← ofBytesBE_bytesBE hn, h, ofBytesBE_bytesBE hm]

/-- A number in the bytes of one width. -/
theorem SelfDelimiting.ofBytesBE {ε : Type} {enc : Nat → Except ε (List UInt8)} (width : Nat)
    (h : ∀ n x, enc n = .ok x → n < 256 ^ width ∧ x = bytesBE width n) : SelfDelimiting enc := by
  apply SelfDelimiting.of_length (n := width)
  · intro n x hn
    rw [(h n x hn).2]
    exact length_bytesBE width n
  · intro n m x hn hm
    exact bytesBE_inj (h n x hn).1 (h m x hm).1 ((h n x hn).2.symm.trans (h m x hm).2)

/-- Two's complement loses nothing on the signed range. -/
theorem emod_inj_of_signed {bits : Nat} {i j : Int} (hi : -2 ^ bits ≤ i) (hi' : i < 2 ^ bits)
    (hj : -2 ^ bits ≤ j) (hj' : j < 2 ^ bits)
    (h : i % 2 ^ (bits + 1) = j % 2 ^ (bits + 1)) : i = j := by
  have hdvd : (2 ^ (bits + 1) : Int) ∣ i - j := 
    Int.dvd_of_emod_eq_zero (Int.emod_eq_emod_iff_emod_sub_eq_zero.mp h)
  have hpow : (2 : Int) ^ (bits + 1) = 2 * 2 ^ bits := by ring
  rw [hpow] at hdvd
  obtain ⟨k, hk⟩ := hdvd
  have hpos : (0 : Int) < 2 ^ bits := by positivity
  -- A difference of a whole modulus or more does not fit between the bounds.
  have hk₁ : k < 1 := by nlinarith
  have hk₂ : -1 < k := by nlinarith
  obtain rfl : k = 0 := by omega
  omega

end RpcStateIndexer.Reasoning
