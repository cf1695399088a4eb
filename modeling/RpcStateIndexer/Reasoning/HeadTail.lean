import RpcStateIndexer.Reasoning.Codec

/-!
# Heads and tails

The layout of a tuple of the contract ABI.  A static component is written in place; a dynamic one is
written after all the heads, and its head is the offset of that place.  What is proved of an encoding is
where in it each component stands, which is all that a decoder by offsets reads.
-/

namespace RpcStateIndexer.Reasoning

/-! ## Slices -/

/-- `raw[start : start + size]` -/
def bytesAt (raw : List UInt8) (start size : Nat) : List UInt8 := (raw.drop start).take size

/-- The bytes stand whole at the position. -/
def StandsAt (raw bytes : List UInt8) (start : Nat) : Prop :=
  ∃ before after, raw = before ++ (bytes ++ after) ∧ before.length = start

theorem length_bytesAt {raw : List UInt8} {start size : Nat} (h : start + size ≤ raw.length) :
    (bytesAt raw start size).length = size := by
  rw [bytesAt, List.length_take, List.length_drop]
  omega

theorem standsAt_whole (raw : List UInt8) : StandsAt raw raw 0 :=
  ⟨[], [], (List.append_nil raw).symm, rfl⟩

namespace StandsAt

variable {raw bytes xs ys : List UInt8} {start : Nat}

theorem bytesAt_eq (h : StandsAt raw bytes start) : bytesAt raw start bytes.length = bytes := by
  obtain ⟨before, after, rfl, rfl⟩ := h
  rw [bytesAt, List.drop_left, List.take_left]

theorem le_length (h : StandsAt raw bytes start) : start + bytes.length ≤ raw.length := by
  obtain ⟨before, after, rfl, rfl⟩ := h
  simp only [List.length_append]
  omega

/-- Bytes in two parts stand one after the other. -/
theorem append_iff : StandsAt raw (xs ++ ys) start ↔
    StandsAt raw xs start ∧ StandsAt raw ys (start + xs.length) := by
  constructor
  · rintro ⟨before, after, rfl, rfl⟩
    refine ⟨⟨before, ys ++ after, ?_, rfl⟩, ⟨before ++ xs, after, ?_, List.length_append⟩⟩
    · rw [List.append_assoc]
    · simp only [List.append_assoc]
  · rintro ⟨⟨before, after, rfl, rfl⟩, ⟨before', after', hraw, hlength⟩⟩
    -- What stands before the second part is what stands before the first, and the first.
    rw [← List.append_assoc] at hraw
    obtain ⟨hbefore, hafter⟩ := List.append_inj hraw (by rw [hlength, List.length_append])
    exact ⟨before, after', by rw [hafter, List.append_assoc], rfl⟩

end StandsAt

/-! ## Words -/

/-- An unsigned number as a word; a larger one has none. -/
def uintWord (n : Nat) : Option (List UInt8) :=
  if n < 2 ^ 256 then some (bytesBE 32 n) else none

theorem uintWord_eq_some_iff {n : Nat} {bytes : List UInt8} :
    uintWord n = some bytes ↔ n < 2 ^ 256 ∧ bytes = bytesBE 32 n := by
  unfold uintWord
  split
  · rename_i hlt
    rw [Option.some.injEq, and_iff_right hlt, eq_comm]
  · rename_i hlt
    exact iff_of_false (fun hno => by cases hno) fun hno => hlt hno.1

theorem length_of_uintWord {n : Nat} {bytes : List UInt8} (h : uintWord n = some bytes) :
    bytes.length = 32 := by
  rw [(uintWord_eq_some_iff.mp h).2, length_bytesBE]

theorem ofBytesBE_of_uintWord {n : Nat} {bytes : List UInt8} (h : uintWord n = some bytes) :
    ofBytesBE bytes = n := by
  obtain ⟨hlt, hbytes⟩ := uintWord_eq_some_iff.mp h
  have hwidth : n < 256 ^ 32 := hlt.trans_eq (by norm_num)
  rw [hbytes, ofBytesBE_bytesBE hwidth]

/-- A word that stands at a position is read back by the slice there. -/
theorem StandsAt.ofBytesBE_bytesAt {raw bytes : List UInt8} {start n : Nat}
    (h : StandsAt raw bytes start) (hword : uintWord n = some bytes) :
    ofBytesBE (bytesAt raw start 32) = n := by
  have hsegment := h.bytesAt_eq
  rw [length_of_uintWord hword] at hsegment
  rw [hsegment, ofBytesBE_of_uintWord hword]

/-- A dynamic array of elements: their number, and the elements one after another. -/
def encodeArray (elements : List (List UInt8)) : Option (List UInt8) := do
  let count ← uintWord elements.length
  return count ++ elements.flatten

theorem encodeArray_eq_some_iff {elements : List (List UInt8)} {bytes : List UInt8} :
    encodeArray elements = some bytes ↔
      ∃ count, uintWord elements.length = some count ∧ bytes = count ++ elements.flatten := by
  simp only [encodeArray, bind, Option.bind_eq_some_iff, pure, Option.some.injEq]
  exact exists_congr fun count => and_congr_right fun _ => eq_comm

theorem length_flatten_of_width {elements : List (List UInt8)} {width : Nat}
    (h : ∀ element ∈ elements, element.length = width) :
    elements.flatten.length = width * elements.length := by
  induction elements with
  | nil => rfl
  | cons element elements ih =>
    obtain ⟨helement, helements⟩ := List.forall_mem_cons.mp h
    rw [List.flatten_cons, List.length_append, List.length_cons, ih helements, helement, Nat.mul_succ,
      Nat.add_comm]

theorem length_encodeArray {elements : List (List UInt8)} {bytes : List UInt8} {width : Nat}
    (hwidth : ∀ element ∈ elements, element.length = width) (h : encodeArray elements = some bytes) :
    bytes.length = 32 + width * elements.length := by
  obtain ⟨count, hcount, rfl⟩ := encodeArray_eq_some_iff.mp h
  rw [List.length_append, length_of_uintWord hcount, length_flatten_of_width hwidth]

/-- Elements of one width stand at the multiples of the width. -/
theorem StandsAt.element {raw : List UInt8} {elements : List (List UInt8)} {start width : Nat}
    (hwidth : ∀ element ∈ elements, element.length = width)
    (h : StandsAt raw elements.flatten start) {i : Nat} (hi : i < elements.length) :
    StandsAt raw elements[i] (start + i * width) := by
  induction elements generalizing start i with
  | nil => simp at hi
  | cons element elements ih =>
    obtain ⟨helement, helements⟩ := List.forall_mem_cons.mp hwidth
    rw [List.flatten_cons, StandsAt.append_iff, helement] at h
    cases i with
    | zero =>
      rw [Nat.zero_mul, Nat.add_zero]
      exact h.1
    | succ i =>
      have hrest := ih helements h.2 (Nat.lt_of_succ_lt_succ hi)
      rwa [Nat.add_assoc, Nat.add_comm width, ← Nat.succ_mul] at hrest

/-- Dynamic bytes: their number, and the bytes with zeros up to a whole word. -/
def encodeBytes (bytes : List UInt8) : Option (List UInt8) := do
  let count ← uintWord bytes.length
  return count ++ (bytes ++ List.replicate ((32 - bytes.length % 32) % 32) 0)

/-- Bytes that stand at an offset follow their length. -/
theorem StandsAt.encodeBytes {raw bytes encoded : List UInt8} {start : Nat}
    (hencoded : encodeBytes bytes = some encoded) (h : StandsAt raw encoded start) :
    ofBytesBE (bytesAt raw start 32) = bytes.length ∧ StandsAt raw bytes (start + 32) := by
  simp only [Reasoning.encodeBytes, bind, Option.bind_eq_some_iff, pure, Option.some.injEq] at hencoded
  obtain ⟨count, hcount, rfl⟩ := hencoded
  obtain ⟨hhead, hbody⟩ := StandsAt.append_iff.mp h
  rw [length_of_uintWord hcount] at hbody
  exact ⟨hhead.ofBytesBE_bytesAt hcount, (StandsAt.append_iff.mp hbody).1⟩

/-! ## Tuples -/

inductive Component where
  | inPlace (bytes : List UInt8)
  | byOffset (bytes : List UInt8)

/-- The size of the heads; that of a dynamic component is a word. -/
def headSize : List Component → Nat
  | [] => 0
  | .inPlace bytes :: rest => bytes.length + headSize rest
  | .byOffset _ :: rest => 32 + headSize rest

def tailSize : List Component → Nat
  | [] => 0
  | .inPlace _ :: rest => tailSize rest
  | .byOffset bytes :: rest => bytes.length + tailSize rest

/-- The heads and the tails; the first tail stands at the offset. -/
def layout (offset : Nat) : List Component → Option (List UInt8 × List UInt8)
  | [] => some ([], [])
  | .inPlace bytes :: rest => do
    let (heads, tails) ← layout offset rest
    return (bytes ++ heads, tails)
  | .byOffset bytes :: rest => do
    let head ← uintWord offset
    let (heads, tails) ← layout (offset + bytes.length) rest
    return (head ++ heads, bytes ++ tails)

def encodeTuple (components : List Component) : Option (List UInt8) := do
  let (heads, tails) ← layout (headSize components) components
  return heads ++ tails

/-- Each component stands where it is looked for: in place, or where its head says. -/
def Placed (raw : List UInt8) : Nat → Nat → List Component → Prop
  | _, _, [] => True
  | head, tail, .inPlace bytes :: rest =>
    StandsAt raw bytes head ∧ Placed raw (head + bytes.length) tail rest
  | head, tail, .byOffset bytes :: rest =>
    (∃ word, uintWord tail = some word ∧ StandsAt raw word head) ∧ StandsAt raw bytes tail ∧
      Placed raw (head + 32) (tail + bytes.length) rest

theorem layout_inPlace {offset : Nat} {bytes heads tails : List UInt8} {rest : List Component} :
    layout offset (.inPlace bytes :: rest) = some (heads, tails) ↔
      ∃ following, layout offset rest = some (following, tails) ∧ heads = bytes ++ following := by
  simp only [layout, bind, Option.bind_eq_some_iff, pure, Option.some.injEq, Prod.exists, Prod.mk.injEq]
  constructor
  · rintro ⟨following, _, hrest, rfl, rfl⟩
    exact ⟨following, hrest, rfl⟩
  · rintro ⟨following, hrest, rfl⟩
    exact ⟨following, tails, hrest, rfl, rfl⟩

theorem layout_byOffset {offset : Nat} {bytes heads tails : List UInt8} {rest : List Component} :
    layout offset (.byOffset bytes :: rest) = some (heads, tails) ↔
      ∃ head following others, uintWord offset = some head ∧
        layout (offset + bytes.length) rest = some (following, others) ∧
          heads = head ++ following ∧ tails = bytes ++ others := by
  simp only [layout, bind, Option.bind_eq_some_iff, pure, Option.some.injEq, Prod.exists, Prod.mk.injEq]
  constructor
  · rintro ⟨head, hhead, following, others, hrest, rfl, rfl⟩
    exact ⟨head, following, others, hhead, hrest, rfl, rfl⟩
  · rintro ⟨head, following, others, hhead, hrest, rfl, rfl⟩
    exact ⟨head, hhead, following, others, hrest, rfl, rfl⟩

theorem length_heads {components : List Component} {offset : Nat} {heads tails : List UInt8}
    (h : layout offset components = some (heads, tails)) : heads.length = headSize components := by
  induction components generalizing offset heads tails with
  | nil =>
    cases h
    rfl
  | cons component rest ih =>
    cases component with
    | inPlace bytes =>
      obtain ⟨following, hrest, rfl⟩ := layout_inPlace.mp h
      rw [List.length_append, ih hrest, headSize]
    | byOffset bytes =>
      obtain ⟨head, following, others, hhead, hrest, rfl, rfl⟩ := layout_byOffset.mp h
      rw [List.length_append, ih hrest, headSize, length_of_uintWord hhead]

theorem placed_of_layout {raw heads tails : List UInt8} {components : List Component} {head tail : Nat}
    (h : layout tail components = some (heads, tails)) (hheads : StandsAt raw heads head)
    (htails : StandsAt raw tails tail) : Placed raw head tail components := by
  induction components generalizing head tail heads tails with
  | nil => trivial
  | cons component rest ih =>
    cases component with
    | inPlace bytes =>
      obtain ⟨following, hrest, rfl⟩ := layout_inPlace.mp h
      obtain ⟨hbytes, hfollowing⟩ := StandsAt.append_iff.mp hheads
      exact ⟨hbytes, ih hrest hfollowing htails⟩
    | byOffset bytes =>
      obtain ⟨word, following, others, hword, hrest, rfl, rfl⟩ := layout_byOffset.mp h
      obtain ⟨hhead, hfollowing⟩ := StandsAt.append_iff.mp hheads
      obtain ⟨hbytes, hothers⟩ := StandsAt.append_iff.mp htails
      rw [length_of_uintWord hword] at hfollowing
      exact ⟨⟨word, hword, hhead⟩, hbytes, ih hrest hfollowing hothers⟩

/-- The encoding of a tuple has every component where its decoder looks. -/
theorem placed_of_encodeTuple {components : List Component} {raw : List UInt8}
    (h : encodeTuple components = some raw) : Placed raw 0 (headSize components) components := by
  simp only [encodeTuple, bind, Option.bind_eq_some_iff, pure, Option.some.injEq, Prod.exists] at h
  obtain ⟨heads, tails, hlayout, rfl⟩ := h
  obtain ⟨hheads, htails⟩ := StandsAt.append_iff.mp (standsAt_whole (heads ++ tails))
  rw [Nat.zero_add, length_heads hlayout] at htails
  exact placed_of_layout hlayout hheads htails

theorem exists_layout {components : List Component} {offset : Nat}
    (h : offset + tailSize components < 2 ^ 256) :
    ∃ heads tails, layout offset components = some (heads, tails) := by
  induction components generalizing offset with
  | nil => exact ⟨[], [], rfl⟩
  | cons component rest ih =>
    cases component with
    | inPlace bytes =>
      obtain ⟨heads, tails, hrest⟩ := ih h
      exact ⟨_, _, layout_inPlace.mpr ⟨heads, hrest, rfl⟩⟩
    | byOffset bytes =>
      rw [tailSize] at h
      obtain ⟨heads, tails, hrest⟩ := @ih (offset + bytes.length) (by omega)
      exact ⟨_, _, layout_byOffset.mpr
        ⟨_, heads, tails, uintWord_eq_some_iff.mpr ⟨by omega, rfl⟩, hrest, rfl, rfl⟩⟩

/-- A tuple whose encoding is shorter than the largest offset has one. -/
theorem exists_encodeTuple (components : List Component)
    (h : headSize components + tailSize components < 2 ^ 256) :
    ∃ raw, encodeTuple components = some raw := by
  obtain ⟨heads, tails, hlayout⟩ := exists_layout h
  refine ⟨heads ++ tails, ?_⟩
  rw [encodeTuple, hlayout]
  rfl

end RpcStateIndexer.Reasoning
