import Mathlib.Data.List.DropRight
import RpcStateIndexer.Evm.Returndata
import RpcStateIndexer.Reasoning.HeadTail
import RpcStateIndexer.Storage.Digests

/-!
# Display metadata

`symbol()` and `name()` return a dynamic string, and before it was settled a word padded with NULs.
Either is decoded to a clean label, and what is neither is unresolved.
-/

namespace RpcStateIndexer

open Reasoning

/-- A longer claim is a broken encoder, or a payload smuggled into a label. -/
def maxTextLength : Nat := 128

inductive TextEncoding where
  | string
  | bytes32
  | absent
  deriving DecidableEq

structure TextObservation where
  value : Option String
  encoding : TextEncoding
  detail : String
  deriving DecidableEq

namespace TextObservation

def absent (detail : String) : TextObservation := ⟨none, .absent, detail⟩

def resolved (observation : TextObservation) : Bool := observation.value.isSome

end TextObservation

/-! ## Text -/

/-- `raw.decode("utf-8")` -/
def decodeUtf8 (raw : List UInt8) : Option String := String.fromUTF8? ⟨raw.toArray⟩

def isControl (c : Char) : Bool := c.toNat < 0x20 || c.toNat = 0x7F

/-- UTF-8 decode, reject control characters, and drop the white space around the text. -/
def cleanText (raw : List UInt8) : Option String := do
  let text ← decodeUtf8 raw
  if text.toList.any isControl then none
  else
    let stripped := String.ofList (strip text.toList)
    if stripped = "" ∨ maxTextLength < stripped.length then none else some stripped

/-- A dynamic string: the offset, the length, and the payload. -/
def decodeDynamicString (raw : List UInt8) : Option String :=
  if raw.length < 2 * 32 then none
  else
    let offset := ofBytesBE (bytesAt raw 0 32)
    if offset % 32 ≠ 0 ∨ ¬ (0 < offset ∧ offset ≤ raw.length - 32) then none
    else
      let length := ofBytesBE (bytesAt raw offset 32)
      if maxTextLength < length then none
      else
        let bodyStart := offset + 32
        if raw.length < bodyStart + length then none else cleanText (bytesAt raw bodyStart length)

/-- A legacy label, padded with NULs to a word. -/
def decodeBytes32Text (raw : List UInt8) : Option String :=
  if raw.length ≠ 32 then none
  else
    let trimmed := raw.rdropWhile fun b => b = 0
    if trimmed = [] then none else cleanText trimmed

/-- A single word is a label; the dynamic decoder would read its bytes as an offset. -/
def decodeTextReturn (success : Bool) (returndata : Returndata) : TextObservation :=
  match returndata.raw with
  | .error fault => .absent s!"malformed return: {fault.text}"
  | .ok raw =>
    if success = false then .absent "call reverted"
    else if raw = [] then .absent "empty return"
    else if raw.length = 32 then
      match decodeBytes32Text raw with
      | some legacy => ⟨some legacy, .bytes32, ""⟩
      | none => .absent "single word is neither text nor a string head"
    else
      match decodeDynamicString raw with
      | some dynamic => ⟨some dynamic, .string, ""⟩
      | none => .absent "return matches no known string encoding"

/-! ## Decimals -/

/-- Zero is a legitimate answer, so what was not observed is none. -/
def decodeDecimalsReturn (success : Bool) (returndata : Returndata) : Option Nat :=
  match returndata.raw with
  | .error _ => none
  | .ok raw =>
    if success = false ∨ raw.length ≠ 32 then none
    else if 77 < ofBytesBE raw then none
    else some (ofBytesBE raw)

/-! ## The two encodings -/

/-- The return of a function that returns one string. -/
def encodeString (text : String) : Option (List UInt8) := do
  let encoded ← encodeBytes (utf8 text)
  encodeTuple [.byOffset encoded]

def bytes32Text (text : String) : List UInt8 :=
  utf8 text ++ List.replicate (32 - (utf8 text).length) 0

/-- What a label may be: something, with no white space around it and no control character. -/
structure Label (text : String) : Prop where
  nonempty : text ≠ ""
  stripped : strip text.toList = text.toList
  printable : ∀ c ∈ text.toList, isControl c = false

/-! ## Stripping -/

theorem strip_eq (text : List Char) :
    strip text = (text.dropWhile isPythonSpace).rdropWhile isPythonSpace := rfl

theorem dropWhile_rdropWhile {α : Type} (p : α → Bool) (l : List α) :
    ((l.dropWhile p).rdropWhile p).dropWhile p = (l.dropWhile p).rdropWhile p := by
  rw [List.dropWhile_eq_self_iff]
  intro hpos
  have hfront := List.rdropWhile_prefix p (l.dropWhile p)
  -- What is left begins as the text did once its front was dropped.
  have hlt := hpos.trans_le hfront.length_le
  rw [hfront.getElem hpos]
  exact List.dropWhile_get_zero_not p l hlt

theorem strip_strip (text : List Char) : strip (strip text) = strip text := by
  rw [strip_eq (strip text), strip_eq text, dropWhile_rdropWhile, List.rdropWhile_idempotent]

theorem mem_of_mem_strip {text : List Char} {c : Char} (h : c ∈ strip text) : c ∈ text := by
  rw [strip_eq] at h
  exact (List.dropWhile_sublist _).subset ((List.rdropWhile_prefix _ _).subset h)

/-! ## UTF-8 -/

/-- Decoding is the inverse of encoding. -/
theorem decodeUtf8_eq_some_iff {raw : List UInt8} {text : String} :
    decodeUtf8 raw = some text ↔ raw = utf8 text := by
  unfold decodeUtf8 String.fromUTF8? utf8
  constructor
  · intro h
    split at h
    · obtain rfl := Option.some.inj h
      rfl
    · cases h
  · rintro rfl
    rw [Array.toArray_toList, dif_pos text.isValidUTF8]
    rfl

theorem utf8_eq_flatMap (text : String) : utf8 text = text.toList.flatMap String.utf8EncodeChar := by
  rw [utf8, ← String.utf8Encode_toList, List.utf8Encode, List.data_toByteArray, List.toList_toArray]

/-- Only NUL has a zero byte in its encoding. -/
theorem ne_zero_of_mem_utf8EncodeChar {c : Char} (hc : 0 < c.toNat) {b : UInt8}
    (hb : b ∈ String.utf8EncodeChar c) : b ≠ 0 := by
  have hzero : ∀ n, (0 : UInt8) = UInt8.ofNat n → n % 256 = 0 := by
    intro n hn
    have htoNat := congrArg UInt8.toNat hn
    rw [UInt8.toNat_ofNat'] at htoNat
    exact htoNat.symm
  rintro rfl
  unfold String.utf8EncodeChar at hb
  rw [show c.val.toNat = c.toNat from rfl] at hb
  dsimp only at hb
  -- The byte of an ASCII character is its code, and every other byte has its top bit set.
  split at hb
  · have hcode := hzero _ (List.mem_singleton.mp hb)
    omega
  · split at hb
    · rcases List.mem_pair.mp hb with h | h <;> have := hzero _ h <;> omega
    · split at hb <;> simp only [List.mem_cons, List.not_mem_nil, or_false] at hb
      · rcases hb with h | h | h <;> have := hzero _ h <;> omega
      · rcases hb with h | h | h | h <;> have := hzero _ h <;> omega

theorem length_le_length_utf8 (text : String) : text.length ≤ (utf8 text).length := by
  rw [utf8_eq_flatMap, List.length_flatMap, ← String.length_toList]
  generalize text.toList = chars
  induction chars with
  | nil => exact Nat.zero_le _
  | cons c chars ih =>
    have hpos := c.utf8Size_pos
    rw [List.map_cons, List.sum_cons, String.length_utf8EncodeChar, List.length_cons]
    omega

theorem ne_nil_of_utf8 {text : String} (h : text ≠ "") : utf8 text ≠ [] := by
  intro hnil
  have hlength := length_le_length_utf8 text
  rw [hnil, List.length_nil] at hlength
  exact h (String.length_eq_zero_iff.mp (by omega))

/-! ## Clean text -/

/-- What is accepted is a label of bounded length. -/
theorem label_of_cleanText {raw : List UInt8} {text : String} (h : cleanText raw = some text) :
    Label text ∧ text.length ≤ maxTextLength := by
  simp only [cleanText, bind, Option.bind_eq_some_iff] at h
  obtain ⟨decoded, -, h⟩ := h
  split at h
  · cases h
  rename_i hcontrol
  split at h
  · cases h
  rename_i hbounds
  obtain rfl := Option.some.inj h
  rw [not_or, not_lt] at hbounds
  refine ⟨⟨hbounds.1, ?_, fun c hc => ?_⟩, hbounds.2⟩
  · rw [String.toList_ofList, strip_strip]
  rw [String.toList_ofList] at hc
  refine eq_false_of_ne_true fun hno => hcontrol ?_
  exact List.any_eq_true.mpr ⟨c, mem_of_mem_strip hc, hno⟩

namespace Label

variable {text : String}

theorem cleanText_utf8 (h : Label text) (hlength : (utf8 text).length ≤ maxTextLength) :
    cleanText (utf8 text) = some text := by
  have hbound := (length_le_length_utf8 text).trans hlength
  have hcontrol : text.toList.any isControl ≠ true := by
    rw [ne_eq, List.any_eq_true]
    rintro ⟨c, hc, hno⟩
    rw [h.printable c hc] at hno
    cases hno
  simp only [cleanText, decodeUtf8_eq_some_iff.mpr rfl, bind, Option.bind_some]
  rw [if_neg hcontrol, h.stripped, String.ofList_toList, if_neg (not_or.mpr ⟨h.nonempty, not_lt.mpr hbound⟩)]

/-- The padding of a label is all that its NULs are. -/
theorem rdropWhile_pad (h : Label text) (count : Nat) :
    (utf8 text ++ List.replicate count 0).rdropWhile (fun b => b = 0) = utf8 text := by
  induction count with
  | zero =>
    rw [List.replicate_zero, List.append_nil, List.rdropWhile_eq_self_iff]
    intro hne
    have hlast := List.getLast_mem hne
    simp only [utf8_eq_flatMap, List.mem_flatMap] at hlast
    obtain ⟨c, hc, hb⟩ := hlast
    have hcode : 0 < c.toNat := by
      have hprintable := h.printable c hc
      simp only [isControl, Bool.or_eq_false_iff, decide_eq_false_iff_not] at hprintable
      omega
    simpa [utf8_eq_flatMap] using ne_zero_of_mem_utf8EncodeChar hcode hb
  | succ count ih =>
    rw [List.replicate_succ', ← List.append_assoc, List.rdropWhile_concat_pos _ _ _ (by decide), ih]

end Label

/-! ## Returns -/

/-- A string that stands at the aligned offset of its head is decoded as it stands there. -/
theorem decodeDynamicString_of_standsAt {raw word body : List UInt8} {offset : Nat}
    (hword : uintWord offset = some word) (hhead : StandsAt raw word 0) (haligned : offset % 32 = 0)
    (hpos : 0 < offset) (hlength : ofBytesBE (bytesAt raw offset 32) = body.length)
    (hbody : StandsAt raw body (offset + 32)) (hshort : body.length ≤ maxTextLength) :
    decodeDynamicString raw = cleanText body := by
  have hend := hbody.le_length
  unfold decodeDynamicString
  dsimp only
  rw [hhead.ofBytesBE_bytesAt hword, hlength, if_neg (by omega), if_neg (by omega), if_neg (by omega),
    if_neg (by omega), hbody.bytesAt_eq]

theorem exists_encodeString {text : String} (hshort : (utf8 text).length ≤ maxTextLength) :
    ∃ raw, encodeString text = some raw := by
  rw [maxTextLength] at hshort
  have hcount : uintWord (utf8 text).length = some (bytesBE 32 (utf8 text).length) := if_pos (by omega)
  obtain ⟨encoded, hencoded⟩ : ∃ encoded, encodeBytes (utf8 text) = some encoded := by
    simp only [encodeBytes, hcount, bind, Option.bind_some]
    exact ⟨_, rfl⟩
  have hlength : encoded.length < 2 ^ 255 := by
    simp only [encodeBytes, hcount, bind, Option.bind_some, pure, Option.some.injEq] at hencoded
    rw [← hencoded]
    simp only [List.length_append, length_bytesBE, List.length_replicate]
    omega
  obtain ⟨raw, hraw⟩ := exists_encodeTuple [.byOffset encoded] (by simp only [headSize, tailSize]; omega)
  exact ⟨raw, by simp only [encodeString, hencoded, bind, Option.bind_some, hraw]⟩

theorem decodeTextReturn_encodeString {text : String} (hlabel : Label text)
    (hshort : (utf8 text).length ≤ maxTextLength) {raw : List UInt8} (hraw : encodeString text = some raw)
    {returndata : Returndata} (h : returndata.raw = .ok raw) :
    decodeTextReturn true returndata = ⟨some text, .string, ""⟩ := by
  simp only [encodeString, bind, Option.bind_eq_some_iff] at hraw
  obtain ⟨encoded, hencoded, htuple⟩ := hraw
  obtain ⟨⟨word, hword, hhead⟩, hat, -⟩ := placed_of_encodeTuple htuple
  simp only [headSize] at hword hat
  obtain ⟨hlength, hbody⟩ := hat.encodeBytes hencoded
  have hdecoded := decodeDynamicString_of_standsAt hword hhead rfl (by decide) hlength hbody hshort
  rw [hlabel.cleanText_utf8 hshort] at hdecoded
  -- With the payload the return is longer than one word.
  have hend := hbody.le_length
  have hne : raw ≠ [] := by
    rintro rfl
    simp at hend
  unfold decodeTextReturn
  rw [h]
  dsimp only
  rw [if_neg (by decide), if_neg hne, if_neg (by omega), hdecoded]

theorem decodeTextReturn_bytes32Text {text : String} (hlabel : Label text)
    (hshort : (utf8 text).length ≤ 32) {returndata : Returndata}
    (h : returndata.raw = .ok (bytes32Text text)) :
    decodeTextReturn true returndata = ⟨some text, .bytes32, ""⟩ := by
  have hne := ne_nil_of_utf8 hlabel.nonempty
  have hlength : (bytes32Text text).length = 32 := by
    rw [bytes32Text, List.length_append, List.length_replicate]
    omega
  have hsome : bytes32Text text ≠ [] := by
    intro hnil
    rw [hnil] at hlength
    cases hlength
  have hdecoded : decodeBytes32Text (bytes32Text text) = some text := by
    unfold decodeBytes32Text
    dsimp only
    rw [if_neg (not_not.mpr hlength), bytes32Text, hlabel.rdropWhile_pad, if_neg hne]
    exact hlabel.cleanText_utf8 (hshort.trans (by decide))
  unfold decodeTextReturn
  rw [h]
  dsimp only
  rw [if_neg (by decide), if_neg hsome, if_pos hlength, hdecoded]

theorem exists_cleanText_of_dynamic {raw : List UInt8} {text : String}
    (h : decodeDynamicString raw = some text) : ∃ body, cleanText body = some text := by
  unfold decodeDynamicString at h
  dsimp only at h
  split at h
  · cases h
  split at h
  · cases h
  split at h
  · cases h
  split at h
  · cases h
  · exact ⟨_, h⟩

theorem exists_cleanText_of_bytes32 {raw : List UInt8} {text : String}
    (h : decodeBytes32Text raw = some text) : ∃ body, cleanText body = some text := by
  unfold decodeBytes32Text at h
  dsimp only at h
  split at h
  · cases h
  split at h
  · cases h
  · exact ⟨_, h⟩

/-- A resolved value was accepted as clean text. -/
theorem exists_cleanText_of_value {success : Bool} {returndata : Returndata} {text : String}
    (h : (decodeTextReturn success returndata).value = some text) :
    ∃ body, cleanText body = some text := by
  unfold decodeTextReturn at h
  split at h
  · cases h
  split at h
  · cases h
  split at h
  · cases h
  split at h
  · split at h
    · cases h
      exact exists_cleanText_of_bytes32 ‹_›
    · cases h
  · split at h
    · cases h
      exact exists_cleanText_of_dynamic ‹_›
    · cases h

/-- Either encoding of a label is decoded to it, and whatever is decoded is a label. -/
theorem metadata_text_exact :
    (∀ text, Label text → (utf8 text).length ≤ maxTextLength →
        ∃ raw, encodeString text = some raw ∧ ∀ returndata : Returndata, returndata.raw = .ok raw →
          decodeTextReturn true returndata = ⟨some text, .string, ""⟩) ∧
      (∀ text, Label text → (utf8 text).length ≤ 32 →
        ∀ returndata : Returndata, returndata.raw = .ok (bytes32Text text) →
          decodeTextReturn true returndata = ⟨some text, .bytes32, ""⟩) ∧
      ∀ success returndata text, (decodeTextReturn success returndata).value = some text →
        Label text ∧ text.length ≤ maxTextLength := by
  refine ⟨fun text hlabel hshort => ?_, fun text hlabel hshort _ =>
    decodeTextReturn_bytes32Text hlabel hshort, fun success returndata text hvalue => ?_⟩
  · obtain ⟨raw, hraw⟩ := exists_encodeString hshort
    exact ⟨raw, hraw, fun _ => decodeTextReturn_encodeString hlabel hshort hraw⟩
  · obtain ⟨raw, hclean⟩ := exists_cleanText_of_value hvalue
    exact label_of_cleanText hclean

end RpcStateIndexer
