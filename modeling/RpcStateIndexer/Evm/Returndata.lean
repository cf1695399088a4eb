import RpcStateIndexer.Evm.Decoding
import RpcStateIndexer.Execution.Base

/-!
# Scalars from returned data

The grammar that hex data are read by, and the two families of decoders of one word.  `bytes.fromhex`
reads past white space, and the scalar decoders of the concentrated-liquidity fields read the first word
of a longer return.
-/

namespace RpcStateIndexer

open Reasoning

/-! ## Hex data -/

/-- Pairs of hex digits, with white space before, between and after them. -/
inductive SpacedHex : List Char → Prop
  | nil : SpacedHex []
  | space {c : Char} {rest : List Char} (blank : isAsciiSpace c = true) (tail : SpacedHex rest) :
      SpacedHex (c :: rest)
  | byte {c d : Char} {rest : List Char} (high : isHexDigit c = true) (low : isHexDigit d = true)
      (tail : SpacedHex rest) : SpacedHex (c :: d :: rest)

theorem isAsciiSpace_of_isHexDigit {c : Char} (h : isHexDigit c = true) : isAsciiSpace c = false := by
  refine char_of_small (P := fun c => isHexDigit c = true → isAsciiSpace c = false) ?_ c
    (toNat_lt_of_isHexDigit h) h
  decide

theorem bytesFromHex_space {c : Char} (hspace : isAsciiSpace c = true) (rest : List Char) :
    bytesFromHex (c :: rest) = bytesFromHex rest := by
  rw [bytesFromHex.eq_def]
  exact if_pos hspace

/-- `bytes.fromhex` reads spaced pairs of digits and nothing else. -/
theorem exists_bytesFromHex_iff {body : List Char} :
    (∃ bytes, bytesFromHex body = some bytes) ↔ SpacedHex body := by
  induction body using bytesFromHex.induct with
  | case1 => exact iff_of_true ⟨[], rfl⟩ .nil
  | case2 c rest hspace ih =>
    rw [bytesFromHex_space hspace, ih]
    refine ⟨.space hspace, fun h => ?_⟩
    cases h with
    | space _ tail => exact tail
    | byte high =>
      rw [isAsciiSpace_of_isHexDigit high] at hspace
      cases hspace
  | case3 c hspace =>
    refine iff_of_false ?_ ?_
    · rintro ⟨bytes, hno⟩
      rw [bytesFromHex, if_neg hspace] at hno
      cases hno
    · intro h
      cases h with
      | space blank => exact hspace blank
  | case4 c hspace d rest hdigits ih =>
    rw [bytesFromHex, if_neg hspace, if_pos hdigits]
    rw [Bool.and_eq_true] at hdigits
    simp only [Option.map_eq_some_iff]
    constructor
    · rintro ⟨_, bytes, hbytes, -⟩
      exact .byte hdigits.1 hdigits.2 (ih.mp ⟨bytes, hbytes⟩)
    · intro h
      cases h with
      | space blank => exact absurd blank hspace
      | byte _ _ tail =>
        obtain ⟨bytes, hbytes⟩ := ih.mpr tail
        exact ⟨_, bytes, hbytes, rfl⟩
  | case5 c hspace d rest hdigits =>
    refine iff_of_false ?_ ?_
    · rintro ⟨bytes, hno⟩
      rw [bytesFromHex, if_neg hspace, if_neg hdigits] at hno
      cases hno
    · intro h
      cases h with
      | space blank => exact hspace blank
      | byte high low => exact hdigits (by rw [high, low, Bool.and_self])

theorem digitChar_eq_toLower {c : Char} (h : isHexDigit c = true) :
    (hexDigitValue c).digitChar = c.toLower ∧ hexDigitValue c < 16 := by
  refine char_of_small (P := fun c => isHexDigit c = true →
    (hexDigitValue c).digitChar = c.toLower ∧ hexDigitValue c < 16) ?_ c (toNat_lt_of_isHexDigit h) h
  decide

theorem hexByte_ofNat {c d : Char} (hc : isHexDigit c = true) (hd : isHexDigit d = true) :
    hexByte (UInt8.ofNat (16 * hexDigitValue c + hexDigitValue d)) = [c.toLower, d.toLower] := by
  obtain ⟨hhigh, hhighLt⟩ := digitChar_eq_toLower hc
  obtain ⟨hlow, hlowLt⟩ := digitChar_eq_toLower hd
  have hbyte : (UInt8.ofNat (16 * hexDigitValue c + hexDigitValue d)).toNat =
      16 * hexDigitValue c + hexDigitValue d := UInt8.toNat_ofNat_of_lt' (by simp [UInt8.size]; omega)
  rw [hexByte, hbyte, ← hhigh, ← hlow]
  congr 2
  · omega
  · congr 1
    omega

/-- Of digits alone the bytes write the text in lower case. -/
theorem flatMap_bytesFromHex {body : List Char} (hspaced : SpacedHex body)
    (hdigits : ∀ c ∈ body, isHexDigit c = true) {bytes : List UInt8}
    (h : bytesFromHex body = some bytes) : bytes.flatMap hexByte = body.map Char.toLower := by
  induction hspaced generalizing bytes with
  | nil =>
    cases h
    rfl
  | space blank _ _ =>
    rw [isAsciiSpace_of_isHexDigit (hdigits _ List.mem_cons_self)] at blank
    cases blank
  | @byte c d rest high low tail ih =>
    rw [bytesFromHex, if_neg (by rw [isAsciiSpace_of_isHexDigit high]; exact Bool.false_ne_true)] at h
    rw [if_pos (by rw [high, low, Bool.and_self]), Option.map_eq_some_iff] at h
    obtain ⟨others, hothers, rfl⟩ := h
    have hrest : ∀ x ∈ rest, isHexDigit x = true := fun x hx =>
      hdigits x (List.mem_cons_of_mem c (List.mem_cons_of_mem d hx))
    rw [List.flatMap_cons, hexByte_ofNat high low, ih hrest hothers]
    rfl

theorem spacedHex_of_digits {body : List Char} (heven : body.length % 2 = 0)
    (hdigits : ∀ c ∈ body, isHexDigit c = true) : SpacedHex body := by
  induction body using fromHex.induct with
  | case1 high low rest ih =>
    obtain ⟨hhigh, hlow, hrest⟩ : isHexDigit high = true ∧ isHexDigit low = true ∧
        ∀ c ∈ rest, isHexDigit c = true := by simpa only [List.forall_mem_cons] using hdigits
    exact .byte hhigh hlow (ih (by simp only [List.length_cons] at heven; omega) hrest)
  | case2 body hshort =>
    rcases body with - | ⟨a, - | ⟨b, rest⟩⟩
    · exact .nil
    · cases heven
    · exact absurd rfl (hshort a b rest)

theorem SpacedHex.digits {body : List Char} (h : SpacedHex body)
    (hblank : ∀ c ∈ body, isAsciiSpace c = false) : ∀ c ∈ body, isHexDigit c = true := by
  induction h with
  | nil => exact List.forall_mem_nil _
  | space blank _ _ =>
    rw [hblank _ List.mem_cons_self] at blank
    cases blank
  | byte high low _ ih =>
    obtain ⟨-, -, hrest⟩ : _ ∧ _ ∧ _ := by simpa only [List.forall_mem_cons] using hblank
    exact List.forall_mem_cons.mpr ⟨high, List.forall_mem_cons.mpr ⟨low, ih hrest⟩⟩

/-- What is read is `0x` and an even number of characters, spaced pairs of digits. -/
theorem exists_hexDataToBytes_iff {value : String} :
    (∃ bytes, hexDataToBytes value = .ok bytes) ↔
      ∃ body, hexBody value = some body ∧ body.length % 2 = 0 ∧ SpacedHex body := by
  unfold hexDataToBytes
  cases hbody : hexBody value with
  | none => exact iff_of_false (fun ⟨_, hno⟩ => error_ne_ok hno) (fun ⟨_, hno, _⟩ => by cases hno)
  | some body =>
    dsimp only
    by_cases heven : body.length % 2 = 0
    · rw [if_neg (not_not.mpr heven)]
      cases hbytes : bytesFromHex body with
      | none =>
        refine iff_of_false (fun ⟨_, hno⟩ => error_ne_ok hno) ?_
        rintro ⟨_, ⟨⟩, -, hspaced⟩
        obtain ⟨bytes, hsome⟩ := exists_bytesFromHex_iff.mpr hspaced
        rw [hbytes] at hsome
        cases hsome
      | some bytes =>
        exact iff_of_true ⟨bytes, rfl⟩ ⟨body, rfl, heven, exists_bytesFromHex_iff.mp ⟨bytes, hbytes⟩⟩
    · rw [if_pos heven]
      refine iff_of_false (fun ⟨_, hno⟩ => error_ne_ok hno) ?_
      rintro ⟨_, ⟨⟩, hno, -⟩
      exact heven hno

/-! ## The scalar of a return -/

/-- Returned data, raw or as the RPC writes them. -/
inductive Returndata where
  | bytes (raw : List UInt8)
  | text (value : String)
  deriving DecidableEq

def Returndata.raw : Returndata → Except RpcFault (List UInt8)
  | .bytes raw => .ok raw
  | .text value => hexDataToBytes value

namespace UIntObservation

/-- `decode_uint256` of any call. -/
def decodeReturn (success : Bool) (returndata : Returndata) : UIntObservation :=
  match returndata.raw with
  | .error fault =>
    failed .malformedReturn [] (some fault.text) ObservationStatus.noConfusion
  | .ok raw =>
    if success then decodeUint256 raw
    else failed .reverted raw none ObservationStatus.noConfusion

end UIntObservation

/-- The hex data that the grammar means: accepted and read back exactly, and refused otherwise. -/
structure ReadsStrictly (value : String) : Prop where
  accepts : (∃ bytes, hexDataToBytes value = .ok bytes) ↔ isHexData value = true
  reads : ∀ bytes, hexDataToBytes value = .ok bytes → hexData bytes = value.toLower
  raises : ∀ fault, hexDataToBytes value = .error fault → ∃ message, fault = .valueError message
  scalar : (UIntObservation.decodeReturn true (.text value)).ok = true → isHexData value = true

/-- The text is `0x` and an even number of characters, pairs of digits with white space among them. -/
def Blanked (value : String) : Prop :=
  ∃ body, hexBody value = some body ∧ body.length % 2 = 0 ∧ SpacedHex body ∧
    ∃ c ∈ body, isAsciiSpace c = true

theorem isHexData_iff {value : String} : isHexData value = true ↔
    ∃ body, hexBody value = some body ∧ body.length % 2 = 0 ∧ ∀ c ∈ body, isHexDigit c = true := by
  unfold isHexData
  cases hexBody value with
  | none => simp
  | some body => simp

theorem exists_valueError {value : String} {fault : RpcFault} (h : hexDataToBytes value = .error fault) :
    ∃ message, fault = .valueError message := by
  unfold hexDataToBytes at h
  split at h
  · split at h
    · cases h
      exact ⟨_, rfl⟩
    · split at h
      · cases h
      · cases h
        exact ⟨_, rfl⟩
  · cases h
    exact ⟨_, rfl⟩

/-- A scalar that is read from a text was read from its bytes. -/
theorem exists_bytes_of_ok {value : String}
    (h : (UIntObservation.decodeReturn true (.text value)).ok = true) :
    ∃ bytes, hexDataToBytes value = .ok bytes := by
  unfold UIntObservation.decodeReturn Returndata.raw at h
  cases hbytes : hexDataToBytes value with
  | ok bytes => exact ⟨bytes, rfl⟩
  | error fault =>
    simp only [hbytes] at h
    cases h

/-- What is read of a text of digits writes it in lower case. -/
theorem hexData_eq_toLower {value : String} (hvalue : isHexData value = true) {bytes : List UInt8}
    (h : hexDataToBytes value = .ok bytes) : hexData bytes = value.toLower := by
  obtain ⟨body, hbody, heven, hdigits⟩ := isHexData_iff.mp hvalue
  unfold hexDataToBytes at h
  simp only [hbody, heven, ne_eq, not_true_eq_false, if_false] at h
  cases hread : bytesFromHex body with
  | none =>
    rw [hread] at h
    cases h
  | some read =>
    rw [hread] at h
    cases h
    have htext := flatMap_bytesFromHex (spacedHex_of_digits heven hdigits) hdigits hread
    rw [← String.toList_inj, hexData, hexText, String.toList_ofList, toLower_toList,
      hexBody_eq_some_iff.mp hbody, htext]
    rfl

/-- The data are read strictly exactly where no white space stands among the pairs of digits. -/
theorem hexDataToBytes_strict_iff (value : String) : ReadsStrictly value ↔ ¬ Blanked value := by
  constructor
  · rintro hstrict ⟨body, hbody, heven, hspaced, c, hc, hblank⟩
    obtain ⟨body', hbody', -, hdigits⟩ := isHexData_iff.mp
      (hstrict.accepts.mp (exists_hexDataToBytes_iff.mpr ⟨body, hbody, heven, hspaced⟩))
    rw [hbody] at hbody'
    cases hbody'
    rw [isAsciiSpace_of_isHexDigit (hdigits c hc)] at hblank
    cases hblank
  · intro hplain
    have haccepts : (∃ bytes, hexDataToBytes value = .ok bytes) ↔ isHexData value = true := by
      rw [exists_hexDataToBytes_iff, isHexData_iff]
      constructor
      · rintro ⟨body, hbody, heven, hspaced⟩
        refine ⟨body, hbody, heven, hspaced.digits fun c hc => ?_⟩
        exact eq_false_of_ne_true fun hblank => hplain ⟨body, hbody, heven, hspaced, c, hc, hblank⟩
      · rintro ⟨body, hbody, heven, hdigits⟩
        exact ⟨body, hbody, heven, spacedHex_of_digits heven hdigits⟩
    exact ⟨haccepts, fun bytes hbytes => hexData_eq_toLower (haccepts.mp ⟨bytes, hbytes⟩) hbytes,
      fun _ => exists_valueError, fun hok => haccepts.mp (exists_bytes_of_ok hok)⟩

/-- Two spaces after a byte are read past. -/
theorem trailing_blanks_are_read : ¬ ReadsStrictly "0x0a  " := by
  intro hstrict
  have hspaced : SpacedHex ['0', 'a', ' ', ' '] :=
    .byte (by decide) (by decide) (.space (by decide) (.space (by decide) .nil))
  have haccepted := hstrict.accepts.mp (exists_hexDataToBytes_iff.mpr
    ⟨['0', 'a', ' ', ' '], by decide +kernel, rfl, hspaced⟩)
  revert haccepted
  decide +kernel

/-! ## The two families -/

/-- The decoders of a word agree on the payload, and each raises unless it is one word. -/
structure ScalarsAgree (raw : List UInt8) : Prop where
  agree : ∀ value, decodeUintReturn raw 256 = .ok value ↔
    (UIntObservation.decodeReturn true (.bytes raw)).ok = true ∧
      (UIntObservation.decodeReturn true (.bytes raw)).value = some value
  unsigned : ∀ bits, bits % 8 = 0 → 0 < bits → bits ≤ 256 → raw.length ≠ 32 →
    ∃ message, decodeUintReturn raw bits = .error message
  signed : ∀ bits, 0 < bits → bits ≤ 256 → raw.length ≠ 32 →
    ∃ message, decodeIntReturn raw bits = .error message

theorem decodeReturn_bytes (raw : List UInt8) :
    UIntObservation.decodeReturn true (.bytes raw) = UIntObservation.decodeUint256 raw := rfl

theorem ok_and_value_iff {raw : List UInt8} {value : Nat} :
    ((UIntObservation.decodeUint256 raw).ok = true ∧
      (UIntObservation.decodeUint256 raw).value = some value) ↔
        raw.length = 32 ∧ value = ofBytesBE raw := by
  rw [← UIntObservation.decodeUint256_eq_some_iff]
  refine and_iff_right_of_imp fun hvalue => ?_
  rw [UIntObservation.ok_iff_isSome, hvalue]
  rfl

/-- Of a whole word every payload of a word or more is read, from its first word. -/
theorem decodeUintReturn_256 {raw : List UInt8} (h : 32 ≤ raw.length) :
    decodeUintReturn raw 256 = .ok (ofBytesBE (raw.take 32)) := by
  unfold decodeUintReturn word decodeUint
  rw [if_neg (by omega), if_neg (by omega)]
  rfl

theorem scalar_strictness_iff (raw : List UInt8) : ScalarsAgree raw ↔ raw.length ≤ 32 := by
  constructor
  · intro hagree
    by_contra hlong
    have hread := @decodeUintReturn_256 raw (by omega)
    have hok := (hagree.agree _).mp hread
    rw [decodeReturn_bytes, ok_and_value_iff] at hok
    omega
  · intro hshort
    have hraise : raw.length ≠ 32 → raw.length < 32 := by omega
    refine ⟨fun value => ?_, fun bits _ _ _ hlength => ?_, fun bits _ _ hlength => ?_⟩
    · rw [decodeReturn_bytes, ok_and_value_iff]
      by_cases hlength : raw.length = 32
      · rw [decodeUintReturn_256 hlength.ge, List.take_of_length_le hshort, Except.ok.injEq,
          and_iff_right hlength, eq_comm]
      · refine iff_of_false ?_ fun hno => hlength hno.1
        unfold decodeUintReturn
        rw [if_pos (hraise hlength)]
        exact error_ne_ok
    · exact ⟨_, if_pos (hraise hlength)⟩
    · exact ⟨_, if_pos (hraise hlength)⟩

/-- Two words are read as the first of them. -/
theorem two_words_are_read : ¬ ScalarsAgree (List.replicate 64 0) := by
  intro hagree
  obtain ⟨message, hraise⟩ := hagree.unsigned 256 rfl (by decide) le_rfl (by decide)
  have hread : decodeUintReturn (List.replicate 64 0) 256 = .ok 0 := by decide +kernel
  rw [hread] at hraise
  cases hraise

end RpcStateIndexer
