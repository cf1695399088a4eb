import RpcStateIndexer.Collectors.Common
import RpcStateIndexer.Execution.LegacyBatchCorrect

/-!
# A revert as an observation

The text of an error decides its kind, and a contract chooses most of the text of its revert.  The
markers of a provider's failures are looked for first.  The error is part of the digest of its batch, which
takes a code of 64 bits.
-/

namespace RpcStateIndexer

open Reasoning Program

/-! ## Markers in a text -/

theorem infix_around_iff {marker before after : List Char} {c : Char} (hc : c ∉ marker) :
    marker <:+: before ++ c :: after ↔ marker <:+: before ∨ marker <:+: after := by
  rw [List.infix_append_iff, List.infix_cons_iff]
  constructor
  · rintro (h | (h | h) | ⟨l₁, l₂, rfl, hsuffix, hprefix⟩)
    · exact .inl h
    · cases marker with
      | nil => exact .inl List.nil_infix
      | cons d rest =>
        obtain ⟨rfl, -⟩ := List.cons_prefix_cons.mp h
        exact absurd List.mem_cons_self hc
    · exact .inr h
    · cases l₂ with
      | nil => exact .inl (by rw [List.append_nil]; exact hsuffix.isInfix)
      | cons d rest =>
        obtain ⟨rfl, -⟩ := List.cons_prefix_cons.mp hprefix
        exact absurd (List.mem_append_right _ List.mem_cons_self) hc
  · rintro (h | h)
    · exact .inl h
    · exact .inr (.inl (.inr h))

/-- A character that no marker has splits a text in two that are searched on their own. -/
theorem anyMarker_around {markers : List String} {before after : List Char} {c : Char}
    (hc : ∀ marker ∈ markers, c ∉ marker.toList) :
    anyMarker markers (before ++ c :: after) = (anyMarker markers before || anyMarker markers after) := by
  rw [Bool.eq_iff_iff, Bool.or_eq_true]
  simp only [anyMarker, List.any_eq_true, decide_eq_true_eq, ← exists_or, ← and_or_left]
  exact exists_congr fun marker => and_congr_right fun hmem => infix_around_iff (hc marker hmem)

theorem anyMarker_append_left {markers : List String} {before after : List Char}
    (h : anyMarker markers before = true) : anyMarker markers (before ++ after) = true := by
  simp only [anyMarker, List.any_eq_true, decide_eq_true_eq] at h ⊢
  obtain ⟨marker, hmem, hinfix⟩ := h
  exact ⟨marker, hmem, List.infix_append_of_infix_left hinfix⟩

/-! ## The error of a revert -/

/-- What a node says of a call that reverted, and what the contract says after it. -/
def revertMessage (reason : String) : String := "execution reverted" ++ reason

def revertError (code : Int) (reason : String) (data : Json) : RpcFault :=
  .response code (revertMessage reason) data

/-- The folded text of a code. -/
def foldedCode (code : Int) : List Char := (s!"JSON-RPC error {code}").toList.flatMap casefoldChar

/-- The folded text of a message behind the code of its error. -/
def foldedBehind (code : Int) (message : String) : List Char :=
  foldedCode code ++ ':' :: (' ' :: message.toList.flatMap casefoldChar)

theorem foldedMessage_null (code : Int) (message : String) :
    foldedMessage (.response code message .null) = foldedBehind code message := by
  have htext : (RpcFault.response code message .null).text.toList =
      (s!"JSON-RPC error {code}").toList ++ (':' :: ' ' :: message.toList) := by
    have hassoc : (RpcFault.response code message .null).text =
        s!"JSON-RPC error {code}" ++ (": " ++ message) := String.append_assoc
    have hcolon : (": " ++ message).toList = ':' :: ' ' :: message.toList := String.toList_append
    rw [hassoc, ← hcolon]
    exact String.toList_append
  rw [foldedMessage, htext, List.flatMap_append, foldedBehind, foldedCode]
  rfl

theorem foldedBehind_prefix (code : Int) (message : String) (data : Json) :
    foldedBehind code message <+: foldedMessage (.response code message data) := by
  rw [← foldedMessage_null]
  cases data with
  | null => exact List.prefix_rfl
  | _ =>
    rw [foldedMessage, foldedMessage, String.toList_append, String.toList_append, List.append_assoc,
      List.flatMap_append]
    · exact List.prefix_append _ _
    · exact Json.noConfusion

/-- A message that is free of markers behind its code is free of them behind the code -1. -/
theorem anyMarker_foldedBehind {markers : List String} (code : Int) {code' : Int} {message : String}
    (hcolon : ∀ marker ∈ markers, ':' ∉ marker.toList)
    (hcode : code' = code ∨ anyMarker markers (foldedCode code') = false)
    (h : anyMarker markers (foldedBehind code message) = false) :
    anyMarker markers (foldedBehind code' message) = false := by
  rw [foldedBehind, anyMarker_around hcolon, Bool.or_eq_false_iff] at h ⊢
  obtain rfl | hcode := hcode
  · exact h
  · exact ⟨hcode, h.2⟩

/-- Nothing in the error reads as a failure of the provider. -/
structure NoProviderFailure (code : Int) (reason : String) (data : Json) : Prop where
  archive : anyMarker archiveMarkers (foldedMessage (revertError code reason data)) = false
  limit : anyMarker limitMarkers (foldedMessage (revertError code reason data)) = false
  code : code ∉ limitCodes

/-- The code that a result is looked at with. -/
def probeCode (code : Int) : Int := if code = 0 then -1 else code

theorem probeCode_notMem {code : Int} (h : code ∉ limitCodes) : probeCode code ∉ limitCodes := by
  rw [probeCode]
  split
  · decide
  · exact h

/-- What holds of an error as it came holds of it without its data. -/
theorem NoProviderFailure.probed {code : Int} {reason : String} {data : Json}
    (h : NoProviderFailure code reason data) : NoProviderFailure (probeCode code) reason .null := by
  have hfree : ∀ markers : List String, (∀ marker ∈ markers, ':' ∉ marker.toList) →
      anyMarker markers (foldedCode (-1)) = false →
      anyMarker markers (foldedMessage (revertError code reason data)) = false →
      anyMarker markers (foldedMessage (revertError (probeCode code) reason .null)) = false := by
    intro markers hcolon hminus hmarkers
    obtain ⟨rest, hrest⟩ := foldedBehind_prefix code (revertMessage reason) data
    rw [revertError, ← hrest] at hmarkers
    rw [revertError, foldedMessage_null]
    refine anyMarker_foldedBehind code hcolon ?_
      (eq_false_of_ne_true fun htrue => ?_)
    · rw [probeCode]
      split
      · exact .inr hminus
      · exact .inl rfl
    · rw [anyMarker_append_left htrue] at hmarkers
      cases hmarkers
  refine ⟨hfree _ (by decide +kernel) (by decide +kernel) h.archive,
    hfree _ (by decide +kernel) (by decide +kernel) h.limit, ?_⟩
  exact probeCode_notMem h.code

section Legacy

variable {endpoint : EndpointConfig} {calls : List ContractCall} {anchor : BlockRef}
  {t : List (Sigma RpcAns)} {results : List RawCallResult} {reference : Json}

end Legacy

end RpcStateIndexer
