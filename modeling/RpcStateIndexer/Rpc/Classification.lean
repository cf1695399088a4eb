import Mathlib.Data.List.Infix
import RpcStateIndexer.Evm.Json

/-!
# Failures of the RPC

The exceptions of the RPC layer and of the executors, and how a failure decides between a retry, another
endpoint, a smaller batch and giving up.
-/

namespace RpcStateIndexer

/-! ## `str` of a decoded document -/

/-- A character of a quoted text. -/
def reprChar (c : Char) : List Char :=
  if c = '\\' then ['\\', '\\']
  else if c = '\n' then ['\\', 'n']
  else if c = '\r' then ['\\', 'r']
  else if c = '\t' then ['\\', 't']
  else if c.toNat < 32 ∨ c.toNat = 127 then
    ['\\', 'x', Nat.digitChar (c.toNat / 16), Nat.digitChar (c.toNat % 16)]
  else [c]

/-- A text in quotes: single ones, unless it has a single quote and no double one. -/
def reprText (text : String) : String :=
  if '\'' ∈ text.toList ∧ '"' ∉ text.toList then
    "\"" ++ String.ofList (text.toList.flatMap reprChar) ++ "\""
  else
    "'" ++ String.ofList (text.toList.flatMap fun c => if c = '\'' then ['\\', '\''] else reprChar c)
      ++ "'"

mutual

def Json.repr : Json → String
  | .null => "None"
  | .bool true => "True"
  | .bool false => "False"
  | .int value => toString value
  | .float text => text
  | .str value => reprText value
  | .arr items => "[" ++ ", ".intercalate (Json.reprItems items) ++ "]"
  | .obj fields => "\x7b" ++ ", ".intercalate (Json.reprFields fields) ++ "\x7d"

def Json.reprItems : List Json → List String
  | [] => []
  | item :: items => item.repr :: Json.reprItems items

def Json.reprFields : List (String × Json) → List String
  | [] => []
  | (key, value) :: fields => (reprText key ++ ": " ++ value.repr) :: Json.reprFields fields

end

/-- Python's `str`: a text stands for itself, and quoted inside of something else. -/
def Json.pyStr : Json → String
  | .str value => value
  | value => value.repr

/-! ## Exceptions -/

/-- What the RPC layer and the executors raise, with the text of the exception. -/
inductive RpcFault where
  | archiveUnavailable (message : String)
  | providerLimit (message : String)
  | http (statusCode : Nat) (reason : String)
  | transport (message : String)
  | protocol (message : String)
  | response (code : Int) (message : String) (data : Json)
  | noHealthyEndpoint (message : String)
  /-- `BatchVerificationError` or the named subclass of it -/
  | verification (className message : String)
  | unsupportedRange (message : String)
  | valueError (message : String)
  | overflowError (message : String)
  | typeError (message : String)

/-- `str(exc)` -/
def RpcFault.text : RpcFault → String
  | .archiveUnavailable message => message
  | .providerLimit message => message
  | .http statusCode reason => s!"JSON-RPC HTTP {statusCode}: {reason}"
  | .transport message => message
  | .protocol message => message
  | .response code message _ => s!"JSON-RPC error {code}: {message}"
  | .noHealthyEndpoint message => message
  | .verification _ message => message
  | .unsupportedRange message => message
  | .valueError message => message
  | .overflowError message => message
  | .typeError message => message

/-! ## Classification -/

inductive FailureKind where
  | transient
  | rateLimit
  | archiveUnavailable
  | providerLimit
  | executionRevert
  | permanent
  deriving DecidableEq, Repr

structure RpcFailure where
  kind : FailureKind
  retryable : Bool
  failover : Bool
  deriving DecidableEq

def archiveMarkers : List String := [
  "missing trie node",
  "historical state unavailable",
  "state is not available",
  "state unavailable",
  "pruned",
  "required historical state"]

def limitMarkers : List String := [
  "query returned more than",
  "exceeds max results",
  "too many results",
  "too many logs",
  "max logs per response",
  "response size exceeded",
  "request entity too large",
  "block range is too wide",
  "block range too wide",
  "please limit",
  "limit exceeded",
  "request timed out",
  "out of gas",
  "gas required exceeds"]

/-- The codes some providers use for a range or result cap regardless of the message. -/
def limitCodes : List Int := [-32005, -32016]

def revertMarkers : List String := ["execution reverted", "revert"]

/-- `str.casefold`, for the characters whose folded text has an ASCII character; any other stands for
itself, since what it is folded to is in no marker either. -/
def casefoldChar (c : Char) : List Char :=
  if c.toNat = 0xDF ∨ c.toNat = 0x1E9E then ['s', 's']
  else if c.toNat = 0x130 then ['i', Char.ofNat 0x307]
  else if c.toNat = 0x149 then [Char.ofNat 0x2BC, 'n']
  else if c.toNat = 0x17F then ['s']
  else if c.toNat = 0x1F0 then ['j', Char.ofNat 0x30C]
  else if c.toNat = 0x1E96 then ['h', Char.ofNat 0x331]
  else if c.toNat = 0x1E97 then ['t', Char.ofNat 0x308]
  else if c.toNat = 0x1E98 then ['w', Char.ofNat 0x30A]
  else if c.toNat = 0x1E99 then ['y', Char.ofNat 0x30A]
  else if c.toNat = 0x1E9A then ['a', Char.ofNat 0x2BE]
  else if c.toNat = 0x212A then ['k']
  else if c.toNat = 0xFB00 then ['f', 'f']
  else if c.toNat = 0xFB01 then ['f', 'i']
  else if c.toNat = 0xFB02 then ['f', 'l']
  else if c.toNat = 0xFB03 then ['f', 'f', 'i']
  else if c.toNat = 0xFB04 then ['f', 'f', 'l']
  else if c.toNat = 0xFB05 ∨ c.toNat = 0xFB06 then ['s', 't']
  else [c.toLower]

/-- The message and the `data` of a failure, folded: a provider may put the reason in either. -/
def foldedMessage (e : RpcFault) : List Char :=
  match e with
  | .response _ _ .null => e.text.toList.flatMap casefoldChar
  | .response _ _ data => (e.text ++ " " ++ data.pyStr).toList.flatMap casefoldChar
  | _ => e.text.toList.flatMap casefoldChar

def anyMarker (markers : List String) (message : List Char) : Bool :=
  markers.any fun marker => decide (marker.toList <:+: message)

/-- The failures that only their message tells apart. -/
def classifyMessage (e : RpcFault) : RpcFailure :=
  let message := foldedMessage e
  if anyMarker archiveMarkers message then ⟨.archiveUnavailable, false, true⟩
  else if anyMarker limitMarkers message then ⟨.providerLimit, false, false⟩
  else match e with
    | .response code _ _ =>
      if code ∈ limitCodes then ⟨.providerLimit, false, false⟩
      else if anyMarker revertMarkers message then ⟨.executionRevert, false, false⟩
      else ⟨.permanent, false, false⟩
    | _ => ⟨.permanent, false, false⟩

def classifyRpcFailure (e : RpcFault) : RpcFailure :=
  match e with
  | .archiveUnavailable _ => ⟨.archiveUnavailable, false, true⟩
  | .providerLimit _ => ⟨.providerLimit, false, false⟩
  | .http statusCode _ =>
    if statusCode = 429 then ⟨.rateLimit, true, true⟩
    else if statusCode ∈ [408, 425, 500, 502, 503, 504] then ⟨.transient, true, true⟩
    else if statusCode = 413 then ⟨.providerLimit, false, false⟩
    else ⟨.permanent, false, false⟩
  | .transport _ => ⟨.transient, true, true⟩
  | .protocol _ => ⟨.transient, true, true⟩
  | e => classifyMessage e

/-- Promote recognizable provider messages to stable exception types. -/
def normalizeRpcError (e : RpcFault) : RpcFault :=
  match (classifyRpcFailure e).kind with
  | .archiveUnavailable => .archiveUnavailable e.text
  | .providerLimit => .providerLimit e.text
  | _ => e

end RpcStateIndexer
