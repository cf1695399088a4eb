import RpcStateIndexer.Reasoning.Codec
import Mathlib.Data.Vector.Basic

/-!
# SHA-256

The hash function of FIPS 180-4, executable, so that a digest of a concrete input can be evaluated.
That two given inputs do not collide is a fact about them, never an assumption about the function.
-/

namespace RpcStateIndexer.Reasoning.Sha256

/-- The first 32 bits of the fractional parts of the cube roots of the first 64 primes. -/
def roundConstants : List (BitVec 32) := [
  0x428a2f98, 0x71374491, 0xb5c0fbcf, 0xe9b5dba5, 0x3956c25b, 0x59f111f1, 0x923f82a4, 0xab1c5ed5,
  0xd807aa98, 0x12835b01, 0x243185be, 0x550c7dc3, 0x72be5d74, 0x80deb1fe, 0x9bdc06a7, 0xc19bf174,
  0xe49b69c1, 0xefbe4786, 0x0fc19dc6, 0x240ca1cc, 0x2de92c6f, 0x4a7484aa, 0x5cb0a9dc, 0x76f988da,
  0x983e5152, 0xa831c66d, 0xb00327c8, 0xbf597fc7, 0xc6e00bf3, 0xd5a79147, 0x06ca6351, 0x14292967,
  0x27b70a85, 0x2e1b2138, 0x4d2c6dfc, 0x53380d13, 0x650a7354, 0x766a0abb, 0x81c2c92e, 0x92722c85,
  0xa2bfe8a1, 0xa81a664b, 0xc24b8b70, 0xc76c51a3, 0xd192e819, 0xd6990624, 0xf40e3585, 0x106aa070,
  0x19a4c116, 0x1e376c08, 0x2748774c, 0x34b0bcb5, 0x391c0cb3, 0x4ed8aa4a, 0x5b9cca4f, 0x682e6ff3,
  0x748f82ee, 0x78a5636f, 0x84c87814, 0x8cc70208, 0x90befffa, 0xa4506ceb, 0xbef9a3f7, 0xc67178f2]

/-- The eight working variables, and between blocks the intermediate hash value. -/
structure State where
  a : BitVec 32
  b : BitVec 32
  c : BitVec 32
  d : BitVec 32
  e : BitVec 32
  f : BitVec 32
  g : BitVec 32
  h : BitVec 32

def initial : State :=
  ⟨0x6a09e667, 0xbb67ae85, 0x3c6ef372, 0xa54ff53a, 0x510e527f, 0x9b05688c, 0x1f83d9ab, 0x5be0cd19⟩

/-- One round, with its constant and its word of the message schedule. -/
def round (s : State) (input : BitVec 32 × BitVec 32) : State :=
  let sum₁ := s.e.rotateRight 6 ^^^ s.e.rotateRight 11 ^^^ s.e.rotateRight 25
  let choice := (s.e &&& s.f) ^^^ (~~~s.e &&& s.g)
  let temp₁ := s.h + sum₁ + choice + input.1 + input.2
  let sum₀ := s.a.rotateRight 2 ^^^ s.a.rotateRight 13 ^^^ s.a.rotateRight 22
  let majority := (s.a &&& s.b) ^^^ (s.a &&& s.c) ^^^ (s.b &&& s.c)
  ⟨temp₁ + (sum₀ + majority), s.a, s.b, s.c, s.d + temp₁, s.e, s.f, s.g⟩

/-- So many further words of the message schedule, of which the newest comes first. -/
def expand : Nat → List (BitVec 32) → List (BitVec 32)
  | 0, schedule => schedule
  | n + 1, schedule =>
    let w₁₅ := schedule.getD 14 0
    let w₂ := schedule.getD 1 0
    let sigma₀ := w₁₅.rotateRight 7 ^^^ w₁₅.rotateRight 18 ^^^ (w₁₅ >>> 3)
    let sigma₁ := w₂.rotateRight 17 ^^^ w₂.rotateRight 19 ^^^ (w₂ >>> 10)
    expand n ((schedule.getD 15 0 + sigma₀ + schedule.getD 6 0 + sigma₁) :: schedule)

def compress (s : State) (block : List (BitVec 32)) : State :=
  let schedule := (expand 48 block.reverse).reverse
  let r := (roundConstants.zip schedule).foldl round s
  ⟨s.a + r.a, s.b + r.b, s.c + r.c, s.d + r.d, s.e + r.e, s.f + r.f, s.g + r.g, s.h + r.h⟩

def words : List UInt8 → List (BitVec 32)
  | a :: b :: c :: d :: rest => BitVec.ofNat 32 (ofBytesBE [a, b, c, d]) :: words rest
  | _ => []

/-- The words in blocks of sixteen. -/
def blocks : Nat → List (BitVec 32) → List (List (BitVec 32))
  | 0, _ => []
  | n + 1, message => message.take 16 :: blocks n (message.drop 16)

/-- The message, a one bit, zeros up to eight bytes before a block's end, and the length in bits. -/
def pad (message : List UInt8) : List UInt8 :=
  message ++ 0x80 :: List.replicate ((119 - message.length % 64) % 64) 0 ++
    bytesBE 8 (8 * message.length)

def output (s : State) : List UInt8 :=
  [s.a, s.b, s.c, s.d, s.e, s.f, s.g, s.h].flatMap fun word => bytesBE 4 word.toNat

theorem length_output (s : State) : (output s).length = 32 := by
  simp [output, List.flatMap_cons]

end Sha256

/-- `hashlib.sha256`.  Irreducible: a proof compares digests, it does not compute them. -/
@[irreducible] def sha256 (message : List UInt8) : List.Vector UInt8 32 :=
  let schedule := Sha256.words (Sha256.pad message)
  let final := (Sha256.blocks (schedule.length / 16) schedule).foldl Sha256.compress Sha256.initial
  ⟨Sha256.output final, Sha256.length_output final⟩

end RpcStateIndexer.Reasoning
