import RpcStateIndexer.Evm.Returndata
import RpcStateIndexer.Reasoning.HeadTail

/-!
# Balancer Vault returns

`getPoolTokens` and `getPoolTokenInfo` are decoded by the offsets of their heads.  The payload is not
trusted: an offset or a length that leads outside it is an error, and never an index past its end.
-/

namespace RpcStateIndexer

open Reasoning

/-- What the decoders can raise: their own error, and the `ValueError` of a strict `zip`. -/
inductive BalancerFault where
  | balancerDecodeError (message : String)
  | valueError (message : String)
  deriving DecidableEq

/-! ## Decoding -/

def readOffset (raw : List UInt8) (index : Nat) : Except BalancerFault Nat :=
  let start := index * 32
  if raw.length < start + 32 then
    .error (.balancerDecodeError s!"return data too short for head word {index}")
  else
    let offset := ofBytesBE (bytesAt raw start 32)
    if offset % 32 ≠ 0 then .error (.balancerDecodeError s!"array offset {offset} is not word-aligned")
    else .ok offset

def readArrayWords (raw : List UInt8) (offset : Nat) : Except BalancerFault (List (List UInt8)) :=
  if raw.length < offset + 32 then
    .error (.balancerDecodeError "array length word is out of bounds")
  else
    let length := ofBytesBE (bytesAt raw offset 32)
    let dataStart := offset + 32
    let dataEnd := dataStart + length * 32
    if raw.length < dataEnd then .error (.balancerDecodeError "array element data is out of bounds")
    else .ok ((List.range length).map fun i => bytesAt raw (dataStart + i * 32) 32)

def wordToAddress (word : List UInt8) : Except BalancerFault String :=
  if word.take 12 ≠ List.replicate 12 0 then
    .error (.balancerDecodeError "address word has non-zero high bytes")
  else .ok (hexData (word.drop 12))

/-- The pairs of a strict `zip`, each decoded before the next is taken. -/
def zipWords : List (List UInt8) → List (List UInt8) → Except BalancerFault (List (String × Nat))
  | [], [] => .ok []
  | token :: tokens, balance :: balances => do
    let address ← wordToAddress token
    let rest ← zipWords tokens balances
    return (address, ofBytesBE balance) :: rest
  | [], _ => .error (.valueError "zip() argument 2 is longer than argument 1")
  | _, [] => .error (.valueError "zip() argument 2 is shorter than argument 1")

def zipTokensBalances (raw : List UInt8) (tokensOffset balancesOffset : Nat) :
    Except BalancerFault (List (String × Nat)) := do
  let tokenWords ← readArrayWords raw tokensOffset
  let balanceWords ← readArrayWords raw balancesOffset
  if tokenWords.length ≠ balanceWords.length then
    .error (.balancerDecodeError
      s!"tokens/balances length mismatch: {tokenWords.length} vs {balanceWords.length}")
  else if tokenWords = [] then .error (.balancerDecodeError "pool reports no tokens")
  else zipWords tokenWords balanceWords

def decodeBalancerV2PoolTokens (returndata : List UInt8) :
    Except BalancerFault (List (String × Nat)) :=
  if returndata.length < 3 * 32 then
    .error (.balancerDecodeError "return data too short for getPoolTokens head")
  else do
    let tokensOffset ← readOffset returndata 0
    let balancesOffset ← readOffset returndata 1
    zipTokensBalances returndata tokensOffset balancesOffset

/-- The `TokenInfo[]` and the scaled balances are skipped. -/
def decodeBalancerV3PoolTokenInfo (returndata : List UInt8) :
    Except BalancerFault (List (String × Nat)) :=
  if returndata.length < 4 * 32 then
    .error (.balancerDecodeError "return data too short for getPoolTokenInfo head")
  else do
    let tokensOffset ← readOffset returndata 0
    let balancesRawOffset ← readOffset returndata 2
    zipTokensBalances returndata tokensOffset balancesRawOffset

/-! ## The standard encodings -/

/-- An address as a word: twelve zero bytes, and its own. -/
def addrWord (address : String) : Option (List UInt8) :=
  if isAddress address then some (List.replicate 12 0 ++ fromHex (address.toList.drop 2)) else none

/-- A struct of three static words. -/
structure TokenInfo where
  tokenType : Word
  rateProvider : Word
  paysYieldFees : Word

def TokenInfo.words (info : TokenInfo) : List UInt8 :=
  info.tokenType.toList ++ info.rateProvider.toList ++ info.paysYieldFees.toList

/-- `(address[] tokens, uint256[] balances, uint256)` -/
def encodeV2 (pairs : List (String × Nat)) (third : Word) : Option (List UInt8) := do
  let tokens ← pairs.mapM fun pair => addrWord pair.1
  let balances ← pairs.mapM fun pair => uintWord pair.2
  let tokensArray ← encodeArray tokens
  let balancesArray ← encodeArray balances
  encodeTuple [.byOffset tokensArray, .byOffset balancesArray, .inPlace third.toList]

/-- `(address[] tokens, TokenInfo[], uint256[] balancesRaw, uint256[] scaled18)` -/
def encodeV3 (pairs : List (String × Nat)) (infos : List TokenInfo) (scaled : List Nat) :
    Option (List UInt8) := do
  let tokens ← pairs.mapM fun pair => addrWord pair.1
  let balances ← pairs.mapM fun pair => uintWord pair.2
  let scaledWords ← scaled.mapM uintWord
  let tokensArray ← encodeArray tokens
  let infoArray ← encodeArray (infos.map TokenInfo.words)
  let balancesArray ← encodeArray balances
  let scaledArray ← encodeArray scaledWords
  encodeTuple [.byOffset tokensArray, .byOffset infoArray, .byOffset balancesArray, .byOffset scaledArray]

/-! ## Reading back an encoding -/

/-- The digits of an address are those of its bytes. -/
theorem flatMap_fromHex {text : List Char} (heven : text.length % 2 = 0)
    (hdigits : ∀ c ∈ text, isLowerHexDigit c = true) : (fromHex text).flatMap hexByte = text := by
  induction text using fromHex.induct with
  | case1 high low rest ih =>
    obtain ⟨hhigh, hlow, hrest⟩ : isLowerHexDigit high = true ∧ isLowerHexDigit low = true ∧
        ∀ c ∈ rest, isLowerHexDigit c = true := by simpa only [List.forall_mem_cons] using hdigits
    rw [fromHex, List.flatMap_cons, ih (by simp only [List.length_cons] at heven; omega) hrest,
      hexByte_ofNat (by simp [isHexDigit, hhigh]) (by simp [isHexDigit, hlow]),
      toLower_of_isLowerHexDigit hhigh, toLower_of_isLowerHexDigit hlow]
    rfl
  | case2 text hshort =>
    rcases text with - | ⟨a, - | ⟨b, rest⟩⟩
    · rfl
    · cases heven
    · exact absurd rfl (hshort a b rest)

theorem addrWord_spec {address : String} {word : List UInt8} (h : addrWord address = some word) :
    word.length = 32 ∧ wordToAddress word = .ok address := by
  unfold addrWord at h
  split at h
  · rename_i haddress
    obtain rfl := Option.some.inj h
    obtain ⟨body, htext, hlength, hdigits⟩ := isAddress_iff.mp haddress
    have hdrop : address.toList.drop 2 = body := by rw [htext]; rfl
    have hbytes : (fromHex body).length = 20 := by rw [length_fromHex, hlength]
    refine ⟨by rw [hdrop, List.length_append, List.length_replicate, hbytes], ?_⟩
    have htake : (List.replicate 12 (0 : UInt8) ++ fromHex body).take 12 = List.replicate 12 0 :=
      List.take_left' List.length_replicate
    have htail : (List.replicate 12 (0 : UInt8) ++ fromHex body).drop 12 = fromHex body :=
      List.drop_left' List.length_replicate
    rw [hdrop, wordToAddress, htake, if_neg (not_not.mpr rfl), htail, hexData,
      flatMap_fromHex (by omega) hdigits, hexText, ← htext, String.ofList_toList]
  · cases h

/-- An array that stands at an offset is read there, element by element. -/
theorem readArrayWords_of_standsAt {raw bytes : List UInt8} {words : List (List UInt8)} {offset : Nat}
    (hwidth : ∀ word ∈ words, word.length = 32) (harray : encodeArray words = some bytes)
    (h : StandsAt raw bytes offset) : readArrayWords raw offset = .ok words := by
  have hend := h.le_length
  rw [length_encodeArray hwidth harray] at hend
  obtain ⟨count, hcount, rfl⟩ := encodeArray_eq_some_iff.mp harray
  obtain ⟨hhead, hbody⟩ := StandsAt.append_iff.mp h
  rw [length_of_uintWord hcount] at hbody
  have hlength : ofBytesBE (bytesAt raw offset 32) = words.length := hhead.ofBytesBE_bytesAt hcount
  unfold readArrayWords
  rw [hlength, if_neg (by omega), if_neg (by omega), Except.ok.injEq]
  refine List.ext_getElem (by rw [List.length_map, List.length_range]) fun i hi hi' => ?_
  have helement := (hbody.element hwidth hi').bytesAt_eq
  rw [hwidth _ (List.getElem_mem hi')] at helement
  rw [List.getElem_map, List.getElem_range, helement]

theorem words_of_addrWord {α : Type} {values : List α} {address : α → String} {words : List (List UInt8)}
    (h : List.Forall₂ (fun value word => addrWord (address value) = some word) values words) :
    ∀ word ∈ words, word.length = 32 := by
  intro word hword
  obtain ⟨value, -, hvalue⟩ := forall₂_right h hword
  exact (addrWord_spec hvalue).1

theorem words_of_uintWord {α : Type} {values : List α} {number : α → Nat} {words : List (List UInt8)}
    (h : List.Forall₂ (fun value word => uintWord (number value) = some word) values words) :
    ∀ word ∈ words, word.length = 32 := by
  intro word hword
  obtain ⟨value, -, hvalue⟩ := forall₂_right h hword
  exact length_of_uintWord hvalue

theorem zipWords_of_forall₂ {pairs : List (String × Nat)} {tokens balances : List (List UInt8)}
    (htokens : List.Forall₂ (fun pair word => addrWord pair.1 = some word) pairs tokens)
    (hbalances : List.Forall₂ (fun pair word => uintWord pair.2 = some word) pairs balances) :
    zipWords tokens balances = .ok pairs := by
  induction htokens generalizing balances with
  | nil =>
    cases hbalances
    rfl
  | cons htoken _ ih =>
    cases hbalances with
    | cons hbalance hrest =>
      rw [zipWords, (addrWord_spec htoken).2, ih hrest, ofBytesBE_of_uintWord hbalance]
      rfl

/-- Two arrays that stand where the offsets say are zipped. -/
theorem zipTokensBalances_of_standsAt {raw tokensBytes balancesBytes : List UInt8}
    {pairs : List (String × Nat)} {tokens balances : List (List UInt8)} {tokensOffset balancesOffset : Nat}
    (hne : pairs ≠ []) (htokens : pairs.mapM (fun pair => addrWord pair.1) = some tokens)
    (hbalances : pairs.mapM (fun pair => uintWord pair.2) = some balances)
    (htokensArray : encodeArray tokens = some tokensBytes)
    (hbalancesArray : encodeArray balances = some balancesBytes)
    (htokensAt : StandsAt raw tokensBytes tokensOffset)
    (hbalancesAt : StandsAt raw balancesBytes balancesOffset) :
    zipTokensBalances raw tokensOffset balancesOffset = .ok pairs := by
  rw [mapM_eq_some_iff] at htokens hbalances
  have htokenWords := readArrayWords_of_standsAt (words_of_addrWord htokens) htokensArray htokensAt
  have hbalanceWords := readArrayWords_of_standsAt (words_of_uintWord hbalances) hbalancesArray hbalancesAt
  have hlength : tokens.length = balances.length := htokens.length_eq.symm.trans hbalances.length_eq
  have hsome : tokens ≠ [] := by
    rintro rfl
    exact hne (List.length_eq_zero_iff.mp htokens.length_eq)
  rw [zipTokensBalances, htokenWords, hbalanceWords, except_ok_bind, except_ok_bind,
    if_neg (not_not.mpr hlength), if_neg hsome, zipWords_of_forall₂ htokens hbalances]

/-- A head that holds an aligned offset is read. -/
theorem readOffset_of_standsAt {raw word : List UInt8} (index : Nat) {offset : Nat}
    (hword : uintWord offset = some word) (h : StandsAt raw word (index * 32))
    (haligned : offset % 32 = 0) : readOffset raw index = .ok offset := by
  have hend := h.le_length
  rw [length_of_uintWord hword] at hend
  unfold readOffset
  dsimp only
  rw [h.ofBytesBE_bytesAt hword, if_neg (by omega), if_neg (not_not.mpr haligned)]

theorem decode_encodeV2 {pairs : List (String × Nat)} {third : Word} {raw : List UInt8}
    (hne : pairs ≠ []) (h : encodeV2 pairs third = some raw) :
    decodeBalancerV2PoolTokens raw = .ok pairs := by
  simp only [encodeV2, bind, Option.bind_eq_some_iff] at h
  obtain ⟨tokens, htokens, balances, hbalances, tokensArray, htokensArray, balancesArray, hbalancesArray,
    htuple⟩ := h
  have htokenWords := words_of_addrWord (mapM_eq_some_iff.mp htokens)
  have htokensLength := length_encodeArray htokenWords htokensArray
  -- Two offsets and the third word make a head of 96 bytes.
  obtain ⟨⟨tokensWord, htokensWord, htokensHead⟩, htokensAt, ⟨balancesWord, hbalancesWord, hbalancesHead⟩,
    hbalancesAt, hthirdAt, -⟩ := placed_of_encodeTuple htuple
  have hend := hthirdAt.le_length
  rw [third.toList_length] at hend
  simp only [headSize, third.toList_length] at htokensWord htokensAt hbalancesWord hbalancesAt
  have htokensOffset := readOffset_of_standsAt 0 htokensWord htokensHead (by decide)
  have hbalancesOffset := readOffset_of_standsAt 1 hbalancesWord hbalancesHead (by omega)
  rw [decodeBalancerV2PoolTokens, if_neg (by omega), htokensOffset, hbalancesOffset, except_ok_bind,
    except_ok_bind]
  exact zipTokensBalances_of_standsAt hne htokens hbalances htokensArray hbalancesArray htokensAt hbalancesAt

theorem length_of_mem_infos {infos : List TokenInfo} :
    ∀ words ∈ infos.map TokenInfo.words, words.length = 96 := by
  intro words hwords
  obtain ⟨info, -, rfl⟩ := List.mem_map.mp hwords
  simp only [TokenInfo.words, List.length_append, List.Vector.toList_length]

theorem decode_encodeV3 {pairs : List (String × Nat)} {infos : List TokenInfo} {scaled : List Nat}
    {raw : List UInt8} (hne : pairs ≠ []) (h : encodeV3 pairs infos scaled = some raw) :
    decodeBalancerV3PoolTokenInfo raw = .ok pairs := by
  simp only [encodeV3, bind, Option.bind_eq_some_iff] at h
  obtain ⟨tokens, htokens, balances, hbalances, scaledWords, hscaled, tokensArray, htokensArray, infoArray,
    hinfoArray, balancesArray, hbalancesArray, scaledArray, hscaledArray, htuple⟩ := h
  have htokenWords := words_of_addrWord (mapM_eq_some_iff.mp htokens)
  have htokensLength := length_encodeArray htokenWords htokensArray
  have hinfoLength := length_encodeArray length_of_mem_infos hinfoArray
  -- Four offsets make a head of 128 bytes.
  obtain ⟨⟨tokensWord, htokensWord, htokensHead⟩, htokensAt, -, -, ⟨balancesWord, hbalancesWord,
    hbalancesHead⟩, hbalancesAt, ⟨scaledWord, hscaledWord, hscaledHead⟩, -⟩ := placed_of_encodeTuple htuple
  have hend := hscaledHead.le_length
  rw [length_of_uintWord hscaledWord] at hend
  simp only [headSize] at htokensWord htokensAt hbalancesWord hbalancesAt
  have htokensOffset := readOffset_of_standsAt 0 htokensWord htokensHead (by decide)
  have hbalancesOffset := readOffset_of_standsAt 2 hbalancesWord hbalancesHead (by omega)
  rw [decodeBalancerV3PoolTokenInfo, if_neg (by omega), htokensOffset, hbalancesOffset, except_ok_bind,
    except_ok_bind]
  exact zipTokensBalances_of_standsAt hne htokens hbalances htokensArray hbalancesArray htokensAt hbalancesAt

/-! ## Any payload -/

/-- The pairs are those of two arrays inside the payload, whose offsets are the first head and the one
of the balances. -/
structure ReadInside (raw : List UInt8) (balancesIndex : Nat) (pairs : List (String × Nat)) : Prop where
  nonempty : pairs ≠ []
  canonical : ∀ pair ∈ pairs, isAddress pair.1 = true ∧ pair.2 < 2 ^ 256
  inside : ∃ tokensOffset balancesOffset,
    32 ≤ raw.length ∧ tokensOffset = ofBytesBE (bytesAt raw 0 32) ∧
      balancesIndex * 32 + 32 ≤ raw.length ∧
        balancesOffset = ofBytesBE (bytesAt raw (balancesIndex * 32) 32) ∧
          tokensOffset + 32 + pairs.length * 32 ≤ raw.length ∧
            balancesOffset + 32 + pairs.length * 32 ≤ raw.length ∧
              ∀ (i : Nat) pair, pairs[i]? = some pair →
                pair = (hexData (bytesAt raw (tokensOffset + 32 + i * 32 + 12) 20),
                  ofBytesBE (bytesAt raw (balancesOffset + 32 + i * 32) 32))

/-- The computation raises nothing but `BalancerDecodeError`. -/
def RaisesDecodeError {α : Type} (x : Except BalancerFault α) : Prop :=
  ∀ fault, x = .error fault → ∃ message, fault = .balancerDecodeError message

namespace RaisesDecodeError

theorem ok {α : Type} (a : α) : RaisesDecodeError (.ok a) :=
  fun _ h => absurd h ok_ne_error

theorem error {α : Type} (message : String) :
    RaisesDecodeError (.error (.balancerDecodeError message) : Except BalancerFault α) :=
  fun _ h => ⟨message, (Except.error.inj h).symm⟩

theorem bind {α β : Type} {x : Except BalancerFault α} {f : α → Except BalancerFault β}
    (hx : RaisesDecodeError x) (hf : ∀ a, x = .ok a → RaisesDecodeError (f a)) :
    RaisesDecodeError (x >>= f) := by
  intro fault h
  rcases except_bind_eq_error_iff.mp h with h | ⟨a, ha, h⟩
  · exact hx fault h
  · exact hf a ha fault h

theorem ite {α : Type} {condition : Prop} [Decidable condition] {x y : Except BalancerFault α}
    (hx : condition → RaisesDecodeError x) (hy : ¬ condition → RaisesDecodeError y) :
    RaisesDecodeError (if condition then x else y) := by
  split
  · exact hx ‹_›
  · exact hy ‹_›

end RaisesDecodeError

theorem raisesDecodeError_readOffset (raw : List UInt8) (index : Nat) :
    RaisesDecodeError (readOffset raw index) :=
  .ite (fun _ => .error _) fun _ => .ite (fun _ => .error _) fun _ => .ok _

theorem raisesDecodeError_readArrayWords (raw : List UInt8) (offset : Nat) :
    RaisesDecodeError (readArrayWords raw offset) :=
  .ite (fun _ => .error _) fun _ => .ite (fun _ => .error _) fun _ => .ok _

/-- Words of one number are zipped without the `ValueError`. -/
theorem raisesDecodeError_zipWords {tokens balances : List (List UInt8)}
    (h : tokens.length = balances.length) : RaisesDecodeError (zipWords tokens balances) := by
  induction tokens generalizing balances with
  | nil =>
    obtain rfl := List.length_eq_zero_iff.mp h.symm
    exact .ok _
  | cons token tokens ih =>
    cases balances with
    | nil => cases h
    | cons balance balances =>
      exact .bind (.ite (fun _ => .error _) fun _ => .ok _) fun _ _ =>
        .bind (ih (Nat.succ.inj h)) fun _ _ => .ok _

theorem raisesDecodeError_zipTokensBalances (raw : List UInt8) (tokensOffset balancesOffset : Nat) :
    RaisesDecodeError (zipTokensBalances raw tokensOffset balancesOffset) :=
  .bind (raisesDecodeError_readArrayWords raw tokensOffset) fun _ _ =>
    .bind (raisesDecodeError_readArrayWords raw balancesOffset) fun _ _ =>
      .ite (fun _ => .error _) fun hlength => .ite (fun _ => .error _) fun _ =>
        raisesDecodeError_zipWords (not_not.mp hlength)

theorem readOffset_eq_ok {raw : List UInt8} {index offset : Nat} (h : readOffset raw index = .ok offset) :
    index * 32 + 32 ≤ raw.length ∧ offset = ofBytesBE (bytesAt raw (index * 32) 32) := by
  unfold readOffset at h
  dsimp only at h
  split at h
  · cases h
  · split at h
    · cases h
    · exact ⟨by omega, (Except.ok.inj h).symm⟩

/-- The words of an array are slices that end inside the payload. -/
theorem readArrayWords_eq_ok {raw : List UInt8} {offset : Nat} {words : List (List UInt8)}
    (h : readArrayWords raw offset = .ok words) :
    offset + 32 + words.length * 32 ≤ raw.length ∧
      ∀ (i : Nat) word, words[i]? = some word →
        i < words.length ∧ word = bytesAt raw (offset + 32 + i * 32) 32 := by
  unfold readArrayWords at h
  dsimp only at h
  split at h
  · cases h
  · split at h
    · cases h
    · rename_i hend
      obtain rfl := Except.ok.inj h
      rw [List.length_map, List.length_range]
      refine ⟨by omega, fun i word hword => ?_⟩
      rw [List.getElem?_map, Option.map_eq_some_iff] at hword
      obtain ⟨j, hj, rfl⟩ := hword
      obtain ⟨hlt, rfl⟩ := List.getElem?_eq_some_iff.mp hj
      rw [List.getElem_range]
      exact ⟨by simpa using hlt, rfl⟩

theorem wordToAddress_eq_ok {word : List UInt8} {address : String} (h : wordToAddress word = .ok address) :
    address = hexData (word.drop 12) := by
  unfold wordToAddress at h
  split at h
  · cases h
  · exact (Except.ok.inj h).symm

/-- Each pair is made of the words at its place. -/
theorem zipWords_eq_ok {tokens balances : List (List UInt8)} {pairs : List (String × Nat)}
    (h : zipWords tokens balances = .ok pairs) : pairs.length = tokens.length ∧
      pairs.length = balances.length ∧ ∀ (i : Nat) pair, pairs[i]? = some pair → ∃ token balance,
        tokens[i]? = some token ∧ balances[i]? = some balance ∧
          pair = (hexData (token.drop 12), ofBytesBE balance) := by
  induction tokens generalizing balances pairs with
  | nil =>
    cases balances with
    | nil =>
      cases h
      exact ⟨rfl, rfl, fun i pair hpair => by simp at hpair⟩
    | cons balance balances => cases h
  | cons token tokens ih =>
    cases balances with
    | nil => cases h
    | cons balance balances =>
      simp only [zipWords, except_bind_eq_ok_iff, except_pure_eq_ok_iff] at h
      obtain ⟨address, haddress, rest, hrest, rfl⟩ := h
      obtain ⟨htokens, hbalances, hpairs⟩ := ih hrest
      refine ⟨congrArg Nat.succ htokens, congrArg Nat.succ hbalances, fun i pair hpair => ?_⟩
      cases i with
      | zero =>
        refine ⟨token, balance, rfl, rfl, ?_⟩
        rw [← wordToAddress_eq_ok haddress]
        exact (Option.some.inj hpair).symm
      | succ i => exact hpairs i pair hpair

theorem isAddress_hexData {bytes : List UInt8} (h : bytes.length = 20) : isAddress (hexData bytes) = true := by
  refine isAddress_hexText ?_ (all_flatMap_hexByte bytes)
  rw [length_flatMap_hexByte, h]

/-- What two offsets lead to is read inside the payload. -/
theorem readInside_of_zip {raw : List UInt8} {balancesIndex tokensOffset balancesOffset : Nat}
    {pairs : List (String × Nat)} (htokens : readOffset raw 0 = .ok tokensOffset)
    (hbalances : readOffset raw balancesIndex = .ok balancesOffset)
    (h : zipTokensBalances raw tokensOffset balancesOffset = .ok pairs) :
    ReadInside raw balancesIndex pairs := by
  obtain ⟨htokensEnd, htokensOffset⟩ := readOffset_eq_ok htokens
  obtain ⟨hbalancesEnd, hbalancesOffset⟩ := readOffset_eq_ok hbalances
  rw [Nat.zero_mul] at htokensEnd htokensOffset
  simp only [zipTokensBalances, except_bind_eq_ok_iff] at h
  obtain ⟨tokenWords, htokenWords, balanceWords, hbalanceWords, h⟩ := h
  split at h
  · cases h
  split at h
  · cases h
  rename_i hlength hsome
  obtain ⟨htokensInside, htokenAt⟩ := readArrayWords_eq_ok htokenWords
  obtain ⟨hbalancesInside, hbalanceAt⟩ := readArrayWords_eq_ok hbalanceWords
  obtain ⟨htokensLength, hbalancesLength, hpairs⟩ := zipWords_eq_ok h
  have hpair : ∀ (i : Nat) pair, pairs[i]? = some pair → i < pairs.length ∧
      pair = (hexData (bytesAt raw (tokensOffset + 32 + i * 32 + 12) 20),
        ofBytesBE (bytesAt raw (balancesOffset + 32 + i * 32) 32)) := by
    intro i pair hi
    obtain ⟨token, balance, htoken, hbalance, rfl⟩ := hpairs i pair hi
    obtain ⟨hlt, rfl⟩ := htokenAt i token htoken
    obtain ⟨-, rfl⟩ := hbalanceAt i balance hbalance
    refine ⟨htokensLength ▸ hlt, ?_⟩
    rw [bytesAt, List.drop_take, List.drop_drop]
    rfl
  refine ⟨?_, fun pair hmem => ?_, tokensOffset, balancesOffset, htokensEnd, htokensOffset, hbalancesEnd,
    hbalancesOffset, by omega, by omega, fun i pair hi => (hpair i pair hi).2⟩
  · rintro rfl
    exact hsome (List.length_eq_zero_iff.mp htokensLength.symm)
  · obtain ⟨i, hi⟩ := List.mem_iff_getElem?.mp hmem
    obtain ⟨hlt, rfl⟩ := hpair i pair hi
    have hbound := ofBytesBE_lt (bytesAt raw (balancesOffset + 32 + i * 32) 32)
    rw [length_bytesAt (by omega)] at hbound
    exact ⟨isAddress_hexData (length_bytesAt (by omega)), hbound.trans_eq (by norm_num)⟩

/-- A decoder by offsets reads inside the payload or raises its own error. -/
theorem reads_or_raises {raw : List UInt8} {balancesIndex : Nat} {result : Except BalancerFault
      (List (String × Nat))}
    (hraises : RaisesDecodeError result)
    (hreads : ∀ pairs, result = .ok pairs → ReadInside raw balancesIndex pairs) :
    (∃ pairs, result = .ok pairs ∧ ReadInside raw balancesIndex pairs) ∨
      ∃ message, result = .error (.balancerDecodeError message) := by
  cases result with
  | ok pairs => exact .inl ⟨pairs, rfl, hreads pairs rfl⟩
  | error fault =>
    obtain ⟨message, rfl⟩ := hraises fault rfl
    exact .inr ⟨message, rfl⟩

theorem raisesDecodeError_offsets (raw : List UInt8) (balancesIndex : Nat) :
    RaisesDecodeError (do
      let tokensOffset ← readOffset raw 0
      let balancesOffset ← readOffset raw balancesIndex
      zipTokensBalances raw tokensOffset balancesOffset) :=
  .bind (raisesDecodeError_readOffset raw 0) fun _ _ =>
    .bind (raisesDecodeError_readOffset raw balancesIndex) fun _ _ =>
      raisesDecodeError_zipTokensBalances raw _ _

theorem decodeV2_reads_or_raises (raw : List UInt8) :
    (∃ pairs, decodeBalancerV2PoolTokens raw = .ok pairs ∧ ReadInside raw 1 pairs) ∨
      ∃ message, decodeBalancerV2PoolTokens raw = .error (.balancerDecodeError message) := by
  refine reads_or_raises (.ite (fun _ => .error _) fun _ => raisesDecodeError_offsets raw 1)
    fun pairs hpairs => ?_
  unfold decodeBalancerV2PoolTokens at hpairs
  split at hpairs
  · cases hpairs
  · simp only [except_bind_eq_ok_iff] at hpairs
    obtain ⟨tokensOffset, htokens, balancesOffset, hbalances, hzip⟩ := hpairs
    exact readInside_of_zip htokens hbalances hzip

theorem decodeV3_reads_or_raises (raw : List UInt8) :
    (∃ pairs, decodeBalancerV3PoolTokenInfo raw = .ok pairs ∧ ReadInside raw 2 pairs) ∨
      ∃ message, decodeBalancerV3PoolTokenInfo raw = .error (.balancerDecodeError message) := by
  refine reads_or_raises (.ite (fun _ => .error _) fun _ => raisesDecodeError_offsets raw 2)
    fun pairs hpairs => ?_
  unfold decodeBalancerV3PoolTokenInfo at hpairs
  split at hpairs
  · cases hpairs
  · simp only [except_bind_eq_ok_iff] at hpairs
    obtain ⟨tokensOffset, htokens, balancesOffset, hbalances, hzip⟩ := hpairs
    exact readInside_of_zip htokens hbalances hzip

/-! ## The decoders -/

theorem exists_encodeArray (elements : List (List UInt8)) (h : elements.length < 2 ^ 256) :
    ∃ bytes, encodeArray elements = some bytes :=
  ⟨_, encodeArray_eq_some_iff.mpr ⟨_, if_pos h, rfl⟩⟩

/-- The arrays of canonical pairs. -/
theorem exists_arrays {pairs : List (String × Nat)}
    (hpairs : ∀ pair ∈ pairs, isAddress pair.1 = true ∧ pair.2 < 2 ^ 256) (hsize : pairs.length < 2 ^ 256) :
    ∃ tokens tokensArray balances balancesArray,
      pairs.mapM (fun pair => addrWord pair.1) = some tokens ∧ encodeArray tokens = some tokensArray ∧
        pairs.mapM (fun pair => uintWord pair.2) = some balances ∧
          encodeArray balances = some balancesArray ∧
            tokensArray.length = 32 + 32 * pairs.length ∧ balancesArray.length = 32 + 32 * pairs.length := by
  obtain ⟨tokens, htokens⟩ := exists_mapM_eq_some fun pair hpair => ⟨_, if_pos (hpairs pair hpair).1⟩
  obtain ⟨balances, hbalances⟩ := exists_mapM_eq_some fun pair hpair => ⟨_, if_pos (hpairs pair hpair).2⟩
  have htokenWords := mapM_eq_some_iff.mp htokens
  have hbalanceWords := mapM_eq_some_iff.mp hbalances
  obtain ⟨tokensArray, htokensArray⟩ := exists_encodeArray tokens (htokenWords.length_eq ▸ hsize)
  obtain ⟨balancesArray, hbalancesArray⟩ := exists_encodeArray balances (hbalanceWords.length_eq ▸ hsize)
  refine ⟨tokens, tokensArray, balances, balancesArray, htokens, htokensArray, hbalances, hbalancesArray, ?_, ?_⟩
  · rw [length_encodeArray (words_of_addrWord htokenWords) htokensArray, htokenWords.length_eq]
  · rw [length_encodeArray (words_of_uintWord hbalanceWords) hbalancesArray, hbalanceWords.length_eq]

theorem exists_encodeV2 {pairs : List (String × Nat)} (third : Word)
    (hpairs : ∀ pair ∈ pairs, isAddress pair.1 = true ∧ pair.2 < 2 ^ 256)
    (hsize : 160 + 64 * pairs.length < 2 ^ 256) : ∃ raw, encodeV2 pairs third = some raw := by
  obtain ⟨tokens, tokensArray, balances, balancesArray, htokens, htokensArray, hbalances, hbalancesArray,
    htokensLength, hbalancesLength⟩ := exists_arrays hpairs (by omega)
  obtain ⟨raw, hraw⟩ := exists_encodeTuple
    [.byOffset tokensArray, .byOffset balancesArray, .inPlace third.toList]
    (by simp only [headSize, tailSize, third.toList_length]; omega)
  exact ⟨raw, by simp only [encodeV2, htokens, hbalances, htokensArray, hbalancesArray, bind, Option.bind_some,
    hraw]⟩

theorem exists_encodeV3 {pairs : List (String × Nat)} {infos : List TokenInfo} {scaled : List Nat}
    (hpairs : ∀ pair ∈ pairs, isAddress pair.1 = true ∧ pair.2 < 2 ^ 256)
    (hscaled : ∀ amount ∈ scaled, amount < 2 ^ 256)
    (hsize : 256 + 64 * pairs.length + 96 * infos.length + 32 * scaled.length < 2 ^ 256) :
    ∃ raw, encodeV3 pairs infos scaled = some raw := by
  obtain ⟨tokens, tokensArray, balances, balancesArray, htokens, htokensArray, hbalances, hbalancesArray,
    htokensLength, hbalancesLength⟩ := exists_arrays hpairs (by omega)
  obtain ⟨scaledWords, hscaledWords⟩ := exists_mapM_eq_some (f := uintWord) fun amount hamount =>
    ⟨_, if_pos (hscaled amount hamount)⟩
  have hscaledForall := mapM_eq_some_iff.mp hscaledWords
  obtain ⟨scaledArray, hscaledArray⟩ := exists_encodeArray scaledWords
    (by rw [← hscaledForall.length_eq]; omega)
  obtain ⟨infoArray, hinfoArray⟩ := exists_encodeArray (infos.map TokenInfo.words)
    (by rw [List.length_map]; omega)
  have hinfoLength := length_encodeArray length_of_mem_infos hinfoArray
  have hscaledLength := length_encodeArray (@words_of_uintWord Nat scaled id scaledWords hscaledForall) hscaledArray
  rw [List.length_map] at hinfoLength
  rw [← hscaledForall.length_eq] at hscaledLength
  obtain ⟨raw, hraw⟩ := exists_encodeTuple
    [.byOffset tokensArray, .byOffset infoArray, .byOffset balancesArray, .byOffset scaledArray]
    (by simp only [headSize, tailSize]; omega)
  exact ⟨raw, by simp only [encodeV3, htokens, hbalances, hscaledWords, htokensArray, hinfoArray,
    hbalancesArray, hscaledArray, bind, Option.bind_some, hraw]⟩

/-- The standard encodings, of which there is one for all that fits a word, are decoded to their pairs;
of any payload the decoders return pairs read inside it, or raise their own error. -/
theorem balancer_returns_decoded :
    (∀ pairs third raw, pairs ≠ [] → encodeV2 pairs third = some raw →
        decodeBalancerV2PoolTokens raw = .ok pairs) ∧
      (∀ pairs infos scaled raw, pairs ≠ [] → encodeV3 pairs infos scaled = some raw →
        decodeBalancerV3PoolTokenInfo raw = .ok pairs) ∧
      (∀ (pairs : List (String × Nat)) (third : Word),
        (∀ pair ∈ pairs, isAddress pair.1 = true ∧ pair.2 < 2 ^ 256) →
          160 + 64 * pairs.length < 2 ^ 256 → ∃ raw, encodeV2 pairs third = some raw) ∧
      (∀ (pairs : List (String × Nat)) (infos : List TokenInfo) (scaled : List Nat),
        (∀ pair ∈ pairs, isAddress pair.1 = true ∧ pair.2 < 2 ^ 256) →
          (∀ amount ∈ scaled, amount < 2 ^ 256) →
            256 + 64 * pairs.length + 96 * infos.length + 32 * scaled.length < 2 ^ 256 →
              ∃ raw, encodeV3 pairs infos scaled = some raw) ∧
      (∀ raw, (∃ pairs, decodeBalancerV2PoolTokens raw = .ok pairs ∧ ReadInside raw 1 pairs) ∨
        ∃ message, decodeBalancerV2PoolTokens raw = .error (.balancerDecodeError message)) ∧
      ∀ raw, (∃ pairs, decodeBalancerV3PoolTokenInfo raw = .ok pairs ∧ ReadInside raw 2 pairs) ∨
        ∃ message, decodeBalancerV3PoolTokenInfo raw = .error (.balancerDecodeError message) :=
  ⟨fun _ _ _ => decode_encodeV2, fun _ _ _ _ => decode_encodeV3, fun _ third => exists_encodeV2 third,
    fun _ _ _ => exists_encodeV3, decodeV2_reads_or_raises, decodeV3_reads_or_raises⟩

end RpcStateIndexer
