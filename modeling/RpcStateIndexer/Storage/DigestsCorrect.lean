import RpcStateIndexer.Storage.Digests

/-!
# What a digest stream covers

The stream that is hashed determines the rows it was built from, up to their order, and every order
of the same rows gives the same stream.  Each field is self-delimiting, so is each record, and the
records of one kind end where the tag changes.
-/

namespace RpcStateIndexer

open Reasoning

/-! ## Fields -/

theorem addressBytes_inj {a b : String} {x : AddressBytes} (ha : addressBytes a = .ok x)
    (hb : addressBytes b = .ok x) : a = b := by
  unfold addressBytes at ha hb
  split at ha
  case isFalse => simp at ha
  case isTrue hisA =>
  split at hb
  case isFalse => simp at hb
  case isTrue hisB =>
  obtain ⟨body, hbody, hlen, hhex⟩ := isAddress_iff.mp hisA
  obtain ⟨body', hbody', hlen', hhex'⟩ := isAddress_iff.mp hisB
  have hbytes : fromHex body = fromHex body' := by
    have h := congrArg Subtype.val (Except.ok.inj (ha.trans hb.symm))
    simpa [hbody, hbody'] using h
  have heq := fromHex_inj (hlen.trans hlen'.symm) (by omega) hhex hhex' hbytes
  rw [← String.toList_inj, hbody, hbody', heq]

theorem addressKey_inj {a b : String} {x : List Nat} (ha : addressKey a = .ok x)
    (hb : addressKey b = .ok x) : a = b := by
  simp only [addressKey, except_bind_eq_ok_iff, except_pure_eq_ok_iff] at ha hb
  obtain ⟨y, hy, rfl⟩ := ha
  obtain ⟨z, hz, hzy⟩ := hb
  have hlist := (List.map_injective_iff.mpr fun _ _ => UInt8.toNat_inj.mp) hzy
  obtain rfl := List.Vector.toList_injective hlist
  exact addressBytes_inj hy hz

theorem selfDelimiting_addressField : SelfDelimiting addressField := by
  apply SelfDelimiting.of_length (n := 20)
  · intro a x ha
    simp only [addressField, except_bind_eq_ok_iff, except_pure_eq_ok_iff] at ha
    obtain ⟨y, -, rfl⟩ := ha
    exact y.toList_length
  · intro a b x ha hb
    simp only [addressField, except_bind_eq_ok_iff, except_pure_eq_ok_iff] at ha hb
    obtain ⟨y, hy, rfl⟩ := ha
    obtain ⟨z, hz, hzy⟩ := hb
    obtain rfl := List.Vector.toList_injective hzy
    exact addressBytes_inj hy hz

theorem uint256Bytes_eq_ok_iff {value : Int} {x : List UInt8} : uint256Bytes value = .ok x ↔
    0 ≤ value ∧ value ≤ uint256Max ∧ x = bytesBE 32 value.toNat := by
  unfold uint256Bytes
  split
  · rename_i h
    simp [h, eq_comm]
  · rename_i h
    simp only [reduceCtorEq, false_iff]
    exact fun hx => h ⟨hx.1, hx.2.1⟩

theorem int256Bytes_eq_ok_iff {value : Int} {x : List UInt8} : int256Bytes value = .ok x ↔
    int256Min ≤ value ∧ value ≤ int256Max ∧ x = bytesBE 32 (value % 2 ^ 256).toNat := by
  unfold int256Bytes
  split
  · rename_i h
    simp [h, eq_comm]
  · rename_i h
    simp only [reduceCtorEq, false_iff]
    exact fun hx => h ⟨hx.1, hx.2.1⟩

theorem selfDelimiting_uint256Bytes : SelfDelimiting uint256Bytes := by
  apply SelfDelimiting.of_length (n := 32)
  · intro a x ha
    rw [(uint256Bytes_eq_ok_iff.mp ha).2.2]
    exact length_bytesBE 32 _
  · intro a b x ha hb
    have ha := uint256Bytes_eq_ok_iff.mp ha
    have hb := uint256Bytes_eq_ok_iff.mp hb
    have hbound : ∀ i : Int, 0 ≤ i → i ≤ uint256Max → i.toNat < 256 ^ 32 := by
      intro i hi₀ hi₁
      simp only [uint256Max] at hi₁
      omega
    have hnat := bytesBE_inj (hbound a ha.1 ha.2.1) (hbound b hb.1 hb.2.1)
      (ha.2.2.symm.trans hb.2.2)
    have ha₀ := ha.1
    have hb₀ := hb.1
    omega

theorem selfDelimiting_int256Bytes : SelfDelimiting int256Bytes := by
  apply SelfDelimiting.of_length (n := 32)
  · intro a x ha
    rw [(int256Bytes_eq_ok_iff.mp ha).2.2]
    exact length_bytesBE 32 _
  · intro a b x ha hb
    have ha := int256Bytes_eq_ok_iff.mp ha
    have hb := int256Bytes_eq_ok_iff.mp hb
    have hbound : ∀ i : Int, (i % 2 ^ 256).toNat < 256 ^ 32 := by
      intro i
      omega
    have hnat := bytesBE_inj (hbound a) (hbound b) (ha.2.2.symm.trans hb.2.2)
    have ha₁ := ha.2.1
    have hb₁ := hb.2.1
    simp only [int256Max] at ha₁ hb₁
    -- Both are residues of the signed range, which two's complement tells apart.
    exact emod_inj_of_signed ha.1 (by omega) hb.1 (by omega) (by omega)

theorem selfDelimiting_countBytes : SelfDelimiting countBytes := by
  refine .ofBytesBE 4 fun n x hn => ?_
  unfold countBytes at hn
  split at hn
  · rename_i h
    exact ⟨h, (Except.ok.inj hn).symm⟩
  · simp at hn

theorem utf8_injective : Function.Injective utf8 := by
  intro a b h
  apply String.toByteArray_inj.mp
  apply ByteArray.ext
  exact Array.toList_inj.mp h

theorem selfDelimiting_textBytes : SelfDelimiting textBytes := by
  intro a b x y s t hx hy h
  have hok : ∀ value z, textBytes value = .ok z →
      updates [countBytes (utf8 value).length, .ok (utf8 value)] = .ok z := by
    intro value z hz
    unfold textBytes at hz
    split at hz
    · simp at hz
    · exact hz
  exact selfDelimiting_prefixed selfDelimiting_countBytes utf8_injective (hok a x hx) (hok b y hy) h

theorem selfDelimiting_scaledBytes : SelfDelimiting scaledBytes := by
  intro a b x y s t hx hy h
  have hsome : ∀ value z, scaledBytes (some value) = .ok z →
      ∃ bytes, uint256Bytes value = .ok bytes ∧ z = 1 :: bytes := by
    intro value z hz
    simp only [scaledBytes, updates_cons_eq_ok_iff, updates_nil_eq_ok_iff, Except.ok.injEq] at hz
    obtain ⟨_, _, rfl, ⟨bytes, _, hbytes, rfl, rfl⟩, rfl⟩ := hz
    exact ⟨bytes, hbytes, by simp⟩
  have hnone : ∀ z, scaledBytes none = .ok z → z = [0] := fun z hz => (Except.ok.inj hz).symm
  -- The presence bytes differ, so both rows have a scaled balance or neither has.
  cases a with
  | none =>
    obtain rfl := hnone x hx
    cases b with
    | none =>
      obtain rfl := hnone y hy
      exact ⟨rfl, List.append_cancel_left h⟩
    | some v =>
      obtain ⟨bytes, -, rfl⟩ := hsome v y hy
      simp at h
  | some u =>
    obtain ⟨bytes, hbytes, rfl⟩ := hsome u x hx
    cases b with
    | none =>
      obtain rfl := hnone y hy
      simp at h
    | some v =>
      obtain ⟨bytes', hbytes', rfl⟩ := hsome v y hy
      simp only [List.cons_append, List.cons.injEq, true_and] at h
      obtain ⟨rfl, rfl⟩ := selfDelimiting_uint256Bytes.cancel hbytes hbytes' h
      exact ⟨rfl, rfl⟩

theorem nonneg_of_scaledBytes {value : Int} {x : List UInt8}
    (h : scaledBytes (some value) = .ok x) : 0 ≤ value := by
  simp only [scaledBytes, updates_cons_eq_ok_iff] at h
  obtain ⟨_, _, -, ⟨bytes, _, hbytes, -⟩, -⟩ := h
  exact (uint256Bytes_eq_ok_iff.mp hbytes).1

/-! ## Records -/

theorem selfDelimiting_balance : SelfDelimiting BalanceDigestRow.updates := by
  have h : Determines BalanceDigestRow.updates _ := .cons (.tag (utf8 "B"))
    (.cons (selfDelimiting_addressField.comap BalanceDigestRow.holderAddress)
    (.cons (selfDelimiting_textBytes.comap BalanceDigestRow.valueKind)
    (.cons (selfDelimiting_uint256Bytes.comap BalanceDigestRow.balanceRaw)
    (.cons (selfDelimiting_scaledBytes.comap BalanceDigestRow.scaledBalanceRaw) .nil))))
  apply h.selfDelimiting
  intro a b hab
  cases a
  cases b
  simp_all

theorem selfDelimiting_scalar : SelfDelimiting ScalarDigestRow.updates := by
  have h : Determines ScalarDigestRow.updates _ := .cons (.tag (utf8 "S"))
    (.cons (selfDelimiting_textBytes.comap ScalarDigestRow.scalarName)
    (.cons (selfDelimiting_uint256Bytes.comap ScalarDigestRow.scalarRaw) .nil))
  apply h.selfDelimiting
  intro a b hab
  cases a
  cases b
  simp_all

theorem selfDelimiting_poolBalance : SelfDelimiting PoolBalanceDigestRow.updates := by
  have h : Determines PoolBalanceDigestRow.updates _ := .cons (.tag (utf8 "P"))
    (.cons (selfDelimiting_addressField.comap PoolBalanceDigestRow.poolAddress)
    (.cons (selfDelimiting_addressField.comap PoolBalanceDigestRow.tokenAddress)
    (.cons (selfDelimiting_uint256Bytes.comap PoolBalanceDigestRow.balanceRaw) .nil)))
  apply h.selfDelimiting
  intro a b hab
  cases a
  cases b
  simp_all

theorem selfDelimiting_clState : SelfDelimiting PoolClStateDigestRow.updates := by
  have h : Determines PoolClStateDigestRow.updates _ := .cons (.tag (utf8 "C"))
    (.cons (selfDelimiting_addressField.comap PoolClStateDigestRow.poolAddress)
    (.cons (selfDelimiting_uint256Bytes.comap PoolClStateDigestRow.sqrtPriceX96)
    (.cons (selfDelimiting_int256Bytes.comap PoolClStateDigestRow.currentTick)
    (.cons (selfDelimiting_uint256Bytes.comap PoolClStateDigestRow.liquidity)
    (.cons (selfDelimiting_uint256Bytes.comap PoolClStateDigestRow.feeGrowthGlobal0X128)
    (.cons (selfDelimiting_uint256Bytes.comap PoolClStateDigestRow.feeGrowthGlobal1X128)
    (.cons (selfDelimiting_int256Bytes.comap PoolClStateDigestRow.tickSpacing)
    (.cons (selfDelimiting_uint256Bytes.comap PoolClStateDigestRow.fee)
    (.cons (selfDelimiting_uint256Bytes.comap PoolClStateDigestRow.tickCount) .nil)))))))))
  apply h.selfDelimiting
  intro a b hab
  cases a
  cases b
  simp_all

/-- A tick row that is accepted is one of the pool's. -/
theorem PoolTickDigestRow.poolAddress_of_updates {pool : String} {row : PoolTickDigestRow}
    {x : List UInt8} (h : row.updates pool = .ok x) : row.poolAddress = pool := by
  by_contra hne
  simp [PoolTickDigestRow.updates, hne] at h

theorem selfDelimiting_tick (pool : String) : SelfDelimiting (PoolTickDigestRow.updates pool) := by
  have h : Determines (fun row : PoolTickDigestRow => Reasoning.updates [.ok (utf8 "T"),
      int256Bytes row.tick, uint256Bytes row.liquidityGross, int256Bytes row.liquidityNet,
      uint256Bytes row.feeGrowthOutside0X128, uint256Bytes row.feeGrowthOutside1X128]) _ :=
    .cons (.tag (utf8 "T"))
    (.cons (selfDelimiting_int256Bytes.comap PoolTickDigestRow.tick)
    (.cons (selfDelimiting_uint256Bytes.comap PoolTickDigestRow.liquidityGross)
    (.cons (selfDelimiting_int256Bytes.comap PoolTickDigestRow.liquidityNet)
    (.cons (selfDelimiting_uint256Bytes.comap PoolTickDigestRow.feeGrowthOutside0X128)
    (.cons (selfDelimiting_uint256Bytes.comap PoolTickDigestRow.feeGrowthOutside1X128) .nil)))))
  intro a b x y s t hx hy heq
  have ha := PoolTickDigestRow.poolAddress_of_updates hx
  have hb := PoolTickDigestRow.poolAddress_of_updates hy
  rw [PoolTickDigestRow.updates, if_neg (by simpa using ha)] at hx
  rw [PoolTickDigestRow.updates, if_neg (by simpa using hb)] at hy
  obtain ⟨hfields, hrest⟩ := h hx hy heq
  refine ⟨?_, hrest⟩
  cases a
  cases b
  simp_all

theorem selfDelimiting_member : SelfDelimiting memberUpdates := by
  have hbytes : SelfDelimiting fun bytes : AddressBytes =>
      (.ok bytes.toList : Except DigestException _) := by
    apply SelfDelimiting.of_length (n := 20)
    · intro a x ha
      rw [← Except.ok.inj ha]
      exact a.toList_length
    · intro a b x ha hb
      exact List.Vector.toList_injective (Except.ok.inj (ha.trans hb.symm))
  have h : Determines memberUpdates _ := .cons (.tag (utf8 "U"))
    (.cons (hbytes.comap Prod.fst)
    (.cons ((SelfDelimiting.counted selfDelimiting_countBytes selfDelimiting_textBytes).comap
      Prod.snd) .nil))
  apply h.selfDelimiting
  intro a b hab
  simp only [Prod.mk.injEq, id_eq, and_true, true_and] at hab
  exact Prod.ext hab.1 hab.2

/-! ## Tags -/

theorem tag_balance (row : BalanceDigestRow) (x : List UInt8) (h : row.updates = .ok x) :
    x.head? = some 66 := head?_updates h

theorem tag_scalar (row : ScalarDigestRow) (x : List UInt8) (h : row.updates = .ok x) :
    x.head? = some 83 := head?_updates h

theorem tag_poolBalance (row : PoolBalanceDigestRow) (x : List UInt8) (h : row.updates = .ok x) :
    x.head? = some 80 := head?_updates h

theorem tag_tick (pool : String) (row : PoolTickDigestRow) (x : List UInt8)
    (h : row.updates pool = .ok x) : x.head? = some 84 := by
  rw [PoolTickDigestRow.updates,
    if_neg (by simpa using PoolTickDigestRow.poolAddress_of_updates h)] at h
  exact head?_updates h

theorem tag_member (member : AddressBytes × List String) (x : List UInt8)
    (h : memberUpdates member = .ok x) : x.head? = some 85 := head?_updates h

/-! ## Token observations -/

theorem tokenStream_eq_ok_iff {balances : List BalanceDigestRow} {scalars : List ScalarDigestRow}
    {x : List UInt8} : tokenStream balances scalars = .ok x ↔
      ∃ rows y z, sortByM BalanceDigestRow.key balances = .ok rows ∧
        updates (rows.map BalanceDigestRow.updates) = .ok y ∧
        updates ((sortBy ScalarDigestRow.key scalars).map ScalarDigestRow.updates) = .ok z ∧
        x = tokenHeader ++ (y ++ z) := by
  simp only [tokenStream, except_bind_eq_ok_iff, updates_cons_eq_ok_iff, updates_nil_eq_ok_iff,
    Except.ok.injEq]
  constructor
  · rintro ⟨rows, hrows, _, _, rfl, ⟨y, _, hy, ⟨z, _, hz, rfl, rfl⟩, rfl⟩, rfl⟩
    exact ⟨rows, y, z, hrows, hy, hz, by simp⟩
  · rintro ⟨rows, y, z, hrows, hy, hz, rfl⟩
    exact ⟨rows, hrows, _, _, rfl, ⟨y, _, hy, ⟨z, _, hz, rfl, rfl⟩, rfl⟩, by simp⟩

/-- A row that was encoded is told apart by its key: `none` sorts as `-1`, which is no balance. -/
theorem BalanceDigestRow.key_inj {a b : BalanceDigestRow} {x y : List UInt8}
    (ha : a.updates = .ok x) (hb : b.updates = .ok y) {k : List Nat ×ₗ String ×ₗ Int ×ₗ Int}
    (hka : a.key = .ok k) (hkb : b.key = .ok k) : a = b := by
  have hscaled : ∀ {row : BalanceDigestRow} {z : List UInt8}, row.updates = .ok z →
      ∀ v, row.scaledBalanceRaw = some v → 0 ≤ v := by
    intro row z hz v hv
    simp only [BalanceDigestRow.updates, updates_cons_eq_ok_iff] at hz
    obtain ⟨_, _, -, ⟨_, _, -, ⟨_, _, -, ⟨_, _, -, ⟨bytes, _, hbytes, -⟩, -⟩, -⟩, -⟩, -⟩ := hz
    rw [hv] at hbytes
    exact nonneg_of_scaledBytes hbytes
  have ha' := hscaled ha
  have hb' := hscaled hb
  simp only [BalanceDigestRow.key, except_bind_eq_ok_iff, except_pure_eq_ok_iff] at hka hkb
  obtain ⟨p, hp, rfl⟩ := hka
  obtain ⟨q, hq, hqp⟩ := hkb
  simp only [EmbeddingLike.apply_eq_iff_eq, Prod.mk.injEq] at hqp
  obtain ⟨rfl, hkind, hbalance, hscaledEq⟩ := hqp
  have haddress := addressKey_inj hp hq
  have hopt : a.scaledBalanceRaw = b.scaledBalanceRaw := by
    cases hsa : a.scaledBalanceRaw with
    | none =>
      cases hsb : b.scaledBalanceRaw with
      | none => rfl
      | some v =>
        have hv := hb' v hsb
        simp [hsa, hsb] at hscaledEq
        omega
    | some u =>
      have hu := ha' u hsa
      cases hsb : b.scaledBalanceRaw with
      | none =>
        simp [hsa, hsb] at hscaledEq
        omega
      | some v => simpa [hsa, hsb, eq_comm] using hscaledEq
  cases a
  cases b
  simp_all

theorem ScalarDigestRow.key_injective : Function.Injective ScalarDigestRow.key := by
  intro a b h
  simp only [ScalarDigestRow.key, EmbeddingLike.apply_eq_iff_eq, Prod.mk.injEq] at h
  cases a
  cases b
  simp_all

theorem tokenStream_eq_iff {b₁ b₂ : List BalanceDigestRow} {s₁ s₂ : List ScalarDigestRow}
    {x₁ x₂ : List UInt8} (h₁ : tokenStream b₁ s₁ = .ok x₁) (h₂ : tokenStream b₂ s₂ = .ok x₂) :
    x₁ = x₂ ↔ b₁.Perm b₂ ∧ s₁.Perm s₂ := by
  obtain ⟨r₁, y₁, z₁, hr₁, hy₁, hz₁, rfl⟩ := tokenStream_eq_ok_iff.mp h₁
  obtain ⟨r₂, y₂, z₂, hr₂, hy₂, hz₂, rfl⟩ := tokenStream_eq_ok_iff.mp h₂
  have hkey : ∀ a ∈ b₁, ∀ b ∈ b₁, ∀ k, a.key = .ok k → b.key = .ok k → a = b := by
    intro a ha b hb k
    obtain ⟨_, hxa⟩ := exists_of_mem_updates hy₁ ((sortByM_perm hr₁).mem_iff.mpr ha)
    obtain ⟨_, hxb⟩ := exists_of_mem_updates hy₁ ((sortByM_perm hr₁).mem_iff.mpr hb)
    exact BalanceDigestRow.key_inj hxa hxb
  rw [List.append_right_inj, ← sortByM_eq_iff hkey hr₁ hr₂,
    ← sortBy_eq_iff fun a _ b _ h => ScalarDigestRow.key_injective h]
  constructor
  · intro h
    -- The balance records end where the first scalar record or the stream's end comes.
    have hne : (66 : UInt8) ≠ 83 := by decide
    obtain ⟨hrows, hz⟩ := selfDelimiting_balance.tagged tag_balance hy₁ hy₂
      (head?_records_ne tag_scalar hne.symm hz₁) (head?_records_ne tag_scalar hne.symm hz₂) h
    have hz' : z₁ ++ [] = z₂ ++ [] := by rw [hz]
    obtain ⟨hscalars, -⟩ := selfDelimiting_scalar.tagged tag_scalar hz₁ hz₂ (by simp) (by simp) hz'
    exact ⟨hrows, hscalars⟩
  · rintro ⟨rfl, hscalars⟩
    rw [hscalars] at hz₁
    rw [Except.ok.inj (hy₁.symm.trans hy₂), Except.ok.inj (hz₁.symm.trans hz₂)]

/-! ## Pool observations -/

theorem poolStream_eq_ok_iff {rows : List PoolBalanceDigestRow} {x : List UInt8} :
    poolStream rows = .ok x ↔ ∃ canonical y,
      sortByM PoolBalanceDigestRow.key rows = .ok canonical ∧
        updates (canonical.map PoolBalanceDigestRow.updates) = .ok y ∧ x = poolHeader ++ y := by
  simp only [poolStream, except_bind_eq_ok_iff, updates_cons_eq_ok_iff, updates_nil_eq_ok_iff,
    Except.ok.injEq]
  constructor
  · rintro ⟨canonical, hcanonical, _, _, rfl, ⟨y, _, hy, rfl, rfl⟩, rfl⟩
    exact ⟨canonical, y, hcanonical, hy, by simp⟩
  · rintro ⟨canonical, y, hcanonical, hy, rfl⟩
    exact ⟨canonical, hcanonical, _, _, rfl, ⟨y, _, hy, rfl, rfl⟩, by simp⟩

theorem PoolBalanceDigestRow.key_inj {a b : PoolBalanceDigestRow} {k : List Nat ×ₗ List Nat ×ₗ Int}
    (ha : a.key = .ok k) (hb : b.key = .ok k) : a = b := by
  simp only [PoolBalanceDigestRow.key, except_bind_eq_ok_iff, except_pure_eq_ok_iff] at ha hb
  obtain ⟨p, hp, t, ht, rfl⟩ := ha
  obtain ⟨q, hq, u, hu, huq⟩ := hb
  simp only [EmbeddingLike.apply_eq_iff_eq, Prod.mk.injEq] at huq
  obtain ⟨rfl, rfl, hbalance⟩ := huq
  have hpool := addressKey_inj hp hq
  have htoken := addressKey_inj ht hu
  cases a
  cases b
  simp_all

theorem poolStream_eq_iff {rows₁ rows₂ : List PoolBalanceDigestRow} {x₁ x₂ : List UInt8}
    (h₁ : poolStream rows₁ = .ok x₁) (h₂ : poolStream rows₂ = .ok x₂) :
    x₁ = x₂ ↔ rows₁.Perm rows₂ := by
  obtain ⟨c₁, y₁, hc₁, hy₁, rfl⟩ := poolStream_eq_ok_iff.mp h₁
  obtain ⟨c₂, y₂, hc₂, hy₂, rfl⟩ := poolStream_eq_ok_iff.mp h₂
  rw [List.append_right_inj,
    ← sortByM_eq_iff (fun a _ b _ _ ha hb => PoolBalanceDigestRow.key_inj ha hb) hc₁ hc₂]
  constructor
  · intro h
    have hy : y₁ ++ [] = y₂ ++ [] := by rw [h]
    exact (selfDelimiting_poolBalance.tagged tag_poolBalance hy₁ hy₂ (by simp) (by simp) hy).1
  · rintro rfl
    exact Except.ok.inj (hy₁.symm.trans hy₂)

/-! ## Concentrated-liquidity observations -/

theorem clStream_eq_ok_iff {state : PoolClStateDigestRow} {ticks : List PoolTickDigestRow}
    {x : List UInt8} : clStream state ticks = .ok x ↔ ∃ y z, state.updates = .ok y ∧
      updates ((sortBy PoolTickDigestRow.tick ticks).map
        (PoolTickDigestRow.updates state.poolAddress)) = .ok z ∧ x = clHeader ++ (y ++ z) := by
  simp only [clStream, updates_cons_eq_ok_iff, updates_nil_eq_ok_iff, Except.ok.injEq]
  constructor
  · rintro ⟨_, _, rfl, ⟨y, _, hy, ⟨z, _, hz, rfl, rfl⟩, rfl⟩, rfl⟩
    exact ⟨y, z, hy, hz, by simp⟩
  · rintro ⟨y, z, hy, hz, rfl⟩
    exact ⟨_, _, rfl, ⟨y, _, hy, ⟨z, _, hz, rfl, rfl⟩, rfl⟩, by simp⟩

/-- Tick rows of pairwise distinct ticks, in one order or another, are one set. -/
theorem clStream_eq_iff {c₁ c₂ : PoolClStateDigestRow} {t₁ t₂ : List PoolTickDigestRow}
    {x₁ x₂ : List UInt8} (hd₁ : (t₁.map PoolTickDigestRow.tick).Nodup)
    (hd₂ : (t₂.map PoolTickDigestRow.tick).Nodup) (h₁ : clStream c₁ t₁ = .ok x₁)
    (h₂ : clStream c₂ t₂ = .ok x₂) :
    x₁ = x₂ ↔ c₁ = c₂ ∧ ∀ row, row ∈ t₁ ↔ row ∈ t₂ := by
  obtain ⟨y₁, z₁, hy₁, hz₁, rfl⟩ := clStream_eq_ok_iff.mp h₁
  obtain ⟨y₂, z₂, hy₂, hz₂, rfl⟩ := clStream_eq_ok_iff.mp h₂
  rw [List.append_right_inj, ← List.perm_ext_iff_of_nodup hd₁.of_map hd₂.of_map,
    ← sortBy_eq_iff fun a ha b hb h => List.inj_on_of_nodup_map hd₁ ha hb h]
  constructor
  · intro h
    obtain ⟨rfl, h⟩ := selfDelimiting_clState.cancel hy₁ hy₂ h
    have hz : z₁ ++ [] = z₂ ++ [] := by rw [h]
    exact ⟨rfl, ((selfDelimiting_tick _).tagged (tag_tick _) hz₁ hz₂ (by simp) (by simp) hz).1⟩
  · rintro ⟨rfl, hticks⟩
    rw [hticks] at hz₁
    rw [Except.ok.inj (hy₁.symm.trans hy₂), Except.ok.inj (hz₁.symm.trans hz₂)]

/-! ## Universe -/

/-- A universe as a map: the distinct sources of an address. -/
def sourcesOf (members : List (String × List String)) (address : String) : Option (Finset String) :=
  (members.lookup address).map List.toFinset

theorem canonicalMembers_spec {members : List (String × List String)} {seen : List String}
    {canonical : List (AddressBytes × List String)}
    (h : canonicalMembers members seen = .ok canonical) :
    (∀ member ∈ members, member.1 ∉ seen) ∧ (members.map Prod.fst).Nodup ∧
      List.Forall₂ (fun member c => addressBytes member.1 = .ok c.1 ∧ c.2 = sortedSet member.2)
        members canonical := by
  induction members generalizing seen canonical with
  | nil => simp_all [canonicalMembers]
  | cons member rest ih =>
    obtain ⟨address, sources⟩ := member
    rw [canonicalMembers] at h
    split at h
    · simp at h
    · rename_i hseen
      simp only [except_bind_eq_ok_iff, except_pure_eq_ok_iff] at h
      obtain ⟨bytes, hbytes, tail, htail, rfl⟩ := h
      obtain ⟨hfresh, hnodup, hall⟩ := ih htail
      have hnot : ∀ m ∈ rest, m.1 ∉ seen ∧ m.1 ≠ address := by
        intro m hm
        simpa [not_or, and_comm] using hfresh m hm
      refine ⟨?_, ?_, .cons ⟨hbytes, rfl⟩ hall⟩
      · intro m hm
        rcases List.mem_cons.mp hm with rfl | hm
        · exact hseen
        · exact (hnot m hm).1
      · rw [List.map_cons, List.nodup_cons]
        refine ⟨fun hmem => ?_, hnodup⟩
        obtain ⟨m, hm, heq⟩ := List.mem_map.mp hmem
        exact (hnot m hm).2 heq

section Canonical

variable {members : List (String × List String)} {canonical : List (AddressBytes × List String)}

theorem mem_canonicalMembers (h : canonicalMembers members [] = .ok canonical)
    {c : AddressBytes × List String} : c ∈ canonical ↔
      ∃ address sources, members.lookup address = some sources ∧
        addressBytes address = .ok c.1 ∧ c.2 = sortedSet sources := by
  obtain ⟨-, hnodup, hall⟩ := canonicalMembers_spec h
  constructor
  · intro hc
    obtain ⟨⟨address, sources⟩, hmem, hbytes, hsources⟩ := forall₂_right hall hc
    exact ⟨address, sources, (mem_iff_lookup hnodup).mp hmem, hbytes, hsources⟩
  · rintro ⟨address, sources, hlookup, hbytes, hsources⟩
    obtain ⟨c', hc', hbytes', hsources'⟩ := forall₂_left hall ((mem_iff_lookup hnodup).mpr hlookup)
    have heq : c = c' :=
      Prod.ext (Except.ok.inj (hbytes.symm.trans hbytes')) (hsources.trans hsources'.symm)
    rwa [heq]

/-- Distinct addresses have distinct bytes. -/
theorem canonicalMembers_nodup (h : canonicalMembers members [] = .ok canonical) :
    (canonical.map Prod.fst).Nodup := by
  obtain ⟨-, hnodup, hall⟩ := canonicalMembers_spec h
  clear h
  induction hall with
  | nil => simp
  | @cons member c rest tail hhead hall ih =>
    rw [List.map_cons, List.nodup_cons] at hnodup ⊢
    refine ⟨fun hmem => ?_, ih hnodup.2⟩
    obtain ⟨c', hc', heq⟩ := List.mem_map.mp hmem
    obtain ⟨m, hm, hbytes, -⟩ := forall₂_right hall hc'
    rw [heq] at hbytes
    exact hnodup.1 (List.mem_map.mpr ⟨m, hm, addressBytes_inj hbytes hhead.1⟩)

/-- What one universe's canonical members say, another's with the same members says of its map. -/
theorem sourcesOf_of_canonical {members' : List (String × List String)}
    {canonical' : List (AddressBytes × List String)}
    (h : canonicalMembers members [] = .ok canonical)
    (h' : canonicalMembers members' [] = .ok canonical')
    (hsub : ∀ c, c ∈ canonical → c ∈ canonical') {address : String} {sources : Finset String}
    (hsources : sourcesOf members address = some sources) :
    sourcesOf members' address = some sources := by
  obtain ⟨l, hl, rfl⟩ := Option.map_eq_some_iff.mp hsources
  obtain ⟨-, hnodup, hall⟩ := canonicalMembers_spec h
  obtain ⟨c, hc, hbytes, hsorted⟩ := forall₂_left hall ((mem_iff_lookup hnodup).mpr hl)
  obtain ⟨address', l', hl', hbytes', hsorted'⟩ := (mem_canonicalMembers h').mp (hsub c hc)
  obtain rfl := addressBytes_inj hbytes hbytes'
  have hset := sortedSet_eq_iff.mp (hsorted.symm.trans hsorted')
  rw [sourcesOf, hl']
  show some l'.toFinset = some l.toFinset
  congr 1
  ext a
  simp [hset a]

end Canonical

theorem canonical_perm_iff {m₁ m₂ : List (String × List String)}
    {c₁ c₂ : List (AddressBytes × List String)} (h₁ : canonicalMembers m₁ [] = .ok c₁)
    (h₂ : canonicalMembers m₂ [] = .ok c₂) :
    c₁.Perm c₂ ↔ ∀ address, sourcesOf m₁ address = sourcesOf m₂ address := by
  rw [List.perm_ext_iff_of_nodup (canonicalMembers_nodup h₁).of_map
    (canonicalMembers_nodup h₂).of_map]
  constructor
  · intro h address
    apply Option.ext
    intro sources
    exact ⟨sourcesOf_of_canonical h₁ h₂ fun c => (h c).mp,
      sourcesOf_of_canonical h₂ h₁ fun c => (h c).mpr⟩
  · intro h c
    have hhalf : ∀ {m m' : List (String × List String)} {l l' : List (AddressBytes × List String)},
        canonicalMembers m [] = .ok l → canonicalMembers m' [] = .ok l' →
        (∀ address, sourcesOf m address = sourcesOf m' address) → c ∈ l → c ∈ l' := by
      intro m m' l l' hm hm' hsame hc
      obtain ⟨address, sources, hlookup, hbytes, hsorted⟩ := (mem_canonicalMembers hm).mp hc
      have hsources := hsame address
      rw [sourcesOf, hlookup] at hsources
      obtain ⟨sources', hlookup', hset⟩ := Option.map_eq_some_iff.mp hsources.symm
      refine (mem_canonicalMembers hm').mpr ⟨address, sources', hlookup', hbytes, ?_⟩
      rw [hsorted]
      refine sortedSet_eq_iff.mpr fun a => ?_
      rw [← List.mem_toFinset, ← List.mem_toFinset, hset]
    exact ⟨hhalf h₁ h₂ h, hhalf h₂ h₁ fun address => (h address).symm⟩

theorem universeStream_eq_ok_iff {members : List (String × List String)} {x : List UInt8} :
    universeStream members = .ok x ↔ ∃ canonical y, canonicalMembers members [] = .ok canonical ∧
      updates ((sortBy (fun member => member.1.toList.map UInt8.toNat) canonical).map
        memberUpdates) = .ok y ∧ x = universeHeader ++ y := by
  simp only [universeStream, except_bind_eq_ok_iff, updates_cons_eq_ok_iff, updates_nil_eq_ok_iff,
    Except.ok.injEq]
  constructor
  · rintro ⟨canonical, hcanonical, _, _, rfl, ⟨y, _, hy, rfl, rfl⟩, rfl⟩
    exact ⟨canonical, y, hcanonical, hy, by simp⟩
  · rintro ⟨canonical, y, hcanonical, hy, rfl⟩
    exact ⟨canonical, hcanonical, _, _, rfl, ⟨y, _, hy, rfl, rfl⟩, by simp⟩

theorem universeStream_eq_iff {m₁ m₂ : List (String × List String)} {x₁ x₂ : List UInt8}
    (h₁ : universeStream m₁ = .ok x₁) (h₂ : universeStream m₂ = .ok x₂) :
    x₁ = x₂ ↔ ∀ address, sourcesOf m₁ address = sourcesOf m₂ address := by
  obtain ⟨c₁, y₁, hc₁, hy₁, rfl⟩ := universeStream_eq_ok_iff.mp h₁
  obtain ⟨c₂, y₂, hc₂, hy₂, rfl⟩ := universeStream_eq_ok_iff.mp h₂
  have hkey : ∀ a ∈ c₁, ∀ b ∈ c₁,
      a.1.toList.map UInt8.toNat = b.1.toList.map UInt8.toNat → a = b := by
    intro a ha b hb h
    have hbytes := (List.map_injective_iff.mpr fun _ _ => UInt8.toNat_inj.mp) h
    exact List.inj_on_of_nodup_map (canonicalMembers_nodup hc₁) ha hb
      (List.Vector.toList_injective hbytes)
  rw [List.append_right_inj, ← canonical_perm_iff hc₁ hc₂, ← sortBy_eq_iff hkey]
  constructor
  · intro h
    have hy : y₁ ++ [] = y₂ ++ [] := by rw [h]
    exact (selfDelimiting_member.tagged tag_member hy₁ hy₂ (by simp) (by simp) hy).1
  · intro h
    rw [h] at hy₁
    exact Except.ok.inj (hy₁.symm.trans hy₂)

/-! ## What a universe digest can write -/

/-- Every length is one that four bytes hold. -/
def Digestible (members : List (String × List String)) : Prop :=
  ∀ member ∈ members, (sortedSet member.2).length < 256 ^ 4 ∧
    ∀ source ∈ member.2, (utf8 source).length ≤ 0xFFFFFFFF

theorem exists_countBytes_iff {length : Nat} :
    (∃ x, countBytes length = .ok x) ↔ length < 256 ^ 4 := by
  unfold countBytes
  split
  · rename_i hfits
    exact iff_of_true ⟨_, rfl⟩ hfits
  · rename_i hfits
    exact iff_of_false (fun ⟨_, hno⟩ => error_ne_ok hno) hfits

theorem exists_textBytes_iff {value : String} :
    (∃ x, textBytes value = .ok x) ↔ (utf8 value).length ≤ 0xFFFFFFFF := by
  unfold textBytes
  split
  · rename_i hlong
    exact iff_of_false (fun ⟨_, hno⟩ => error_ne_ok hno) (by omega)
  · rename_i hshort
    have hcount : ∃ x, countBytes (utf8 value).length = .ok x := exists_countBytes_iff.mpr (by omega)
    refine iff_of_true (exists_updates_iff.mpr fun part hpart => ?_) (by omega)
    rcases List.mem_pair.mp hpart with rfl | rfl
    · exact hcount
    · exact ⟨_, rfl⟩

theorem exists_memberUpdates_iff {member : AddressBytes × List String} :
    (∃ x, memberUpdates member = .ok x) ↔
      member.2.length < 256 ^ 4 ∧ ∀ source ∈ member.2, (utf8 source).length ≤ 0xFFFFFFFF := by
  unfold memberUpdates
  simp only [exists_updates_iff, List.forall_mem_cons, List.forall_mem_map, exists_countBytes_iff,
    exists_textBytes_iff, Except.ok.injEq, exists_eq', List.not_mem_nil, false_implies, implies_true,
    true_and, and_true]

theorem exists_canonicalMembers {members : List (String × List String)} {seen : List String}
    (haddresses : ∀ member ∈ members, isAddress member.1 = true)
    (hnodup : (members.map Prod.fst).Nodup) (hseen : ∀ member ∈ members, member.1 ∉ seen) :
    ∃ canonical, canonicalMembers members seen = .ok canonical := by
  induction members generalizing seen with
  | nil => exact ⟨[], rfl⟩
  | cons member rest ih =>
    obtain ⟨haddress, haddresses⟩ := List.forall_mem_cons.mp haddresses
    obtain ⟨hfirst, hseen⟩ := List.forall_mem_cons.mp hseen
    rw [List.map_cons, List.nodup_cons] at hnodup
    obtain ⟨bytes, hbytes⟩ : ∃ bytes, addressBytes member.1 = .ok bytes := by
      rw [addressBytes, dif_pos haddress]
      exact ⟨_, rfl⟩
    obtain ⟨canonical, hcanonical⟩ :
        ∃ canonical, canonicalMembers rest (member.1 :: seen) = .ok canonical := by
      refine ih haddresses hnodup.2 fun other hother => ?_
      rw [List.mem_cons, not_or]
      refine ⟨fun heq => ?_, hseen other hother⟩
      exact hnodup.1 (heq ▸ List.mem_map_of_mem hother)
    rw [canonicalMembers, if_neg hfirst, hbytes, except_ok_bind, hcanonical]
    exact ⟨_, rfl⟩

/-- A universe of distinct addresses has a digest exactly when its lengths fit. -/
theorem exists_digestUniverse_iff {members : List (String × List String)}
    (haddresses : ∀ member ∈ members, isAddress member.1 = true)
    (hnodup : (members.map Prod.fst).Nodup) :
    (∃ digest, digestUniverse members = .ok digest) ↔ Digestible members := by
  obtain ⟨canonical, hcanonical⟩ := exists_canonicalMembers haddresses hnodup
    fun member _ => @List.not_mem_nil _ member.1
  obtain ⟨-, -, hall⟩ := canonicalMembers_spec hcanonical
  have hstream : (∃ digest, digestUniverse members = .ok digest) ↔
      ∃ x, universeStream members = .ok x := by
    unfold digestUniverse
    simp only [except_bind_eq_ok_iff, except_pure_eq_ok_iff]
    constructor
    · rintro ⟨_, x, hx, -⟩
      exact ⟨x, hx⟩
    · rintro ⟨x, hx⟩
      exact ⟨_, x, hx, rfl⟩
  rw [hstream, universeStream, hcanonical, except_ok_bind, exists_updates_iff]
  have hmembers : (∀ c ∈ canonical, ∃ x, memberUpdates c = .ok x) ↔ Digestible members := by
    simp only [exists_memberUpdates_iff]
    constructor
    · intro h member hmember
      obtain ⟨c, hc, -, hsources⟩ := forall₂_left hall hmember
      obtain ⟨hcount, htexts⟩ := h c hc
      rw [hsources] at hcount htexts
      exact ⟨hcount, fun source hsource => htexts source (mem_sortedSet.mpr hsource)⟩
    · intro h c hc
      obtain ⟨member, hmember, -, hsources⟩ := forall₂_right hall hc
      obtain ⟨hcount, htexts⟩ := h member hmember
      rw [hsources]
      exact ⟨hcount, fun source hsource => htexts source (mem_sortedSet.mp hsource)⟩
  rw [← hmembers]
  simp only [List.forall_mem_cons, List.not_mem_nil, false_implies, implies_true, and_true,
    Except.ok.injEq, exists_eq', true_and, exists_updates_iff, List.forall_mem_map, mem_sortBy]

end RpcStateIndexer
