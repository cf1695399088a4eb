import RpcStateIndexer.Catalog.Assemble
import RpcStateIndexer.Config.EffectiveConfig

/-!
# What assembling keeps

The merged entries come after the existing ones, under new keys.  The curated set is the exception: it
lowers the deployment block of an existing token in its place.
-/

namespace RpcStateIndexer

open Reasoning

/-! ## Lower-cased keys -/

theorem toLower_toLower (text : String) : text.toLower.toLower = text.toLower := by
  have hchar : ∀ c : Char, c.toLower.toLower = c.toLower := by
    intro c
    unfold Char.toLower
    grind
  rw [← String.toList_inj, toLower_toList, toLower_toList, List.map_map]
  exact List.map_congr_left fun c _ => hchar c

theorem key_curatedToken (text : String) (curated : CuratedMeta) :
    (curatedToken text.toLower curated).key = text.toLower := toLower_toLower text

/-! ## The tokens -/

section Tokens

variable {tokens : Dict String TokenEntry} {entry : String × CuratedMeta}

theorem mergeCurated_of_mem (h : entry.1.toLower ∈ tokens.keys) :
    mergeCurated tokens entry = tokens.modify entry.1.toLower fun token =>
      { token with deploymentBlock := min token.deploymentBlock entry.2.deploymentBlock } := if_pos h

theorem mergeCurated_of_not_mem (h : entry.1.toLower ∉ tokens.keys) :
    mergeCurated tokens entry =
      tokens.append entry.1.toLower (curatedToken entry.1.toLower entry.2) h := by
  show (if _ then _ else _) = _
  rw [if_neg h]
  exact dif_neg h

theorem keyedBy_mergeCurated (h : tokens.KeyedBy TokenEntry.key) :
    (mergeCurated tokens entry).KeyedBy TokenEntry.key := by
  by_cases hmem : entry.1.toLower ∈ tokens.keys
  · rw [mergeCurated_of_mem hmem]
    exact h.modify fun _ hkey => hkey
  · rw [mergeCurated_of_not_mem hmem]
    exact h.append (key_curatedToken entry.1 entry.2).symm hmem

theorem mem_keys_mergeCurated {addr : String} (h : addr ∈ tokens.keys) :
    addr ∈ (mergeCurated tokens entry).keys := by
  by_cases hmem : entry.1.toLower ∈ tokens.keys
  · rw [mergeCurated_of_mem hmem, Dict.keys_modify]
    exact h
  · rw [mergeCurated_of_not_mem hmem]
    exact (Dict.extends_append ..).mem_keys h

/-- The token of the address is there, deployed no later than the curated entry says. -/
def Bounded (entry : String × CuratedMeta) (tokens : Dict String TokenEntry) : Prop :=
  ∃ token, tokens.get? entry.1.toLower = some token ∧
    token.deploymentBlock ≤ entry.2.deploymentBlock

theorem bounded_mergeCurated (tokens : Dict String TokenEntry) (entry : String × CuratedMeta) :
    Bounded entry (mergeCurated tokens entry) := by
  by_cases hmem : entry.1.toLower ∈ tokens.keys
  · obtain ⟨token, htoken⟩ := Dict.exists_get? hmem
    rw [mergeCurated_of_mem hmem]
    refine ⟨_, Dict.get?_modify htoken, ?_⟩
    rw [if_pos rfl]
    exact min_le_right _ _
  · rw [mergeCurated_of_not_mem hmem]
    exact ⟨curatedToken entry.1.toLower entry.2,
      Dict.get?_of_mem (List.mem_append_right _ (List.mem_singleton.mpr rfl)), le_rfl⟩

/-- A later entry lowers a block at most. -/
theorem Bounded.merge {entry : String × CuratedMeta} (h : Bounded entry tokens)
    (other : String × CuratedMeta) : Bounded entry (mergeCurated tokens other) := by
  obtain ⟨token, htoken, hblock⟩ := h
  by_cases hmem : other.1.toLower ∈ tokens.keys
  · rw [mergeCurated_of_mem hmem]
    refine ⟨_, Dict.get?_modify htoken, ?_⟩
    split
    · exact (min_le_left _ _).trans hblock
    · exact hblock
  · rw [mergeCurated_of_not_mem hmem]
    exact ⟨token, (Dict.extends_append ..).get? htoken, hblock⟩

/-- An entry that bounds its token already changes nothing. -/
theorem mergeCurated_of_bounded (h : Bounded entry tokens) : mergeCurated tokens entry = tokens := by
  obtain ⟨token, htoken, hblock⟩ := h
  rw [mergeCurated_of_mem (Dict.mem_keys_of_get? htoken)]
  apply Dict.modify_eq_self
  intro other hother
  obtain rfl : token = other := Option.some.inj (htoken.symm.trans hother)
  rw [min_eq_left hblock]

/-- What is there stays in its place where the entry does not lower its block. -/
theorem extends_mergeCurated {existing : Dict String TokenEntry} (h : existing.Extends tokens)
    (hkeep : ∀ token, existing.get? entry.1.toLower = some token →
      token.deploymentBlock ≤ entry.2.deploymentBlock) :
    existing.Extends (mergeCurated tokens entry) := by
  by_cases hmem : entry.1.toLower ∈ tokens.keys
  · rw [mergeCurated_of_mem hmem]
    apply h.modify
    intro token htoken
    rw [min_eq_left (hkeep token htoken)]
  · rw [mergeCurated_of_not_mem hmem]
    exact h.trans (Dict.extends_append ..)

end Tokens

/-! ## Setting defaults -/

section Defaults

variable {ν : Type} {key : ν → String} {d : Dict String ν} (values : List ν)

theorem keyedBy_foldl_setdefault (h : d.KeyedBy key) :
    (values.foldl (fun d v => d.setdefault (key v) v) d).KeyedBy key := by
  induction values generalizing d with
  | nil => exact h
  | cons v values ih => exact ih (h.setdefault v)

theorem extends_foldl_setdefault {α : Type} (name : α → String) (v : α → ν) (items : List α) :
    d.Extends (items.foldl (fun d a => d.setdefault (name a) (v a)) d) := by
  induction items generalizing d with
  | nil => exact .refl d
  | cons a items ih => exact (Dict.extends_setdefault ..).trans ih

theorem mem_keys_foldl_setdefault {α : Type} {name : α → String} {v : α → ν} {items : List α} :
    ∀ a ∈ items, name a ∈ (items.foldl (fun d a => d.setdefault (name a) (v a)) d).keys :=
  foldl_establishes (P := fun a d => name a ∈ d.keys) (fun _ _ _ => Dict.mem_keys_setdefault ..)
    (fun _ _ _ _ h => (Dict.extends_setdefault ..).mem_keys h) d

theorem foldl_setdefault_eq_self {α : Type} {name : α → String} {v : α → ν} {items : List α}
    (h : ∀ a ∈ items, name a ∈ d.keys) :
    items.foldl (fun d a => d.setdefault (name a) (v a)) d = d :=
  foldl_eq_self fun a ha => Dict.setdefault_of_mem (h a ha) _

end Defaults

/-! ## The merged tokens and pools -/

theorem keyedBy_foldl_mergeCurated {tokens : Dict String TokenEntry} (h : tokens.KeyedBy TokenEntry.key)
    (entries : List (String × CuratedMeta)) :
    (entries.foldl mergeCurated tokens).KeyedBy TokenEntry.key := by
  induction entries generalizing tokens with
  | nil => exact h
  | cons entry entries ih => exact ih (keyedBy_mergeCurated h)

theorem mem_keys_foldl_mergeCurated {tokens : Dict String TokenEntry} {addr : String}
    (h : addr ∈ tokens.keys) (entries : List (String × CuratedMeta)) :
    addr ∈ (entries.foldl mergeCurated tokens).keys := by
  induction entries generalizing tokens with
  | nil => exact h
  | cons entry entries ih => exact ih (mem_keys_mergeCurated h)

section Merged

variable (existing enumerated : List TokenEntry) (curated : Dict String CuratedMeta)

theorem keyedBy_mergeTokens : (mergeTokens existing enumerated curated).KeyedBy TokenEntry.key :=
  keyedBy_foldl_mergeCurated (keyedBy_foldl_setdefault _ (Dict.keyedBy_ofValues _ _)) _

theorem mem_keys_mergeTokens :
    ∀ token ∈ enumerated, token.key ∈ (mergeTokens existing enumerated curated).keys :=
  fun token htoken => mem_keys_foldl_mergeCurated
    (mem_keys_foldl_setdefault token htoken) _

theorem bounded_mergeTokens :
    ∀ entry ∈ curated.entries, Bounded entry (mergeTokens existing enumerated curated) :=
  foldl_establishes (fun entry _ tokens => bounded_mergeCurated tokens entry)
    (fun _ other _ _ h => h.merge other) _

/-- Merging the same entries into what they were merged into changes nothing. -/
theorem mergeTokens_merged :
    mergeTokens (mergeTokens existing enumerated curated).values enumerated curated =
      mergeTokens existing enumerated curated := by
  have hkeyed := keyedBy_mergeTokens existing enumerated curated
  have hbounded := bounded_mergeTokens existing enumerated curated
  have henumerated := foldl_setdefault_eq_self (v := id)
    (mem_keys_mergeTokens existing enumerated curated)
  rw [mergeTokens, hkeyed.ofValues_values]
  exact (congrArg (curated.entries.foldl mergeCurated) henumerated).trans
    (foldl_eq_self fun entry hentry => mergeCurated_of_bounded (hbounded entry hentry))

theorem mergePools_merged (existing enumerated : List PoolEntry) :
    mergePools (mergePools existing enumerated).values enumerated = mergePools existing enumerated := by
  have hkeyed : (mergePools existing enumerated).KeyedBy PoolEntry.key :=
    keyedBy_foldl_setdefault _ (Dict.keyedBy_ofValues _ _)
  rw [mergePools, hkeyed.ofValues_values]
  exact foldl_setdefault_eq_self (v := id) mem_keys_foldl_setdefault

end Merged

/-- A second run on what the first one wrote changes nothing. -/
theorem assemble_assemble (cfg : CatalogDir) (out : EnumerationOutput) :
    assemble (assemble cfg out).2 out = assemble cfg out := by
  have htokens := mergeTokens_merged cfg.tokens out.tokens out.curated
  have hpools := mergePools_merged cfg.pools out.pools
  have hjobs : ∀ standard, seedJobs (seedJobs cfg.jobs standard) standard = seedJobs cfg.jobs standard :=
    fun standard => foldl_setdefault_eq_self mem_keys_foldl_setdefault
  simp only [assemble, htokens, hpools, hjobs,
    Dict.setdefault_of_mem (Dict.mem_keys_setdefault ..)]

/-! ## The frame -/

/-- The second list is the first one with entries of new, distinct keys after it. -/
def Appends {ν : Type} (key : ν → String) (before after : List ν) : Prop :=
  ∃ new, after = before ++ new ∧ (new.map key).Nodup ∧ ∀ v ∈ new, key v ∉ before.map key

/-- Every existing entry and file is unchanged, and what is added comes after them. -/
structure Frame (before after : CatalogDir) : Prop where
  tokens : Appends TokenEntry.key before.tokens after.tokens
  pools : Appends PoolEntry.key before.pools after.pools
  jobs : before.jobs.Extends after.jobs
  universes : before.universes.Extends after.universes
  files : before.files.Extends after.files

theorem appends_iff_of_nodup {ν : Type} {key : ν → String} {before after : List ν}
    (h : (after.map key).Nodup) : Appends key before after ↔ before <+: after := by
  constructor
  · rintro ⟨new, rfl, -, -⟩
    exact List.prefix_append ..
  · rintro ⟨new, rfl⟩
    rw [List.map_append, List.nodup_append] at h
    exact ⟨new, rfl, h.2.1, fun v hv hmem => h.2.2 _ hmem _ (List.mem_map_of_mem hv) rfl⟩

/-- A dictionary keyed by its values extends the comprehension over a list exactly when the list has
distinct keys and its values come first. -/
theorem prefix_values_iff {ν : Type} {key : ν → String} {before : List ν} {d : Dict String ν}
    (hd : d.KeyedBy key) : before <+: d.values ↔
      (before.map key).Nodup ∧ (Dict.ofValues key before).Extends d := by
  constructor
  · intro h
    have hnodup : (before.map key).Nodup :=
      (hd.keys_eq ▸ d.nodup : (d.values.map key).Nodup).sublist (h.map key).sublist
    refine ⟨hnodup, ?_⟩
    show (Dict.ofValues key before).entries <+: d.entries
    rw [Dict.entries_ofValues hnodup, hd.entries_eq]
    exact h.map _
  · rintro ⟨hnodup, hextends⟩
    have hvalues := List.IsPrefix.map Prod.snd hextends
    rwa [← Dict.values, Dict.values_ofValues hnodup] at hvalues

/-- No two entries have one address, whatever its case. -/
def Distinct {ν : Type} (key : ν → String) (entries : List ν) : Prop := (entries.map key).Nodup

/-- No curated entry of an existing token's address has a smaller deployment block. -/
def KeepsBlocks (existing : List TokenEntry) (curated : Dict String CuratedMeta) : Prop :=
  ∀ token ∈ existing, ∀ entry ∈ curated.entries, entry.1.toLower = token.key →
    token.deploymentBlock ≤ entry.2.deploymentBlock

instance {ν : Type} (key : ν → String) (entries : List ν) : Decidable (Distinct key entries) :=
  inferInstanceAs (Decidable (entries.map key).Nodup)

instance (existing : List TokenEntry) (curated : Dict String CuratedMeta) :
    Decidable (KeepsBlocks existing curated) :=
  inferInstanceAs (Decidable (∀ token ∈ existing, ∀ entry ∈ curated.entries, _ → _))

theorem get?_ofValues_iff {existing : List TokenEntry} (h : Distinct TokenEntry.key existing)
    {addr : String} {token : TokenEntry} :
    (Dict.ofValues TokenEntry.key existing).get? addr = some token ↔ token ∈ existing ∧ token.key = addr := by
  rw [Dict.get?_eq_some_iff, Dict.entries_ofValues h]
  simp only [List.mem_map, Prod.mk.injEq]
  constructor
  · rintro ⟨other, hmem, rfl, rfl⟩
    exact ⟨hmem, rfl⟩
  · rintro ⟨hmem, rfl⟩
    exact ⟨token, hmem, rfl, rfl⟩

theorem extends_foldl_mergeCurated {existing tokens : Dict String TokenEntry}
    {entries : List (String × CuratedMeta)} (h : existing.Extends tokens)
    (hkeep : ∀ entry ∈ entries, ∀ token, existing.get? entry.1.toLower = some token →
      token.deploymentBlock ≤ entry.2.deploymentBlock) :
    existing.Extends (entries.foldl mergeCurated tokens) := by
  induction entries generalizing tokens with
  | nil => exact h
  | cons entry entries ih =>
    obtain ⟨hentry, hentries⟩ := List.forall_mem_cons.mp hkeep
    exact ih (extends_mergeCurated h hentry) hentries

/-- The existing tokens come first, unchanged, exactly when they are distinct and the curated set does not
lower the block of one. -/
theorem appends_mergeTokens_iff {existing enumerated : List TokenEntry}
    {curated : Dict String CuratedMeta} :
    Appends TokenEntry.key existing (mergeTokens existing enumerated curated).values ↔
      Distinct TokenEntry.key existing ∧ KeepsBlocks existing curated := by
  have hkeyed := keyedBy_mergeTokens existing enumerated curated
  rw [appends_iff_of_nodup (hkeyed.keys_eq ▸ Dict.nodup _), prefix_values_iff hkeyed]
  refine and_congr_right fun hdistinct => ⟨fun hextends => ?_, fun hkeep => ?_⟩
  · intro token htoken entry hentry haddr
    obtain ⟨other, hother, hblock⟩ := bounded_mergeTokens existing enumerated curated entry hentry
    have hget := hextends.get? ((get?_ofValues_iff hdistinct).mpr ⟨htoken, haddr.symm⟩)
    obtain rfl : token = other := Option.some.inj (hget.symm.trans hother)
    exact hblock
  · apply extends_foldl_mergeCurated (extends_foldl_setdefault _ id enumerated)
    intro entry hentry token htoken
    obtain ⟨hmem, hkey⟩ := (get?_ofValues_iff hdistinct).mp htoken
    exact hkeep token hmem entry hentry hkey.symm

theorem appends_mergePools_iff {existing enumerated : List PoolEntry} :
    Appends PoolEntry.key existing (mergePools existing enumerated).values ↔
      Distinct PoolEntry.key existing := by
  have hkeyed : (mergePools existing enumerated).KeyedBy PoolEntry.key :=
    keyedBy_foldl_setdefault _ (Dict.keyedBy_ofValues _ _)
  rw [appends_iff_of_nodup (hkeyed.keys_eq ▸ Dict.nodup _), prefix_values_iff hkeyed]
  exact and_iff_left (extends_foldl_setdefault _ id enumerated)

theorem extends_seedJobs (existing : Dict String Json) (standard : List (String × Json)) :
    existing.Extends (seedJobs existing standard) := extends_foldl_setdefault Prod.fst Prod.snd standard

/-- When assembling keeps every existing entry. -/
theorem frame_assemble_iff {cfg : CatalogDir} {out : EnumerationOutput} :
    Frame cfg (assemble cfg out).2 ↔ Distinct TokenEntry.key cfg.tokens ∧
      Distinct PoolEntry.key cfg.pools ∧ KeepsBlocks cfg.tokens out.curated := by
  constructor
  · intro h
    obtain ⟨htokens, hblocks⟩ := appends_mergeTokens_iff.mp h.tokens
    exact ⟨htokens, appends_mergePools_iff.mp h.pools, hblocks⟩
  · rintro ⟨htokens, hpools, hblocks⟩
    constructor
    · exact appends_mergeTokens_iff.mpr ⟨htokens, hblocks⟩
    · exact appends_mergePools_iff.mpr hpools
    all_goals simp only [assemble]
    · exact extends_seedJobs ..
    · exact Dict.extends_setdefault ..
    · exact Dict.extends_setdefault ..

/-! ## What the service reads of it -/

/-- The models' validation of an entry, and what is read of a vendored file's text. -/
structure EntryModels where
  token : TokenEntry → Except String TokenConfig
  pool : PoolEntry → Except String PoolConfig
  job : String → Json → Except String JobConfig
  selector : Json → Except String UniverseConfig
  vendored : String → VendoredList

/-- `load_catalog` returns the catalog for the documents. -/
structure Loaded (models : EntryModels) (chain : ChainConfig) (cfg : CatalogDir) (catalog : Catalog) :
    Prop where
  chain : catalog.chain = chain
  tokens : cfg.tokens.mapM models.token = .ok catalog.tokens
  pools : cfg.pools.mapM models.pool = .ok catalog.pools
  jobs : (cfg.jobs.entries.mapM fun entry => models.job entry.1 entry.2) = .ok catalog.jobs
  universes : (cfg.universes.entries.mapM fun entry => do
    return (entry.1, ← models.selector entry.2)) = .ok catalog.universes
  vendored : ∀ source, catalog.vendored source = (cfg.files.get? source).map models.vendored

/-- Every target of every existing job stays one, with the effective configuration that it had. -/
def KeepsTargets (before after : CatalogDir) : Prop :=
  ∀ models chain catalog catalog', Loaded models chain before catalog →
    Loaded models chain after catalog' → ∀ job ∈ catalog.jobs, job ∈ catalog'.jobs ∧
      ∀ target, catalog.Selects job target → catalog'.Selects job target ∧
        ∀ config, catalog.targetEffectiveConfig job target = .ok config →
          catalog'.targetEffectiveConfig job target = .ok config

theorem Appends.isPrefix {ν : Type} {key : ν → String} {before after : List ν}
    (h : Appends key before after) : before <+: after := by
  obtain ⟨new, rfl, -, -⟩ := h
  exact List.prefix_append ..

theorem lookup_of_isPrefix {ν : Type} {l l' : List (String × ν)} (h : l <+: l') {name : String} {v : ν}
    (hlookup : l.lookup name = some v) : l'.lookup name = some v := by
  obtain ⟨more, rfl⟩ := h
  rw [List.lookup_append, hlookup]
  rfl

theorem Frame.includes {before after : CatalogDir} (h : Frame before after) {models : EntryModels}
    {chain : ChainConfig} {catalog catalog' : Catalog} (hbefore : Loaded models chain before catalog)
    (hafter : Loaded models chain after catalog') : catalog.Includes catalog' where
  tokens := fun _ hmem => (mapM_initial h.tokens.isPrefix hbefore.tokens hafter.tokens).subset hmem
  pools := fun _ hmem => (mapM_initial h.pools.isPrefix hbefore.pools hafter.pools).subset hmem
  universes := fun _ _ => lookup_of_isPrefix (mapM_initial h.universes hbefore.universes hafter.universes)
  vendored := by
    intro source file hfile
    rw [hbefore.vendored] at hfile
    rw [hafter.vendored]
    cases htext : before.files.get? source with
    | none =>
      rw [htext] at hfile
      cases hfile
    | some text =>
      rw [htext] at hfile
      rw [h.files.get? htext]
      exact hfile

theorem Frame.keepsTargets {before after : CatalogDir} (h : Frame before after) :
    KeepsTargets before after := by
  intro models chain catalog catalog' hbefore hafter job hjob
  have hincludes := h.includes hbefore hafter
  have hchain : catalog'.chain = catalog.chain := hafter.chain.trans hbefore.chain.symm
  refine ⟨(mapM_initial h.jobs hbefore.jobs hafter.jobs).subset hjob, fun target hselects => ?_⟩
  exact ⟨hincludes.selects hselects, hincludes.targetEffectiveConfig hchain job target⟩

/-! ## The main result -/

/-- Assembling leaves every existing entry, and what is hashed of every existing target, as it was, only
appends entries under new keys and is idempotent, exactly when the existing tokens and pools have
distinct addresses and no curated entry lowers the deployment block of an existing token. -/
theorem assemble_additive_iff (cfg : CatalogDir) (out : EnumerationOutput) :
    (Frame cfg (assemble cfg out).2 ∧ KeepsTargets cfg (assemble cfg out).2 ∧
        assemble (assemble cfg out).2 out = assemble cfg out) ↔
      Distinct TokenEntry.key cfg.tokens ∧ Distinct PoolEntry.key cfg.pools ∧
        KeepsBlocks cfg.tokens out.curated := by
  rw [← frame_assemble_iff]
  constructor
  · rintro ⟨hframe, -, -⟩
    exact hframe
  · intro hframe
    exact ⟨hframe, hframe.keepsTargets, assemble_assemble cfg out⟩

def sampleTokenEntry : TokenEntry := ⟨"0x1111111111111111111111111111111111111111", "standard_erc20", 50, []⟩

def sampleCatalogDir : CatalogDir := ⟨[sampleTokenEntry], [], .empty, .empty, .empty⟩

/-- The curated set resolved the token to an earlier block. -/
def sampleEnumeration : EnumerationOutput :=
  ⟨[], [], ⟨[(sampleTokenEntry.address, ⟨some "AAA", .int 18, 10⟩)], List.nodup_singleton _⟩⟩

theorem curated_entry_lowers_an_existing_block :
    Distinct TokenEntry.key sampleCatalogDir.tokens ∧ Distinct PoolEntry.key sampleCatalogDir.pools ∧
      ¬ Frame sampleCatalogDir (assemble sampleCatalogDir sampleEnumeration).2 := by
  refine ⟨List.nodup_singleton _, List.nodup_nil, fun hframe => ?_⟩
  obtain ⟨-, -, hblocks⟩ := frame_assemble_iff.mp hframe
  have hle := hblocks sampleTokenEntry (List.mem_singleton.mpr rfl) _ (List.mem_singleton.mpr rfl) rfl
  exact absurd hle (by decide)

end RpcStateIndexer
