import RpcStateIndexer.Universes.ResolverCorrect
import RpcStateIndexer.Universes.Walkers

/-!
# A resolution

What `resolve` returns and when it raises, in terms of what the universe denotes.  Catalogs and sources
that differ only in the order of children and rows, in rows that come twice or in the case of addresses
freeze the same universe under the same hash.
-/

namespace RpcStateIndexer

open Reasoning Program

/-! ## The members of a relation -/

/-- A relation has one list of frozen members. -/
theorem FrozenAs.unique {R : String → String → Prop} {sources sources' : List (String × List String)}
    (h : FrozenAs R sources) (h' : FrozenAs R sources') : sources = sources' := by
  have hkeys : sources.map Prod.fst = sources'.map Prod.fst := by
    have hperm : (sources.map Prod.fst).Perm (sources'.map Prod.fst) := by
      rw [List.perm_ext_iff_of_nodup (h.sorted.imp fun hlt => hlt.ne) (h'.sorted.imp fun hlt => hlt.ne)]
      intro address
      rw [h.members, h'.members]
    exact hperm.eq_of_pairwise' (h.sorted.imp fun hlt => hlt.le) (h'.sorted.imp fun hlt => hlt.le)
  have hentry : ∀ entry ∈ sources, ∀ entry' ∈ sources', entry.1 = entry'.1 → entry = entry' := by
    intro entry hmem entry' hmem' haddress
    obtain ⟨-, hsorted, hlabels⟩ := h.provenance entry hmem
    obtain ⟨-, hsorted', hlabels'⟩ := h'.provenance entry' hmem'
    have hperm : entry.2.Perm entry'.2 := by
      rw [List.perm_ext_iff_of_nodup (hsorted.imp fun hlt => hlt.ne) (hsorted'.imp fun hlt => hlt.ne)]
      intro label
      rw [hlabels, hlabels', haddress]
    exact Prod.ext haddress
      (hperm.eq_of_pairwise' (hsorted.imp fun hlt => hlt.le) (hsorted'.imp fun hlt => hlt.le))
  have hlength : sources.length = sources'.length := by simpa using congrArg List.length hkeys
  refine List.ext_getElem hlength fun i hi hi' => hentry _ (List.getElem_mem hi) _ (List.getElem_mem hi') ?_
  have hbound : i < (sources.map Prod.fst).length := by simpa using hi
  have hbound' : i < (sources'.map Prod.fst).length := by simpa using hi'
  have hget : (sources.map Prod.fst)[i] = (sources'.map Prod.fst)[i] := by simp only [hkeys]
  simpa using hget

/-- The frozen universe of a relation: its members, under the hash of these members. -/
structure FreezesAs (R : String → String → Prop) (frozen : FrozenUniverse) : Prop where
  members : FrozenAs R frozen.sources
  addresses : frozen.addresses = frozen.sources.map Prod.fst
  universeHash : digestUniverse frozen.sources = .ok frozen.universeHash

theorem freeze_eq_ok_iff {members : SourceMap} {R : String → String → Prop} (h : Represents members R)
    {frozen : FrozenUniverse} : UniverseResolver.freeze members = .ok frozen ↔ FreezesAs R frozen := by
  unfold UniverseResolver.freeze
  rw [except_bind_eq_ok_iff]
  constructor
  · rintro ⟨universeHash, hhash, hfrozen⟩
    rw [except_pure_eq_ok_iff] at hfrozen
    subst hfrozen
    exact ⟨Represents.frozenAs h, (map_fst_frozenSources members).symm, except_mapError_eq_ok_iff.mp hhash⟩
  · rintro ⟨hmembers, haddresses, hhash⟩
    have hsources := hmembers.unique (Represents.frozenAs h)
    rw [hsources] at haddresses hhash
    rw [map_fst_frozenSources] at haddresses
    refine ⟨frozen.universeHash, except_mapError_eq_ok_iff.mpr hhash, ?_⟩
    rw [except_pure_eq_ok_iff, ← hsources, ← haddresses]

/-! ## What a resolution returns and raises -/

section Resolve

variable {self : UniverseResolver} {env : (op : UniverseOp) → UniverseAns op} {tokenAddress token : String}
  {anchorBlock : Nat} {name : String}

/-- On sources that answer as they should, a resolution returns a universe exactly when no cycle and no
unknown name is in the way and the universe is that of the members the name denotes. -/
theorem resolve_eq_ok_iff (htoken : normalizeAddress tokenAddress = .ok token)
    (hwf : WellFormedSources self env token anchorBlock name) {frozen : FrozenUniverse} :
    answeredBy env (self.resolve name tokenAddress anchorBlock) = .ok frozen ↔
      ¬ Broken self.universes UniverseConfig.composedOf name ∧
        FreezesAs (Denotes self env token anchorBlock name) frozen := by
  rw [answeredBy_resolve htoken, except_bind_eq_ok_iff]
  constructor
  · rintro ⟨members, hmembers, hfrozen⟩
    have hgrounded := grounded_of_answered hmembers
    obtain ⟨members', hmembers', hrep⟩ := represents_resolveMap hgrounded hwf
    rw [hmembers] at hmembers'
    cases hmembers'
    exact ⟨hgrounded.not_broken, (freeze_eq_ok_iff hrep).mp hfrozen⟩
  · rintro ⟨hbroken, hfrozen⟩
    obtain ⟨members, hmembers, hrep⟩ := represents_resolveMap (grounded_of_not_broken hbroken) hwf
    exact ⟨members, hmembers, (freeze_eq_ok_iff hrep).mpr hfrozen⟩

/-- A cycle or an unknown name is raised exactly when there is one among the composed universes that the
name leads to. -/
theorem resolve_reference_iff (htoken : normalizeAddress tokenAddress = .ok token)
    (hwf : WellFormedSources self env token anchorBlock name) :
    (∃ fault, answeredBy env (self.resolve name tokenAddress anchorBlock) = .error fault ∧
      fault.isReference = true) ↔ Broken self.universes UniverseConfig.composedOf name := by
  rw [answeredBy_resolve htoken]
  constructor
  · rintro ⟨fault, hfault, hreference⟩
    by_contra hbroken
    obtain ⟨members, hmembers, -⟩ := represents_resolveMap (grounded_of_not_broken hbroken) hwf
    rw [hmembers, except_ok_bind] at hfault
    unfold UniverseResolver.freeze at hfault
    rcases except_bind_eq_error_iff.mp hfault with hdigest | ⟨universeHash, -, hpure⟩
    · cases hstream : digestUniverse (UniverseResolver.frozenSources members) with
      | ok digest =>
        rw [hstream] at hdigest
        cases hdigest
      | error e =>
        rw [hstream] at hdigest
        cases hdigest
        cases hreference
    · cases hpure
  · intro hbroken
    cases hmembers : answeredBy env (self.resolveMap token anchorBlock [] name) with
    | ok members => exact absurd hbroken (grounded_of_answered hmembers).not_broken
    | error fault => exact ⟨fault, rfl, isReference_of_answered hwf hmembers⟩

end Resolve

/-- A resolution on sources that answer as they should, its returns and its reference errors. -/
theorem resolve_exact {self : UniverseResolver} {env : (op : UniverseOp) → UniverseAns op}
    {tokenAddress token name : String} {anchorBlock : Nat}
    (htoken : normalizeAddress tokenAddress = .ok token)
    (hwf : WellFormedSources self env token anchorBlock name) :
    (∀ frozen, answeredBy env (self.resolve name tokenAddress anchorBlock) = .ok frozen ↔
        ¬ Broken self.universes UniverseConfig.composedOf name ∧
          FreezesAs (Denotes self env token anchorBlock name) frozen) ∧
      ((∃ fault, answeredBy env (self.resolve name tokenAddress anchorBlock) = .error fault ∧
        fault.isReference = true) ↔ Broken self.universes UniverseConfig.composedOf name) :=
  ⟨fun _ => resolve_eq_ok_iff htoken hwf, resolve_reference_iff htoken hwf⟩

/-! ## The order of children and rows -/

/-- Two selectors that name the same children. -/
structure SameSelector (selector selector' : UniverseConfig) : Prop where
  kind : selector'.kind = selector.kind
  source : selector'.source = selector.source
  children : ∀ child, child ∈ selector'.of ↔ child ∈ selector.of

/-- Two answers that agree, or two failures. -/
inductive SameAnswer {α : Type} (R : α → α → Prop) : Except String α → Except String α → Prop
  | ok {a a' : α} (agree : R a a') : SameAnswer R (.ok a) (.ok a')
  | error (e e' : String) : SameAnswer R (.error e) (.error e')

/-- Rows that name the same addresses with the same provenance. -/
def SameMembers (members members' : List UniverseMember) : Prop :=
  ∀ address source,
    (∃ member ∈ members', normalizeAddress member.address = .ok address ∧ source ∈ member.sources) ↔
      ∃ member ∈ members, normalizeAddress member.address = .ok address ∧ source ∈ member.sources

/-- Columns that name the same addresses. -/
def SameEntries (entries entries' : List String) : Prop :=
  ∀ address, (∃ entry ∈ entries', normalizeAddress entry = .ok address) ↔
    ∃ entry ∈ entries, normalizeAddress entry = .ok address

/-- The second resolver reads what the first does, up to the order of children, ledgers, seeds and rows,
to rows that come twice or apart, and to the case of addresses. -/
structure Reordered (resolver resolver' : UniverseResolver) (env env' : (op : UniverseOp) → UniverseAns op)
    (token : String) (anchorBlock : Nat) : Prop where
  ledgers : ∀ ledger, ledger ∈ resolver'.ledgers token ↔ ledger ∈ resolver.ledgers token
  seeds : ∀ address, address ∈ resolver'.seeds token ↔ address ∈ resolver.seeds token
  selectors : ∀ name, Option.Rel SameSelector (resolver.universes.lookup name) (resolver'.universes.lookup name)
  holders : ∀ ledger, SameAnswer SameMembers (env (.holderMembers resolver.chainId ledger anchorBlock))
    (env' (.holderMembers resolver'.chainId ledger anchorBlock))
  lists : ∀ name, SameAnswer SameEntries (env (.explicitAddresses name)) (env' (.explicitAddresses name))

theorem SameSelector.symm {selector selector' : UniverseConfig} (h : SameSelector selector selector') :
    SameSelector selector' selector :=
  ⟨h.kind.symm, h.source.symm, fun child => (h.children child).symm⟩

theorem SameSelector.rel_symm {x x' : Option UniverseConfig} (h : Option.Rel SameSelector x x') :
    Option.Rel SameSelector x' x := by
  cases h with
  | some hsame => exact .some hsame.symm
  | none => exact .none

theorem SameSelector.composedOf {selector selector' : UniverseConfig} (h : SameSelector selector selector')
    (child : String) : child ∈ selector'.composedOf ↔ child ∈ selector.composedOf := by
  unfold UniverseConfig.composedOf UniverseConfig.isComposed
  rw [h.kind]
  split
  · exact h.children child
  · rfl

theorem SameAnswer.symm {α : Type} {R : α → α → Prop} (hR : ∀ a a', R a a' → R a' a)
    {x x' : Except String α} (h : SameAnswer R x x') : SameAnswer R x' x := by
  cases h with
  | ok agree => exact .ok (hR _ _ agree)
  | error e e' => exact .error e' e

theorem SameAnswer.of_ok {α : Type} {R : α → α → Prop} {x x' : Except String α} (h : SameAnswer R x x')
    {a : α} (hx : x = .ok a) : ∃ a', x' = .ok a' ∧ R a a' := by
  cases h with
  | ok agree =>
    cases hx
    exact ⟨_, rfl, agree⟩
  | error e e' => cases hx

namespace Reordered

variable {self self' : UniverseResolver} {env env' : (op : UniverseOp) → UniverseAns op} {token : String}
  {anchorBlock : Nat}

theorem symm (h : Reordered self self' env env' token anchorBlock) :
    Reordered self' self env' env token anchorBlock where
  ledgers ledger := (h.ledgers ledger).symm
  seeds address := (h.seeds address).symm
  selectors name := SameSelector.rel_symm (h.selectors name)
  holders ledger := (h.holders ledger).symm fun _ _ hsame address source => (hsame address source).symm
  lists name := (h.lists name).symm fun _ _ hsame address => (hsame address).symm

theorem selector (h : Reordered self self' env env' token anchorBlock) {name : String}
    {selector : UniverseConfig} (known : self.universes.lookup name = some selector) :
    ∃ selector', self'.universes.lookup name = some selector' ∧ SameSelector selector selector' := by
  have hrel := h.selectors name
  rw [known] at hrel
  cases hselector : self'.universes.lookup name with
  | none =>
    rw [hselector] at hrel
    cases hrel
  | some selector' =>
    rw [hselector] at hrel
    cases hrel with
    | some hsame => exact ⟨selector', rfl, hsame⟩

/-- What is denoted in the first is denoted in the second. -/
theorem denotes (h : Reordered self self' env env' token anchorBlock) {name address label : String}
    (hdenotes : Denotes self env token anchorBlock name address label) :
    Denotes self' env' token anchorBlock name address label := by
  induction hdenotes with
  | holder known kind hledger read hmember haddress hsource =>
    obtain ⟨selector', known', hsame⟩ := h.selector known
    obtain ⟨members', read', hmembers⟩ := (h.holders _).of_ok read
    obtain ⟨member', hmember', haddress', hsource'⟩ :=
      (hmembers _ _).mpr ⟨_, hmember, haddress, hsource⟩
    exact .holder known' (hsame.kind.trans kind) ((h.ledgers _).mpr hledger) read' hmember' haddress' hsource'
  | seed known kind hseed =>
    obtain ⟨selector', known', hsame⟩ := h.selector known
    exact .seed known' (hsame.kind.trans kind) ((h.seeds _).mpr hseed)
  | @listed name entry address selector addresses known kind read hentry haddress =>
    obtain ⟨selector', known', hsame⟩ := h.selector known
    obtain ⟨addresses', read', hentries⟩ := (h.lists name).of_ok read
    obtain ⟨entry', hentry', haddress'⟩ := (hentries _).mpr ⟨_, hentry, haddress⟩
    have hlabel : listLabel name selector' = listLabel name selector := by
      unfold listLabel
      rw [hsame.source]
    exact hlabel ▸ .listed known' (hsame.kind.trans kind) read' hentry' haddress'
  | union known kind hchild _ ih =>
    obtain ⟨selector', known', hsame⟩ := h.selector known
    exact .union known' (hsame.kind.trans kind) ((hsame.children _).mpr hchild) ih
  | intersect known kind labels _ hchild _ ihshared ih =>
    obtain ⟨selector', known', hsame⟩ := h.selector known
    exact .intersect known' (hsame.kind.trans kind) labels
      (fun other hother => ihshared other ((hsame.children _).mp hother)) ((hsame.children _).mpr hchild) ih

theorem denotes_iff (h : Reordered self self' env env' token anchorBlock) (name : String) :
    Denotes self' env' token anchorBlock name = Denotes self env token anchorBlock name := by
  funext address label
  exact propext ⟨fun hdenotes => h.symm.denotes hdenotes, fun hdenotes => h.denotes hdenotes⟩

theorem follows (h : Reordered self self' env env' token anchorBlock) {x y : String}
    (hfollows : Follows self.universes UniverseConfig.composedOf x y) :
    Follows self'.universes UniverseConfig.composedOf x y := by
  obtain ⟨selector, known, hchild⟩ := hfollows
  obtain ⟨selector', known', hsame⟩ := h.selector known
  exact ⟨selector', known', (hsame.composedOf y).mpr hchild⟩

theorem broken (h : Reordered self self' env env' token anchorBlock) {name : String}
    (hbroken : Broken self.universes UniverseConfig.composedOf name) :
    Broken self'.universes UniverseConfig.composedOf name := by
  obtain ⟨x, hleads, hwrong⟩ := hbroken
  refine ⟨x, Relation.ReflTransGen.mono (fun _ _ hstep => h.follows hstep) _ _ hleads, ?_⟩
  rcases hwrong with hunknown | hcycle
  · left
    have hrel := h.selectors x
    rw [hunknown] at hrel
    cases hselector : self'.universes.lookup x with
    | none => rfl
    | some selector' =>
      rw [hselector] at hrel
      cases hrel
  · exact .inr (Relation.TransGen.mono (fun _ _ hstep => h.follows hstep) _ _ hcycle)

end Reordered

/-- Where the sources of both answer as they should, reordering changes neither what a resolution returns,
its hash included, nor whether it raises a cycle or an unknown name. -/
theorem resolve_reordered {self self' : UniverseResolver} {env env' : (op : UniverseOp) → UniverseAns op}
    {name tokenAddress tokenAddress' token : String} {anchorBlock : Nat}
    (h : Reordered self self' env env' token anchorBlock)
    (htoken : normalizeAddress tokenAddress = .ok token)
    (htoken' : normalizeAddress tokenAddress' = .ok token)
    (hwf : WellFormedSources self env token anchorBlock name)
    (hwf' : WellFormedSources self' env' token anchorBlock name) :
    (answeredBy env' (self'.resolve name tokenAddress' anchorBlock)).toOption =
        (answeredBy env (self.resolve name tokenAddress anchorBlock)).toOption ∧
      ((∃ fault, answeredBy env' (self'.resolve name tokenAddress' anchorBlock) = .error fault ∧
          fault.isReference = true) ↔
        ∃ fault, answeredBy env (self.resolve name tokenAddress anchorBlock) = .error fault ∧
          fault.isReference = true) := by
  have hbroken : Broken self'.universes UniverseConfig.composedOf name ↔
      Broken self.universes UniverseConfig.composedOf name := ⟨h.symm.broken, h.broken⟩
  constructor
  · apply Option.ext
    intro frozen
    have hok : ∀ x : Except UniverseFault FrozenUniverse, x.toOption = some frozen ↔ x = .ok frozen := by
      rintro (e | a) <;> simp [Except.toOption]
    rw [hok, hok, resolve_eq_ok_iff htoken' hwf', resolve_eq_ok_iff htoken hwf, hbroken, h.denotes_iff]
  · rw [resolve_reference_iff htoken' hwf', resolve_reference_iff htoken hwf, hbroken]

/-! ## A treasury -/

theorem normalizeAddress_hexText {body : List Char} (hlength : body.length = 40)
    (hhex : body.all isHexDigit = true) :
    normalizeAddress (hexText body) = .ok (hexText (body.map Char.toLower)) := by
  have hbody : hexBody (hexText body) = some body := hexBody_eq_some_iff.mpr String.toList_ofList
  have hlower : (hexText body).toLower = hexText (body.map Char.toLower) := by
    rw [← String.toList_inj, toLower_toList, hexText, hexText, String.toList_ofList, String.toList_ofList]
    rfl
  rw [normalizeAddress, hbody]
  simp only [hlength, hhex, and_self, if_true, hlower]

/-- A safe, by its address in lower case. -/
def safeAddress : String := hexText (List.replicate 40 'a')

/-- The same address in capitals. -/
def safeChecksummed : String := hexText (List.replicate 40 'A')

theorem normalize_safeAddress : normalizeAddress safeAddress = .ok safeAddress :=
  normalizeAddress_hexText (by decide) (by decide)

theorem normalize_safeChecksummed : normalizeAddress safeChecksummed = .ok safeAddress :=
  normalizeAddress_hexText (by decide) (by decide)

/-- No holders, and a list of safes. -/
def safesSources (entries : List String) : (op : UniverseOp) → UniverseAns op
  | .holderMembers .. => .ok []
  | .explicitAddresses _ => .ok entries

/-- The treasury with its children the other way round. -/
def swappedUniverses : List (String × UniverseConfig) :=
  [("treasury", { treasurySelector with of := ["safes", "full_holders"], of_ok := treasuryOf_ok }),
    ("safes", safesSelector []), ("full_holders", holdersSelector)]

def treasuryResolver (universes : List (String × UniverseConfig)) : UniverseResolver := ⟨100, universes, [], []⟩

theorem wellFormed_safesSources {universes : List (String × UniverseConfig)} {entries : List String}
    (h : ∀ entry ∈ entries, normalizeAddress entry = .ok safeAddress) (token name : String)
    (anchorBlock : Nat) :
    WellFormedSources (treasuryResolver universes) (safesSources entries) token anchorBlock name where
  holders _ _ _ _ _ _ _ := ⟨[], rfl, List.forall_mem_nil _⟩
  lists _ _ _ _ _ := ⟨entries, rfl, fun entry hentry => ⟨safeAddress, h entry hentry⟩⟩

theorem treasury_not_broken : ¬ Broken treasuryUniverses UniverseConfig.composedOf "treasury" := by
  have hgrounded := treasury_grounded "treasury" (by decide)
  exact Grounded.not_broken
    (@grounded_composed (universeCatalog treasuryUniverses treasury_unique) "treasury" hgrounded)

theorem treasury_known : (treasuryResolver treasuryUniverses).universes.lookup "treasury" =
    some treasurySelector := rfl

theorem holders_known : (treasuryResolver treasuryUniverses).universes.lookup "full_holders" =
    some holdersSelector := rfl

theorem safes_known : (treasuryResolver treasuryUniverses).universes.lookup "safes" =
    some (safesSelector []) := rfl

/-- The treasury denotes the safe, as an entry of the list. -/
theorem treasury_denotes_iff {token address label : String} {anchorBlock : Nat} :
    Denotes (treasuryResolver treasuryUniverses) (safesSources [safeAddress]) token anchorBlock "treasury"
        address label ↔ address = safeAddress ∧ label = listLabel "safes" (safesSelector []) := by
  rw [denotes_union_iff treasury_known rfl]
  constructor
  · rintro ⟨child, hchild, hdenotes⟩
    rcases List.mem_pair.mp hchild with rfl | rfl
    · rcases (denotes_holders_iff holders_known rfl).mp hdenotes with
        ⟨ledger, -, members, hread, member, hmember, -⟩ | ⟨hseed, -⟩
      · cases hread
        exact absurd hmember List.not_mem_nil
      · exact absurd hseed List.not_mem_nil
    · obtain ⟨addresses, hread, ⟨entry, hentry, haddress⟩, hlabel⟩ :=
        (denotes_list_iff safes_known rfl).mp hdenotes
      cases hread
      rw [List.mem_singleton.mp hentry, normalize_safeAddress] at haddress
      exact ⟨(Except.ok.inj haddress).symm, hlabel⟩
  · rintro ⟨rfl, rfl⟩
    refine ⟨"safes", List.mem_cons_of_mem _ List.mem_cons_self, ?_⟩
    exact (denotes_list_iff safes_known rfl).mpr
      ⟨[safeAddress], rfl, ⟨safeAddress, List.mem_singleton_self _, normalize_safeAddress⟩, rfl⟩

theorem resolve_exact_treasury : ∃ frozen : FrozenUniverse, frozen.addresses = [safeAddress] ∧
    answeredBy (safesSources [safeAddress])
      ((treasuryResolver treasuryUniverses).resolve "treasury" safeChecksummed 5) = .ok frozen := by
  have hsafe : isAddress safeAddress = true := isAddress_hexText (by decide) (by decide)
  obtain ⟨universeHash, hhash⟩ : ∃ digest,
      digestUniverse [(safeAddress, [listLabel "safes" (safesSelector [])])] = .ok digest := by
    refine (exists_digestUniverse_iff (by simpa using hsafe) (by simp)).mpr fun member hmember => ?_
    rw [List.mem_singleton.mp hmember]
    refine ⟨by decide, fun source hsource => ?_⟩
    rw [List.mem_singleton.mp hsource]
    decide
  refine ⟨⟨[safeAddress], [(safeAddress, [listLabel "safes" (safesSelector [])])], universeHash⟩, rfl, ?_⟩
  refine ((resolve_exact normalize_safeChecksummed (wellFormed_safesSources (by
    simpa using normalize_safeAddress) _ _ _)).1 _).mpr ⟨treasury_not_broken, ?_, rfl, hhash⟩
  refine ⟨by simp, fun address => ?_, ?_⟩
  · simp [treasury_denotes_iff]
  · simp [treasury_denotes_iff]

theorem resolve_reordered_treasury :
    (answeredBy (safesSources [safeChecksummed, safeAddress])
        ((treasuryResolver swappedUniverses).resolve "treasury" safeAddress 5)).toOption =
      (answeredBy (safesSources [safeAddress])
        ((treasuryResolver treasuryUniverses).resolve "treasury" safeChecksummed 5)).toOption := by
  have hentries : ∀ entry ∈ [safeChecksummed, safeAddress], normalizeAddress entry = .ok safeAddress := by
    simp [normalize_safeChecksummed, normalize_safeAddress]
  have hreordered : Reordered (treasuryResolver treasuryUniverses) (treasuryResolver swappedUniverses)
      (safesSources [safeAddress]) (safesSources [safeChecksummed, safeAddress]) safeAddress 5 := by
    refine ⟨fun _ => Iff.rfl, fun _ => Iff.rfl, fun name => ?_, fun _ => .ok fun _ _ => Iff.rfl,
      fun _ => .ok fun address => ?_⟩
    · simp only [treasuryResolver, treasuryUniverses, swappedUniverses, List.lookup_cons, List.lookup_nil]
      by_cases htreasury : name = "treasury"
      · subst htreasury
        exact .some ⟨rfl, rfl, fun child => List.mem_pair.trans (or_comm.trans List.mem_pair.symm)⟩
      · by_cases hsafes : name = "safes"
        · subst hsafes
          exact .some ⟨rfl, rfl, fun _ => Iff.rfl⟩
        · by_cases hholders : name = "full_holders"
          · subst hholders
            exact .some ⟨rfl, rfl, fun _ => Iff.rfl⟩
          · simp only [beq_eq_false_iff_ne.mpr htreasury, beq_eq_false_iff_ne.mpr hsafes,
              beq_eq_false_iff_ne.mpr hholders]
            exact .none
    · simp [normalize_safeChecksummed, normalize_safeAddress]
  exact (resolve_reordered hreordered normalize_safeChecksummed normalize_safeAddress
    (wellFormed_safesSources (by simpa using normalize_safeAddress) _ _ _)
    (wellFormed_safesSources hentries _ _ _)).1

end RpcStateIndexer
