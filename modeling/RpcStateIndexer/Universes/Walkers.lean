import RpcStateIndexer.Config.Loader
import RpcStateIndexer.Universes.Denotation

/-!
# The four walks over a universe

The document of a universe, the hashes of its lists, the question whether it reads full holders and its
resolution each follow the selectors in their own way.  The validation of a catalog makes only the first
of these walks, and the list of a leaf is followed by the second and the third.
-/

namespace RpcStateIndexer

open Reasoning Program

/-- What the search for full holders raises. -/
inductive HolderFault where
  /-- universe cycle while resolving {name} -/
  | universeCycle (name : String)
  | keyError (name : String)
  deriving DecidableEq

namespace Catalog

def holdersVisit (_ : String) (selector : UniverseConfig) (children : List (Except HolderFault Bool)) :
    Except HolderFault Bool :=
  if selector.kind = .fullHolders then .ok true else anyOf children

/-- `_uses_full_holders`: the list of every kind but full holders is searched. -/
def usesFullHolders (self : Catalog) (universeName : String) : Except HolderFault Bool :=
  descend self.universes UniverseConfig.of (fun _ name => .error (.universeCycle name))
    (fun name => .error (.keyError name)) holdersVisit [] universeName

/-- The catalog with other files on its disk. -/
def withFiles (self : Catalog) (vendored : String → Option VendoredList) : Catalog :=
  { self with vendored }

/-- The resolver that the service builds on a catalog. -/
def resolver (self : Catalog) (seedHolders universeAliases : List (String × List String)) :
    UniverseResolver :=
  ⟨self.chain.chainId, self.universes, seedHolders, universeAliases⟩

end Catalog

/-! ## What the walks should share -/

def ConfigFault.isReference : ConfigFault → Bool
  | .referenceCycle _ | .unknownSelector _ => true
  | _ => false

/-- Some operation of the run reads the holder repository. -/
def ReadsHolders (t : List (Sigma UniverseAns)) : Prop :=
  ∃ x ∈ t, ∃ chainId tokenAddress anchorBlock, x.1 = .holderMembers chainId tokenAddress anchorBlock

/-- No walk from the name raises for a cycle or an unknown name, whatever files there are, and full
holders are found exactly when the resolution reads them: some run does, and every run that returns. -/
structure WalkersAgree (catalog : Catalog) (name : String) : Prop where
  expanded : ∀ fault, catalog.expandedUniverse [] name = .error fault → fault.isReference = false
  hashed : ∀ vendored fault,
    (catalog.withFiles vendored).collectVendorHashes [] name = .error fault → fault.isReference = false
  searched : ∃ found, catalog.usesFullHolders name = .ok found
  resolved : ∀ seedHolders universeAliases tokenAddress anchorBlock t fault,
    Runs ((catalog.resolver seedHolders universeAliases).resolveMap tokenAddress anchorBlock [] name) t
      (.error fault) → fault.isReference = false
  agree : ∀ seedHolders universeAliases tokenAddress anchorBlock,
    catalog.usesFullHolders name = .ok true ↔ ∃ t r,
      Runs ((catalog.resolver seedHolders universeAliases).resolveMap tokenAddress anchorBlock [] name)
        t r ∧ ReadsHolders t
  reads : catalog.usesFullHolders name = .ok true →
    ∀ seedHolders universeAliases tokenAddress anchorBlock t members,
      Runs ((catalog.resolver seedHolders universeAliases).resolveMap tokenAddress anchorBlock [] name) t
        (.ok members) → ReadsHolders t

/-! ## What a name leads to -/

/-- Some full-holders universe is reached from the name. -/
def ReachesHolders (self : Catalog) (follow : UniverseConfig → List String) (name : String) : Prop :=
  ∃ x selector, Relation.ReflTransGen (Follows self.universes follow) name x ∧
    self.universes.lookup x = some selector ∧ selector.kind = .fullHolders

namespace UniverseConfig

/-- The names that the search for full holders goes on to. -/
def searchedOf (selector : UniverseConfig) : List String :=
  if selector.kind = .fullHolders then [] else selector.of

theorem composedOf_subset (selector : UniverseConfig) : selector.composedOf ⊆ selector.searchedOf := by
  intro child hchild
  unfold composedOf isComposed at hchild
  unfold searchedOf
  cases hkind : selector.kind <;> rw [hkind] at hchild <;> simp_all

end UniverseConfig

section Walks

variable {self : Catalog} {name : String}

theorem reachesHolders_iff {follow : UniverseConfig → List String} {selector : UniverseConfig}
    (known : self.universes.lookup name = some selector) :
    ReachesHolders self follow name ↔ selector.kind = .fullHolders ∨
      ∃ child ∈ follow selector, ReachesHolders self follow child := by
  constructor
  · rintro ⟨x, holders, hreach, hx, hkind⟩
    rcases Relation.ReflTransGen.cases_head hreach with rfl | ⟨child, ⟨selector', known', hchild⟩, hrest⟩
    · obtain rfl := Option.some.inj (known.symm.trans hx)
      exact .inl hkind
    · obtain rfl := Option.some.inj (known.symm.trans known')
      exact .inr ⟨child, hchild, x, holders, hrest, hx, hkind⟩
  · rintro (hkind | ⟨child, hchild, x, holders, hreach, hx, hkind⟩)
    · exact ⟨name, selector, .refl, known, hkind⟩
    · exact ⟨x, holders, .head ⟨selector, known, hchild⟩ hreach, hx, hkind⟩

/-! ## The document -/

/-- The validation of a catalog makes the walk of the document from every name. -/
theorem exists_expanded (h : self.validate = .ok ()) (hname : name ∈ self.universes.map Prod.fst) :
    ∃ document, self.expandedUniverse [] name = .ok document := by
  unfold Catalog.validate at h
  simp only [except_bind_eq_ok_iff] at h
  obtain ⟨-, -, -, -, -, -, -, -, huniverses⟩ := h
  have hvalid := forM_eq_ok_iff.mp huniverses name hname
  unfold Catalog.validateUniverse at hvalid
  simp only [except_bind_eq_ok_iff] at hvalid
  obtain ⟨document, hdocument, -⟩ := hvalid
  exact ⟨document, hdocument⟩

/-- A document has no cycle and no unknown name along the composed universes. -/
theorem grounded_of_expanded {document : Catalog.ExpandedUniverse}
    (h : self.expandedUniverse [] name = .ok document) :
    Grounded self.universes UniverseConfig.composedOf name := by
  refine grounded_of_descend (P := fun x : Except ConfigFault Catalog.ExpandedUniverse =>
    ∃ document, x = .ok document) ?_ ?_ ?_ ⟨document, h⟩
  · exact fun _ _ ⟨_, hno⟩ => error_ne_ok hno
  · exact fun _ ⟨_, hno⟩ => error_ne_ok hno
  · rintro name selector g ⟨document, hdocument⟩ child hchild
    unfold UniverseConfig.composedOf at hchild
    unfold Catalog.expand at hdocument
    split at hchild
    · rename_i hcomposed
      rw [if_pos hcomposed] at hdocument
      simp only [except_bind_eq_ok_iff, except_pure_eq_ok_iff] at hdocument
      obtain ⟨documents, hdocuments, -⟩ := hdocument
      obtain ⟨d, -, hd⟩ := exists_of_mem_of_mapM hdocuments (List.mem_map_of_mem hchild)
      exact ⟨d, hd⟩
    · exact absurd hchild List.not_mem_nil

/-- Without these the walk of the document returns. -/
theorem exists_expanded_of_grounded (h : Grounded self.universes UniverseConfig.composedOf name) :
    ∃ document, self.expandedUniverse [] name = .ok document := by
  refine descend_of_grounded (P := fun _ (x : Except ConfigFault Catalog.ExpandedUniverse) =>
    ∃ document, x = .ok document) ?_ h
  intro name selector g known hchildren
  unfold Catalog.expand
  split
  · rename_i hcomposed
    have hvalues : ∀ x ∈ selector.of.map g, ∃ document, id x = .ok document := by
      intro x hx
      obtain ⟨child, hchild, rfl⟩ := List.mem_map.mp hx
      exact hchildren child (by rwa [UniverseConfig.composedOf, if_pos hcomposed])
    obtain ⟨documents, hdocuments⟩ := mapM_isOk hvalues
    rw [hdocuments]
    exact ⟨_, rfl⟩
  · exact ⟨_, rfl⟩

/-! ## The hashes -/

/-- A list whose file is missing is neither a cycle nor an unknown name. -/
theorem isReference_vendorHash {selector : UniverseConfig} {fault : ConfigFault}
    (h : self.vendorHash selector = .error fault) : fault.isReference = false := by
  unfold Catalog.vendorHash Catalog.vendoredList at h
  split at h
  · rename_i source _ _
    cases hfile : self.vendored source with
    | none =>
      rw [hfile] at h
      cases h
      rfl
    | some file =>
      rw [hfile] at h
      cases h
  · cases h

theorem exists_vendorHash (hfiles : ∀ source, (self.vendored source).isSome = true)
    (selector : UniverseConfig) : ∃ own, self.vendorHash selector = .ok own := by
  unfold Catalog.vendorHash Catalog.vendoredList
  split
  · rename_i source _ _
    obtain ⟨file, hfile⟩ := Option.isSome_iff_exists.mp (hfiles source)
    rw [hfile]
    exact ⟨_, rfl⟩
  · exact ⟨[], rfl⟩

/-- What raises at a node raised at its own list or at a child. -/
theorem collect_eq_error {selector : UniverseConfig}
    {g : String → Except ConfigFault (List (String × String))} {fault : ConfigFault}
    (h : self.collect name selector (selector.of.map g) = .error fault) :
    self.vendorHash selector = .error fault ∨ ∃ child ∈ selector.of, g child = .error fault := by
  unfold Catalog.collect at h
  cases hown : self.vendorHash selector with
  | error e =>
    rw [hown] at h
    cases h
    exact .inl rfl
  | ok own =>
    rw [hown, except_ok_bind] at h
    cases hlists : (selector.of.map g).mapM id with
    | ok lists =>
      rw [hlists] at h
      cases h
    | error e =>
      rw [hlists] at h
      cases h
      obtain ⟨x, hx, hraise⟩ := exists_of_mapM_eq_error hlists
      obtain ⟨child, hchild, rfl⟩ := List.mem_map.mp hx
      exact .inr ⟨child, hchild, hraise⟩

/-- With every file there, only a cycle or an unknown name raises. -/
theorem isReference_of_hashed (hfiles : ∀ source, (self.vendored source).isSome = true)
    {fault : ConfigFault} (h : self.collectVendorHashes [] name = .error fault) :
    fault.isReference = true := by
  refine descend_induction (P := fun _ (x : Except ConfigFault (List (String × String))) =>
    ∀ fault, x = .error fault → fault.isReference = true) ?_ ?_ ?_ [] name fault h
  · rintro _ _ _ ⟨⟩
    rfl
  · rintro _ _ ⟨⟩
    rfl
  · intro name selector g _ hchildren fault hfault
    obtain ⟨own, hown⟩ := exists_vendorHash hfiles selector
    rcases collect_eq_error hfault with hraise | ⟨child, hchild, hraise⟩
    · rw [hown] at hraise
      cases hraise
    · exact hchildren child hchild fault hraise

theorem grounded_of_hashed {hashes : List (String × String)}
    (h : self.collectVendorHashes [] name = .ok hashes) :
    Grounded self.universes UniverseConfig.of name := by
  refine grounded_of_descend (P := fun x : Except ConfigFault (List (String × String)) =>
    ∃ hashes, x = .ok hashes) ?_ ?_ ?_ ⟨hashes, h⟩
  · exact fun _ _ ⟨_, hno⟩ => error_ne_ok hno
  · exact fun _ ⟨_, hno⟩ => error_ne_ok hno
  · rintro name selector g ⟨hashes, hhashes⟩ child hchild
    unfold Catalog.collect at hhashes
    simp only [except_bind_eq_ok_iff, except_pure_eq_ok_iff] at hhashes
    obtain ⟨-, -, lists, hlists, -⟩ := hhashes
    obtain ⟨own, -, hown⟩ := exists_of_mem_of_mapM hlists (List.mem_map_of_mem hchild)
    exact ⟨own, hown⟩

/-- The walk of the hashes raises for a cycle or an unknown name only where one is. -/
theorem broken_of_hashed {fault : ConfigFault} (h : self.collectVendorHashes [] name = .error fault)
    (hfault : fault.isReference = true) : Broken self.universes UniverseConfig.of name := by
  refine broken_of_descend (P := fun x : Except ConfigFault (List (String × String)) =>
    ∃ fault, x = .error fault ∧ fault.isReference = true) ?_ ⟨fault, h, hfault⟩
  rintro name selector g ⟨fault, hraise, hfault⟩
  rcases collect_eq_error hraise with hown | ⟨child, hchild, hchildRaise⟩
  · rw [isReference_vendorHash hown] at hfault
    cases hfault
  · exact ⟨child, hchild, fault, hchildRaise, hfault⟩

/-! ## The search for full holders -/

/-- On a name without a cycle or an unknown one the search ends, and it finds what it follows. -/
theorem exists_usesFullHolders (h : Grounded self.universes UniverseConfig.of name) :
    ∃ found, self.usesFullHolders name = .ok found ∧
      (found = true ↔ ReachesHolders self UniverseConfig.searchedOf name) := by
  refine descend_of_grounded (P := fun name (x : Except HolderFault Bool) => ∃ found, x = .ok found ∧
    (found = true ↔ ReachesHolders self UniverseConfig.searchedOf name)) ?_ h
  intro name selector g known hchildren
  unfold Catalog.holdersVisit
  by_cases hkind : selector.kind = .fullHolders
  · rw [if_pos hkind]
    exact ⟨true, rfl, iff_of_true rfl ((reachesHolders_iff known).mpr (.inl hkind))⟩
  · rw [if_neg hkind]
    have hvalues : ∀ x ∈ selector.of.map g, ∃ b, x = .ok b := by
      intro x hx
      obtain ⟨child, hchild, rfl⟩ := List.mem_map.mp hx
      obtain ⟨b, hb, -⟩ := hchildren child hchild
      exact ⟨b, hb⟩
    obtain ⟨found, hfound, hiff⟩ := exists_anyOf hvalues
    refine ⟨found, hfound, ?_⟩
    rw [hiff, reachesHolders_iff known, or_iff_right hkind, UniverseConfig.searchedOf, if_neg hkind,
      List.mem_map]
    constructor
    · rintro ⟨child, hchild, hg⟩
      obtain ⟨b, hb, hreach⟩ := hchildren child hchild
      exact ⟨child, hchild, hreach.mp (Except.ok.inj (hb.symm.trans hg))⟩
    · rintro ⟨child, hchild, hreach⟩
      obtain ⟨b, hb, hiff⟩ := hchildren child hchild
      exact ⟨child, hchild, hb.trans (congrArg Except.ok (hiff.mpr hreach))⟩

/-! ## The resolution -/

/-- A source is neither a cycle nor an unknown name. -/
theorem isReference_source {α : Type} {x : Except String α} {fault : UniverseFault}
    (h : x.mapError UniverseFault.source = .error fault) : fault.isReference = false := by
  cases x with
  | ok a => cases h
  | error message =>
    cases h
    rfl

theorem isReference_normalized {address : String} {fault : UniverseFault}
    (h : normalized address = .error fault) : fault.isReference = false := by
  unfold normalized at h
  cases hown : normalizeAddress address with
  | ok value =>
    rw [hown] at h
    cases h
  | error message =>
    rw [hown] at h
    cases h
    rfl

theorem isReference_addMember {universeName : String} {members : SourceMap} {member : UniverseMember}
    {fault : UniverseFault} (h : addMember universeName members member = .error fault) :
    fault.isReference = false := by
  unfold addMember at h
  cases hown : normalized member.address with
  | error e =>
    rw [hown] at h
    cases h
    exact isReference_normalized hown
  | ok address =>
    rw [hown, except_ok_bind] at h
    unfold check at h
    split at h
    · rw [except_ok_bind] at h
      split at h
      · cases h
      · cases h
        rfl
    · cases h
      rfl

theorem isReference_addListed {label : String} {members : SourceMap} {address : String}
    {fault : UniverseFault} (h : addListed label members address = .error fault) :
    fault.isReference = false := by
  unfold addListed at h
  cases hown : normalized address with
  | error e =>
    rw [hown] at h
    cases h
    exact isReference_normalized hown
  | ok value =>
    rw [hown] at h
    cases h

variable {resolver : UniverseResolver} {tokenAddress : String} {anchorBlock : Nat}
  {t : List (Sigma UniverseAns)} {fault : UniverseFault}

theorem isReference_fullHolders
    (h : Runs (resolver.fullHolders tokenAddress anchorBlock name) t (.error fault)) :
    fault.isReference = false := by
  rcases runs_bind_iff.mp h with ⟨members, _, _, -, -, hrest⟩ | ⟨e, hread, he⟩
  · rcases runs_bind_iff.mp hrest with ⟨output, _, _, -, -, hret⟩ | ⟨e, hadd, he⟩
    · cases (runs_ret_iff.mp hret).2
    · cases he
      obtain ⟨_, member, -, hraise⟩ := exists_of_foldlM_eq_error (runs_ofExcept_iff.mp hadd).2.symm
      exact isReference_addMember hraise
  · cases he
    obtain ⟨ledger, -, t', hcall⟩ := runs_mapM_error hread
    obtain ⟨answer, _, -, hanswer⟩ := runs_call_iff.mp hcall
    exact isReference_source (runs_ofExcept_iff.mp hanswer).2.symm

theorem isReference_explicitList {selector : UniverseConfig}
    (h : Runs (UniverseResolver.explicitList name selector) t (.error fault)) :
    fault.isReference = false := by
  rcases runs_bind_iff.mp h with ⟨addresses, _, _, -, -, hadd⟩ | ⟨e, hread, he⟩
  · obtain ⟨_, address, -, hraise⟩ := exists_of_foldlM_eq_error (runs_ofExcept_iff.mp hadd).2.symm
    exact isReference_addListed hraise
  · cases he
    obtain ⟨answer, _, -, hanswer⟩ := runs_call_iff.mp hread
    exact isReference_source (runs_ofExcept_iff.mp hanswer).2.symm

/-- What raises in a composed universe raised in a child, or there is none. -/
theorem compose_error {selector : UniverseConfig} {children : List (UniverseProgram SourceMap)}
    {combine : List SourceMap → SourceMap}
    (h : Runs (UniverseResolver.compose name selector children combine) t (.error fault)) :
    fault = .noChildren selector.kind name ∨ ∃ child ∈ children, ∃ t', Runs child t' (.error fault) := by
  rcases runs_bind_iff.mp h with ⟨members, _, _, -, -, hrest⟩ | ⟨e, hmembers, he⟩
  · rcases runs_bind_iff.mp hrest with ⟨_, _, _, -, -, hret⟩ | ⟨e, hcheck, he⟩
    · cases (runs_ret_iff.mp hret).2
    · have hraise := (runs_ofExcept_iff.mp hcheck).2
      unfold check at hraise
      split at hraise
      · cases hraise
      · cases he
        cases hraise
        exact .inl rfl
  · cases he
    exact .inr (runs_mapM_error hmembers)

theorem mem_composedOf {selector : UniverseConfig} {child : String}
    (hkind : selector.isComposed = true) : child ∈ selector.composedOf ↔ child ∈ selector.of := by
  rw [UniverseConfig.composedOf, if_pos hkind]

/-- A resolution raises for a cycle or an unknown name only where the composed universes have one. -/
theorem isReference_resolveMap (h : Grounded resolver.universes UniverseConfig.composedOf name)
    (hrun : Runs (resolver.resolveMap tokenAddress anchorBlock [] name) t (.error fault)) :
    fault.isReference = false := by
  refine descend_of_grounded (P := fun _ (p : UniverseProgram SourceMap) =>
    ∀ t fault, Runs p t (.error fault) → fault.isReference = false) ?_ h t fault hrun
  intro name selector g known hchildren t fault hrun
  have hcomposed : ∀ combine, selector.isComposed = true →
      Runs (UniverseResolver.compose name selector (selector.of.map g) combine) t (.error fault) →
        fault.isReference = false := by
    intro combine hkind hrun
    rcases compose_error hrun with rfl | ⟨x, hx, t', hraise⟩
    · rfl
    · obtain ⟨child, hchild, rfl⟩ := List.mem_map.mp hx
      exact hchildren child ((mem_composedOf hkind).mpr hchild) t' fault hraise
  unfold UniverseResolver.visit at hrun
  cases hkind : selector.kind with
  | fullHolders =>
    rw [hkind] at hrun
    exact isReference_fullHolders hrun
  | explicitList =>
    rw [hkind] at hrun
    exact isReference_explicitList hrun
  | union =>
    rw [hkind] at hrun
    exact hcomposed MultiMap.join (by simp [UniverseConfig.isComposed, hkind]) hrun
  | intersect =>
    rw [hkind] at hrun
    exact hcomposed MultiMap.meet (by simp [UniverseConfig.isComposed, hkind]) hrun

/-! ## What a resolution reads -/

theorem readsHolders_of_sublist {t' : List (Sigma UniverseAns)} (hsub : t'.Sublist t)
    (h : ReadsHolders t') : ReadsHolders t := by
  obtain ⟨x, hx, hread⟩ := h
  exact ⟨x, hsub.subset hx, hread⟩

/-- The operation reads a list. -/
def ReadsList (op : UniverseOp) : Prop :=
  ∃ universeName, op = .explicitAddresses universeName

theorem not_readsHolders {α : Type} {p : UniverseProgram α} (hasks : Asks ReadsList p)
    {r : Except UniverseFault α} (hrun : Runs p t r) : ¬ ReadsHolders t := by
  rintro ⟨x, hx, chainId, token, anchor, hread⟩
  obtain ⟨universeName, hlist⟩ := hasks.runs hrun x hx
  rw [hread] at hlist
  cases hlist

/-- The own ledger of a token is always read. -/
theorem readsHolders_fullHolders {members : SourceMap}
    (h : Runs (resolver.fullHolders tokenAddress anchorBlock name) t (.ok members)) :
    ReadsHolders t := by
  obtain ⟨rows, t₁, t₂, rfl, hread, -⟩ := runs_bind_ok_iff.mp h
  obtain ⟨own, -, t', hsub, hown⟩ := forall₂_left (runs_mapM_ok hread)
    (show tokenAddress ∈ resolver.ledgers tokenAddress from List.mem_cons_self)
  obtain ⟨answer, t'', rfl, -⟩ := runs_call_iff.mp hown
  refine readsHolders_of_sublist (hsub.trans (List.sublist_append_left _ _)) ?_
  exact ⟨_, List.mem_cons_self, _, _, _, rfl⟩

/-- Where a full-holders universe is reached through composed ones, every resolution that returns reads
the holder repository. -/
theorem readsHolders_of_reaches (h : Grounded self.universes UniverseConfig.composedOf name)
    (huniverses : resolver.universes = self.universes)
    (hreach : ReachesHolders self UniverseConfig.composedOf name) {members : SourceMap}
    (hrun : Runs (resolver.resolveMap tokenAddress anchorBlock [] name) t (.ok members)) :
    ReadsHolders t := by
  rw [← huniverses] at h
  refine descend_of_grounded (P := fun name (p : UniverseProgram SourceMap) =>
    ReachesHolders self UniverseConfig.composedOf name →
      ∀ t members, Runs p t (.ok members) → ReadsHolders t) ?_ h hreach t members hrun
  intro name selector g known hchildren hreach t members hrun
  rw [huniverses] at known
  have hcomposed : ∀ combine, selector.kind ≠ .fullHolders → selector.isComposed = true →
      Runs (UniverseResolver.compose name selector (selector.of.map g) combine) t (.ok members) →
        ReadsHolders t := by
    intro combine hkind hcomposed hrun
    obtain hholders | ⟨child, hchild, hreach⟩ := (reachesHolders_iff known).mp hreach
    · exact absurd hholders hkind
    · obtain ⟨lists, t₁, t₂, rfl, hlists, -⟩ := runs_bind_ok_iff.mp hrun
      have hmem : g child ∈ selector.of.map g :=
        List.mem_map_of_mem ((mem_composedOf hcomposed).mp hchild)
      obtain ⟨out, -, t', hsub, hown⟩ := forall₂_left (runs_mapM_ok hlists) hmem
      exact readsHolders_of_sublist (hsub.trans (List.sublist_append_left _ _))
        (hchildren child hchild hreach t' out hown)
  unfold UniverseResolver.visit at hrun
  cases hkind : selector.kind with
  | fullHolders =>
    rw [hkind] at hrun
    exact readsHolders_fullHolders hrun
  | explicitList =>
    obtain hholders | ⟨child, hchild, -⟩ := (reachesHolders_iff known).mp hreach
    · rw [hkind] at hholders
      cases hholders
    · rw [UniverseConfig.composedOf, if_neg (by simp [UniverseConfig.isComposed, hkind])] at hchild
      exact absurd hchild List.not_mem_nil
  | union =>
    rw [hkind] at hrun
    exact hcomposed MultiMap.join (by simp [hkind]) (by simp [UniverseConfig.isComposed, hkind]) hrun
  | intersect =>
    rw [hkind] at hrun
    exact hcomposed MultiMap.meet (by simp [hkind]) (by simp [UniverseConfig.isComposed, hkind]) hrun

/-- Elsewhere no resolution does. -/
theorem asks_of_not_reaches (h : Grounded self.universes UniverseConfig.composedOf name)
    (huniverses : resolver.universes = self.universes)
    (hreach : ¬ ReachesHolders self UniverseConfig.composedOf name) :
    Asks ReadsList (resolver.resolveMap tokenAddress anchorBlock [] name) := by
  rw [← huniverses] at h
  refine descend_of_grounded (P := fun name (p : UniverseProgram SourceMap) =>
    ¬ ReachesHolders self UniverseConfig.composedOf name → Asks ReadsList p) ?_ h hreach
  intro name selector g known hchildren hreach
  rw [huniverses] at known
  rw [reachesHolders_iff known, not_or] at hreach
  obtain ⟨hholders, hother⟩ := hreach
  have hcomposed : ∀ combine, selector.isComposed = true →
      Asks ReadsList (UniverseResolver.compose name selector (selector.of.map g) combine) := by
    intro combine hkind
    refine .bind (.mapM fun p hp => ?_) fun _ => .bind (.ofExcept _) fun _ => trivial
    obtain ⟨child, hchild, rfl⟩ := List.mem_map.mp hp
    have hmem := (mem_composedOf hkind).mpr hchild
    exact hchildren child hmem fun hreach => hother ⟨child, hmem, hreach⟩
  unfold UniverseResolver.visit
  cases hkind : selector.kind with
  | fullHolders => exact absurd hkind hholders
  | explicitList => exact .bind ⟨⟨name, rfl⟩, fun _ => .ofExcept _⟩ fun _ => .ofExcept _
  | union => exact hcomposed MultiMap.join (by simp [UniverseConfig.isComposed, hkind])
  | intersect => exact hcomposed MultiMap.meet (by simp [UniverseConfig.isComposed, hkind])

/-- Every holder table and every list is empty. -/
def emptySources : (op : UniverseOp) → UniverseAns op
  | .holderMembers .. => .ok []
  | .explicitAddresses _ => .ok []

theorem exists_fullHolders : ∃ members,
    answeredBy emptySources (resolver.fullHolders tokenAddress anchorBlock name) = .ok members := by
  obtain ⟨rows, hrows⟩ : ∃ rows, ((resolver.ledgers tokenAddress).mapM fun ledger =>
      answeredBy emptySources (holderMembers resolver.chainId ledger anchorBlock)) = .ok rows :=
    mapM_isOk fun _ _ => ⟨[], rfl⟩
  have hempty : rows.flatten = [] := by
    refine List.flatten_eq_nil_iff.mpr fun row hrow => ?_
    obtain ⟨ledger, -, hrow⟩ := exists_of_mem_mapM hrows hrow
    exact (Except.ok.inj hrow).symm
  unfold UniverseResolver.fullHolders
  rw [answeredBy_bind, answeredBy_mapM, hrows, except_ok_bind, answeredBy_bind, answeredBy_ofExcept,
    hempty]
  exact ⟨_, rfl⟩

/-- On empty sources a resolution returns. -/
theorem exists_resolveMap (h : Grounded resolver.universes UniverseConfig.composedOf name)
    (tokenAddress : String) (anchorBlock : Nat) :
    ∃ members, answeredBy emptySources (resolver.resolveMap tokenAddress anchorBlock [] name) =
      .ok members := by
  refine descend_of_grounded (P := fun _ (p : UniverseProgram SourceMap) =>
    ∃ members, answeredBy emptySources p = .ok members) ?_ h
  intro name selector g known hchildren
  have hcomposed : ∀ combine, (selector.kind = .union ∨ selector.kind = .intersect) →
      ∃ members, answeredBy emptySources
        (UniverseResolver.compose name selector (selector.of.map g) combine) = .ok members := by
    intro combine hkind
    have hisComposed : selector.isComposed = true := by
      simpa [UniverseConfig.isComposed] using hkind
    obtain ⟨lists, hlists⟩ : ∃ lists, (selector.of.map g).mapM (fun p => answeredBy emptySources p) =
        .ok lists := by
      refine mapM_isOk fun p hp => ?_
      obtain ⟨child, hchild, rfl⟩ := List.mem_map.mp hp
      exact hchildren child ((mem_composedOf hisComposed).mpr hchild)
    exact ⟨combine lists, (answeredBy_compose hkind hlists).2⟩
  unfold UniverseResolver.visit
  cases hkind : selector.kind with
  | fullHolders => exact exists_fullHolders
  | explicitList => exact ⟨[], rfl⟩
  | union => exact hcomposed MultiMap.join (.inl hkind)
  | intersect => exact hcomposed MultiMap.meet (.inr hkind)

end Walks

/-! ## Agreement -/

theorem grounded_composed {self : Catalog} {name : String}
    (h : Grounded self.universes UniverseConfig.of name) :
    Grounded self.universes UniverseConfig.composedOf name := by
  induction h with
  | @intro name selector known _ ih =>
    refine ⟨known, fun child hchild => ih child ?_⟩
    unfold UniverseConfig.composedOf at hchild
    split at hchild
    · exact hchild
    · exact absurd hchild List.not_mem_nil

theorem reachesHolders_searched {self : Catalog} {name : String}
    (h : ReachesHolders self UniverseConfig.composedOf name) :
    ReachesHolders self UniverseConfig.searchedOf name := by
  obtain ⟨x, selector, hreach, hknown, hkind⟩ := h
  refine ⟨x, selector, Relation.ReflTransGen.mono ?_ _ _ hreach, hknown, hkind⟩
  rintro y z ⟨node, hnode, hmem⟩
  exact ⟨node, hnode, node.composedOf_subset hmem⟩

/-- In an accepted catalog the walks agree on a name exactly when none of the names that it leads to,
through the lists of every kind, is unknown or on a cycle, and full holders that are found through the
list of a leaf are also found through composed universes alone. -/
theorem walkers_agree_iff {self : Catalog} (h : self.validate = .ok ()) {name : String}
    (hname : name ∈ self.universes.map Prod.fst) :
    WalkersAgree self name ↔ ¬ Broken self.universes UniverseConfig.of name ∧
      (ReachesHolders self UniverseConfig.searchedOf name →
        ReachesHolders self UniverseConfig.composedOf name) := by
  obtain ⟨document, hdocument⟩ := exists_expanded h hname
  have hcomposed := grounded_of_expanded hdocument
  constructor
  · intro hagree
    have hgrounded : Grounded self.universes UniverseConfig.of name := by
      -- With every file there, the walk of the hashes can only fail for a reference.
      cases hhashes : (self.withFiles fun _ => some ⟨[], ""⟩).collectVendorHashes [] name with
      | ok hashes =>
        have hgrounded := grounded_of_hashed hhashes
        exact hgrounded
      | error fault =>
        have hfault := isReference_of_hashed (fun _ => rfl) hhashes
        rw [hagree.hashed _ fault hhashes] at hfault
        cases hfault
    refine ⟨hgrounded.not_broken, fun hsearched => ?_⟩
    obtain ⟨found, hfound, hiff⟩ := exists_usesFullHolders hgrounded
    rw [hiff.mpr hsearched] at hfound
    obtain ⟨t, r, hrun, hreads⟩ := (hagree.agree [] [] "" 0).mp hfound
    by_contra hreach
    exact not_readsHolders (asks_of_not_reaches hcomposed rfl hreach) hrun hreads
  · rintro ⟨hbroken, hholders⟩
    obtain ⟨found, hfound, hiff⟩ := exists_usesFullHolders (grounded_of_not_broken hbroken)
    refine ⟨fun fault hfault => ?_, fun vendored fault hfault => ?_, ⟨found, hfound⟩, ?_, ?_, ?_⟩
    · rw [hdocument] at hfault
      cases hfault
    · have hbrokenFiles := broken_of_hashed hfault
      exact eq_false_of_ne_true fun hreference => hbroken (hbrokenFiles hreference)
    · exact fun _ _ _ _ _ _ hrun => isReference_resolveMap hcomposed hrun
    · intro seedHolders universeAliases tokenAddress anchorBlock
      rw [hfound, Except.ok.injEq, hiff]
      constructor
      · intro hsearched
        have hgrounded : Grounded (self.resolver seedHolders universeAliases).universes
          UniverseConfig.composedOf name := hcomposed
        obtain ⟨members, hmembers⟩ := exists_resolveMap hgrounded tokenAddress anchorBlock
        have hrun := runs_answeredBy emptySources ((self.resolver seedHolders universeAliases).resolveMap
          tokenAddress anchorBlock [] name)
        rw [hmembers] at hrun
        exact ⟨_, _, hrun, readsHolders_of_reaches hcomposed rfl (hholders hsearched) hrun⟩
      · rintro ⟨t, r, hrun, hreads⟩
        by_contra hsearched
        exact not_readsHolders (asks_of_not_reaches hcomposed rfl fun hreach =>
          hsearched (reachesHolders_searched hreach)) hrun hreads
    · intro hused _ _ _ _ t members hrun
      have hsearched := hiff.mp (Except.ok.inj (hfound.symm.trans hused))
      exact readsHolders_of_reaches hcomposed rfl (hholders hsearched) hrun

/-! ## A list of safes -/

theorem noDuplicates {α : Type} {f : α → String} : (([] : List α).map f).Nodup := List.nodup_nil

/-- A catalog of universes and nothing else. -/
def universeCatalog (universes : List (String × UniverseConfig))
    (universes_unique : (universes.map Prod.fst).Nodup) : Catalog where
  chain :=
    { name := "gnosis"
      chainId := 100
      finalityTag := "finalized"
      fallbackConfirmationDepth := 64
      expectedBlockTimeSeconds := "5"
      multicall3 := ⟨"0xca11bde05977b3631167028862be2a173976ca11", 21022491, none, 250⟩
      legacyExecution := ⟨true, 50, ⟨true, 2, true, true⟩⟩
      discovery := ⟨100000, 10000, Nat.le_of_ble_eq_true rfl, Nat.le_of_ble_eq_true rfl⟩
      balancer := ⟨none, none⟩
      chain_pos := Nat.le_of_ble_eq_true rfl }
  tokens := []
  pools := []
  universes := universes
  jobs := []
  sweeps := []
  vendored := fun _ => none
  tokens_unique := noDuplicates
  pools_unique := noDuplicates
  universes_unique := universes_unique
  jobs_unique := noDuplicates

theorem validate_universeCatalog {universes : List (String × UniverseConfig)}
    {unique : (universes.map Prod.fst).Nodup}
    (h : ∀ name ∈ universes.map Prod.fst, Grounded universes UniverseConfig.of name) :
    (universeCatalog universes unique).validate = .ok () := by
  have huniverses : (universes.map Prod.fst).forM (universeCatalog universes unique).validateUniverse =
      .ok () := by
    refine forM_eq_ok_iff.mpr fun name hname => ?_
    have hgrounded : Grounded (universeCatalog universes unique).universes UniverseConfig.of name :=
      h name hname
    obtain ⟨document, hdocument⟩ := exists_expanded_of_grounded (grounded_composed hgrounded)
    unfold Catalog.validateUniverse
    rw [hdocument]
    rfl
  exact huniverses

theorem holdersSource_ok : UniverseKind.fullHolders = .explicitList → (none : Option String).isSome = true := by
  decide

theorem holdersOf_ok : UniverseKind.fullHolders = .union ∨ UniverseKind.fullHolders = .intersect →
    2 ≤ ([] : List String).length := by
  decide

/-- Every holder of the token. -/
def holdersSelector : UniverseConfig :=
  ⟨.fullHolders, none, "address", [], holdersSource_ok, holdersOf_ok⟩

theorem safesSource_ok : UniverseKind.explicitList = .explicitList →
    (some "vendored/safes.csv").isSome = true := by
  decide

theorem safesOf_ok (of : List String) :
    UniverseKind.explicitList = .union ∨ UniverseKind.explicitList = .intersect → 2 ≤ of.length := by
  simp

/-- A vendored list that also names other universes. -/
def safesSelector (of : List String) : UniverseConfig :=
  ⟨.explicitList, some "vendored/safes.csv", "address", of, safesSource_ok, safesOf_ok of⟩

theorem treasurySource_ok : UniverseKind.union = .explicitList → (none : Option String).isSome = true := by
  decide

theorem treasuryOf_ok : UniverseKind.union = .union ∨ UniverseKind.union = .intersect →
    2 ≤ ["full_holders", "safes"].length := by
  decide

def treasurySelector : UniverseConfig :=
  ⟨.union, none, "address", ["full_holders", "safes"], treasurySource_ok, treasuryOf_ok⟩

def treasuryUniverses : List (String × UniverseConfig) :=
  [("full_holders", holdersSelector), ("safes", safesSelector []), ("treasury", treasurySelector)]

theorem treasury_unique : (treasuryUniverses.map Prod.fst).Nodup := by decide

theorem treasury_grounded :
    ∀ name ∈ treasuryUniverses.map Prod.fst, Grounded treasuryUniverses UniverseConfig.of name := by
  have hholders : Grounded treasuryUniverses UniverseConfig.of "full_holders" :=
    @Grounded.intro _ _ _ _ _ _ holdersSelector rfl (List.forall_mem_nil _)
  have hsafes : Grounded treasuryUniverses UniverseConfig.of "safes" :=
    @Grounded.intro _ _ _ _ _ _ (safesSelector []) rfl (List.forall_mem_nil _)
  have hchildren : ∀ child ∈ ["full_holders", "safes"],
      Grounded treasuryUniverses UniverseConfig.of child := by
    intro child hchild
    rcases List.mem_pair.mp hchild with rfl | rfl
    · exact hholders
    · exact hsafes
  have htreasury : Grounded treasuryUniverses UniverseConfig.of "treasury" :=
    @Grounded.intro _ _ _ _ _ _ treasurySelector rfl hchildren
  intro name hname
  rcases List.mem_cons.mp hname with rfl | hname
  · exact hholders
  · rcases List.mem_pair.mp hname with rfl | rfl
    · exact hsafes
    · exact htreasury

theorem walkers_agree_iff_treasury :
    WalkersAgree (universeCatalog treasuryUniverses treasury_unique) "treasury" := by
  have hmem : "treasury" ∈ treasuryUniverses.map Prod.fst := by decide
  refine (walkers_agree_iff (validate_universeCatalog treasury_grounded) hmem).mpr ⟨?_, fun _ => ?_⟩
  · have hgrounded := treasury_grounded "treasury" hmem
    exact hgrounded.not_broken
  · refine ⟨"full_holders", holdersSelector, .single ⟨treasurySelector, rfl, ?_⟩, rfl, rfl⟩
    exact List.mem_cons_self

def leafUniverses : List (String × UniverseConfig) :=
  [("full_holders", holdersSelector), ("safes", safesSelector ["full_holders"])]

theorem leaf_unique : (leafUniverses.map Prod.fst).Nodup := by decide

theorem leaf_grounded :
    ∀ name ∈ leafUniverses.map Prod.fst, Grounded leafUniverses UniverseConfig.of name := by
  have hholders : Grounded leafUniverses UniverseConfig.of "full_holders" :=
    @Grounded.intro _ _ _ _ _ _ holdersSelector rfl (List.forall_mem_nil _)
  have hsafes : Grounded leafUniverses UniverseConfig.of "safes" :=
    @Grounded.intro _ _ _ _ _ _ (safesSelector ["full_holders"]) rfl
      (List.forall_mem_singleton.mpr hholders)
  intro name hname
  rcases List.mem_pair.mp hname with rfl | rfl
  · exact hholders
  · exact hsafes

/-- A list that names `full_holders` is searched for it, and is resolved without it. -/
theorem leaf_walkers_disagree :
    (universeCatalog leafUniverses leaf_unique).validate = .ok () ∧
      "safes" ∈ (universeCatalog leafUniverses leaf_unique).universes.map Prod.fst ∧
      ¬ WalkersAgree (universeCatalog leafUniverses leaf_unique) "safes" := by
  have hmem : "safes" ∈ leafUniverses.map Prod.fst := by decide
  refine ⟨validate_universeCatalog leaf_grounded, hmem, fun hagree => ?_⟩
  have hgrounded : Grounded (universeCatalog leafUniverses leaf_unique).universes UniverseConfig.of
      "safes" := leaf_grounded "safes" hmem
  have hsearched : ReachesHolders (universeCatalog leafUniverses leaf_unique)
      UniverseConfig.searchedOf "safes" :=
    ⟨"full_holders", holdersSelector, .single ⟨safesSelector ["full_holders"], rfl, List.mem_cons_self⟩,
      rfl, rfl⟩
  have hresolved : ¬ ReachesHolders (universeCatalog leafUniverses leaf_unique)
      UniverseConfig.composedOf "safes" := by
    intro hreach
    have hknown : (universeCatalog leafUniverses leaf_unique).universes.lookup "safes" =
        some (safesSelector ["full_holders"]) := rfl
    rcases (reachesHolders_iff hknown).mp hreach with hkind | ⟨child, hchild, -⟩
    · cases hkind
    · exact absurd hchild List.not_mem_nil
  obtain ⟨found, hfound, hiff⟩ := exists_usesFullHolders hgrounded
  rw [hiff.mpr hsearched] at hfound
  obtain ⟨t, r, hrun, hreads⟩ := (hagree.agree [] [] "" 0).mp hfound
  exact not_readsHolders (asks_of_not_reaches (grounded_composed hgrounded) rfl hresolved) hrun hreads

end RpcStateIndexer
