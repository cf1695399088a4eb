import RpcStateIndexer.Universes.Resolver

/-!
# What a universe denotes

An address has a label in a universe as the selectors say: a holder of the token's own and alias ledgers
or a seed, an entry of an explicit list, a member of some child, a member of every child.  On sources that
are well formed the resolver returns the mapping of this relation.
-/

namespace RpcStateIndexer

open Reasoning Program

section Denotation

variable (resolver : UniverseResolver) (env : (op : UniverseOp) → UniverseAns op) (tokenAddress : String)
  (anchorBlock : Nat)

/-- The label is one that the address has in the universe. -/
inductive Denotes : String → String → String → Prop
  | holder {name ledger address source : String} {selector : UniverseConfig}
      {members : List UniverseMember} {member : UniverseMember}
      (known : resolver.universes.lookup name = some selector) (kind : selector.kind = .fullHolders)
      (ledger_mem : ledger ∈ resolver.ledgers tokenAddress)
      (read : env (.holderMembers resolver.chainId ledger anchorBlock) = .ok members)
      (member_mem : member ∈ members) (address_eq : normalizeAddress member.address = .ok address)
      (source_mem : source ∈ member.sources) : Denotes name address (holderLabel name source)
  | seed {name address : String} {selector : UniverseConfig}
      (known : resolver.universes.lookup name = some selector) (kind : selector.kind = .fullHolders)
      (seed_mem : address ∈ resolver.seeds tokenAddress) : Denotes name address seedLabel
  | listed {name entry address : String} {selector : UniverseConfig} {addresses : List String}
      (known : resolver.universes.lookup name = some selector) (kind : selector.kind = .explicitList)
      (read : env (.explicitAddresses name) = .ok addresses) (entry_mem : entry ∈ addresses)
      (address_eq : normalizeAddress entry = .ok address) :
      Denotes name address (listLabel name selector)
  | union {name child address label : String} {selector : UniverseConfig}
      (known : resolver.universes.lookup name = some selector) (kind : selector.kind = .union)
      (child_mem : child ∈ selector.of) (denotes : Denotes child address label) :
      Denotes name address label
  | intersect {name child address label : String} {selector : UniverseConfig}
      (known : resolver.universes.lookup name = some selector) (kind : selector.kind = .intersect)
      (labels : String → String) (shared : ∀ other ∈ selector.of, Denotes other address (labels other))
      (child_mem : child ∈ selector.of) (denotes : Denotes child address label) :
      Denotes name address label

/-- A holder that the resolver accepts: an address that normalizes, with provenance, none of it empty. -/
def WellFormedMember (member : UniverseMember) : Prop :=
  (∃ address, normalizeAddress member.address = .ok address) ∧ member.sources ≠ [] ∧ "" ∉ member.sources

/-- `name` leads to `x` through composed universes. -/
abbrev LeadsTo (name x : String) : Prop :=
  Relation.ReflTransGen (Follows resolver.universes UniverseConfig.composedOf) name x

/-- The sources that are read for a universe answer with what the resolver accepts. -/
structure WellFormedSources (name : String) : Prop where
  holders : ∀ x selector, LeadsTo resolver name x → resolver.universes.lookup x = some selector →
    selector.kind = .fullHolders → ∀ ledger ∈ resolver.ledgers tokenAddress, ∃ members,
      env (.holderMembers resolver.chainId ledger anchorBlock) = .ok members ∧
        ∀ member ∈ members, WellFormedMember member
  lists : ∀ x selector, LeadsTo resolver name x → resolver.universes.lookup x = some selector →
    selector.kind = .explicitList → ∃ addresses, env (.explicitAddresses x) = .ok addresses ∧
      ∀ entry ∈ addresses, ∃ address, normalizeAddress entry = .ok address

end Denotation

section Resolve

variable {self : UniverseResolver} {env : (op : UniverseOp) → UniverseAns op} {tokenAddress : String}
  {anchorBlock : Nat}

/-! ## Leaves -/

theorem holderLabel_injective (universeName : String) :
    Function.Injective (holderLabel universeName) := by
  intro a b h
  exact (String.append_right_inj _).mp h

/-- The labels of a row are as many as its sources exactly when none of these is empty. -/
theorem addMember_eq_ok {universeName address : String} {members : SourceMap} {member : UniverseMember}
    (haddress : normalizeAddress member.address = .ok address) (hne : member.sources ≠ [])
    (hempty : "" ∉ member.sources) :
    addMember universeName members member =
      .ok (members.update address (member.sources.map (holderLabel universeName))) := by
  have hfilter : member.sources.filter (fun source => source ≠ "") = member.sources := by
    rw [List.filter_eq_self]
    intro source hsource
    rw [decide_eq_true_eq]
    rintro rfl
    exact hempty hsource
  have hdedup : (member.sources.map (holderLabel universeName)).dedup.length =
      member.sources.dedup.length := by
    rw [List.dedup_map_of_injective (holderLabel_injective universeName), List.length_map]
  unfold addMember normalized
  rw [haddress]
  simp only [Except.mapError, except_ok_bind, hfilter, hdedup, check, hne, ne_eq, not_false_eq_true,
    decide_true, if_true]
  rfl

theorem represents_addMember (universeName : String) {rows : List UniverseMember}
    (hrows : ∀ member ∈ rows, WellFormedMember member) {m : SourceMap} {R : String → String → Prop}
    (hm : Represents m R) :
    ∃ output, rows.foldlM (addMember universeName) m = .ok output ∧
      Represents output fun address label => R address label ∨
        ∃ member ∈ rows, normalizeAddress member.address = .ok address ∧
          ∃ source ∈ member.sources, label = holderLabel universeName source := by
  induction rows generalizing m R with
  | nil => exact ⟨m, rfl, hm.congr fun address label => by simp⟩
  | cons member rest ih =>
    obtain ⟨⟨⟨own, hown⟩, hne, hempty⟩, hrest⟩ := List.forall_mem_cons.mp hrows
    have hlabels : member.sources.map (holderLabel universeName) ≠ [] := by simpa using hne
    obtain ⟨output, houtput, hrep⟩ := ih hrest (hm.update hlabels)
    refine ⟨output, ?_, hrep.congr fun address label => ?_⟩
    · rw [List.foldlM_cons, addMember_eq_ok hown hne hempty]
      exact houtput
    · simp only [List.mem_cons, exists_eq_or_imp, or_assoc, List.mem_map, hown, Except.ok.injEq]
      refine or_congr_right (or_congr_left ?_)
      constructor
      · rintro ⟨rfl, source, hsource, rfl⟩
        exact ⟨rfl, source, hsource, rfl⟩
      · rintro ⟨rfl, source, hsource, rfl⟩
        exact ⟨rfl, source, hsource, rfl⟩

theorem represents_seeds (seeds : List String) {m : SourceMap} {R : String → String → Prop}
    (hm : Represents m R) :
    Represents (seeds.foldl (fun output address => output.update address [seedLabel]) m)
      fun address label => R address label ∨ address ∈ seeds ∧ label = seedLabel := by
  induction seeds generalizing m R with
  | nil => exact hm.congr fun address label => by simp
  | cons seed rest ih =>
    refine (ih (hm.update (List.cons_ne_nil seedLabel []))).congr fun address label => ?_
    simp only [List.mem_cons, List.not_mem_nil, or_false, or_and_right, or_assoc]

theorem represents_addListed (label : String) {entries : List String}
    (hentries : ∀ entry ∈ entries, ∃ address, normalizeAddress entry = .ok address) {m : SourceMap}
    {R : String → String → Prop} (hm : Represents m R) :
    ∃ output, entries.foldlM (addListed label) m = .ok output ∧
      Represents output fun address l => R address l ∨
        (∃ entry ∈ entries, normalizeAddress entry = .ok address) ∧ l = label := by
  induction entries generalizing m R with
  | nil => exact ⟨m, rfl, hm.congr fun address l => by simp⟩
  | cons entry rest ih =>
    obtain ⟨⟨own, hown⟩, hrest⟩ := List.forall_mem_cons.mp hentries
    obtain ⟨output, houtput, hrep⟩ := ih hrest (hm.update (List.cons_ne_nil label []))
    refine ⟨output, ?_, hrep.congr fun address l => ?_⟩
    · rw [List.foldlM_cons, addListed, normalized, hown]
      exact houtput
    · have hcons : (∃ e ∈ entry :: rest, normalizeAddress e = .ok address) ↔
          address = own ∨ ∃ e ∈ rest, normalizeAddress e = .ok address := by
        simp only [List.mem_cons, exists_eq_or_imp, hown, Except.ok.injEq, @eq_comm _ own address]
      rw [hcons, List.mem_singleton, or_and_right, or_assoc]

theorem answeredBy_holderMembers (chainId : Nat) (ledger : String) :
    answeredBy env (holderMembers chainId ledger anchorBlock) =
      (env (.holderMembers chainId ledger anchorBlock)).mapError .source :=
  answeredBy_ofExcept env _

theorem answeredBy_loadExplicit (name : String) :
    answeredBy env (loadExplicit name) = (env (.explicitAddresses name)).mapError .source :=
  answeredBy_ofExcept env _

/-- The mapping of a composed universe, from those of its children. -/
theorem answeredBy_compose {name : String} {selector : UniverseConfig} {g : String → UniverseProgram SourceMap}
    {combine : List SourceMap → SourceMap} (hcomposed : selector.kind = .union ∨ selector.kind = .intersect)
    {members : List SourceMap}
    (hmembers : (selector.of.map g).mapM (fun p => answeredBy env p) = .ok members) :
    members ≠ [] ∧ answeredBy env (UniverseResolver.compose name selector (selector.of.map g) combine) =
      .ok (combine members) := by
  have hne : members ≠ [] := by
    rintro rfl
    have hlength := mapM_eq_ok_length hmembers
    have htwo := selector.of_ok hcomposed
    rw [List.length_map, List.length_nil] at hlength
    omega
  refine ⟨hne, ?_⟩
  unfold UniverseResolver.compose
  rw [answeredBy_bind, answeredBy_mapM]
  simp only [id_eq, hmembers, except_ok_bind, answeredBy_bind, answeredBy_ofExcept, check, hne, ne_eq,
    not_false_eq_true, decide_true, if_true]
  rfl

variable {name : String} {selector : UniverseConfig}

theorem denotes_holders_iff (known : self.universes.lookup name = some selector)
    (kind : selector.kind = .fullHolders) {address label : String} :
    Denotes self env tokenAddress anchorBlock name address label ↔
      (∃ ledger ∈ self.ledgers tokenAddress, ∃ members,
        env (.holderMembers self.chainId ledger anchorBlock) = .ok members ∧
          ∃ member ∈ members, normalizeAddress member.address = .ok address ∧
            ∃ source ∈ member.sources, label = holderLabel name source) ∨
        address ∈ self.seeds tokenAddress ∧ label = seedLabel := by
  constructor
  · intro h
    cases h with
    | holder _ _ hledger hread hmember haddress hsource =>
      exact .inl ⟨_, hledger, _, hread, _, hmember, haddress, _, hsource, rfl⟩
    | seed _ _ hseed => exact .inr ⟨hseed, rfl⟩
    | listed known' kind' => cases kind.symm.trans (Option.some.inj (known.symm.trans known') ▸ kind')
    | union known' kind' => cases kind.symm.trans (Option.some.inj (known.symm.trans known') ▸ kind')
    | intersect known' kind' => cases kind.symm.trans (Option.some.inj (known.symm.trans known') ▸ kind')
  · rintro (⟨ledger, hledger, members, hread, member, hmember, haddress, source, hsource, rfl⟩ |
      ⟨hseed, rfl⟩)
    · exact .holder known kind hledger hread hmember haddress hsource
    · exact .seed known kind hseed

theorem denotes_list_iff (known : self.universes.lookup name = some selector)
    (kind : selector.kind = .explicitList) {address label : String} :
    Denotes self env tokenAddress anchorBlock name address label ↔
      ∃ addresses, env (.explicitAddresses name) = .ok addresses ∧
        (∃ entry ∈ addresses, normalizeAddress entry = .ok address) ∧ label = listLabel name selector := by
  constructor
  · intro h
    cases h with
    | holder known' kind' => cases kind.symm.trans (Option.some.inj (known.symm.trans known') ▸ kind')
    | seed known' kind' => cases kind.symm.trans (Option.some.inj (known.symm.trans known') ▸ kind')
    | listed known' _ hread hentry haddress =>
      obtain rfl := Option.some.inj (known.symm.trans known')
      exact ⟨_, hread, ⟨_, hentry, haddress⟩, rfl⟩
    | union known' kind' => cases kind.symm.trans (Option.some.inj (known.symm.trans known') ▸ kind')
    | intersect known' kind' => cases kind.symm.trans (Option.some.inj (known.symm.trans known') ▸ kind')
  · rintro ⟨addresses, hread, ⟨entry, hentry, haddress⟩, rfl⟩
    exact .listed known kind hread hentry haddress

/-- The members of a union are the members of its children. -/
theorem denotes_union_iff (known : self.universes.lookup name = some selector)
    (kind : selector.kind = .union) {address label : String} :
    Denotes self env tokenAddress anchorBlock name address label ↔
      ∃ child ∈ selector.of, Denotes self env tokenAddress anchorBlock child address label := by
  constructor
  · intro h
    cases h with
    | holder known' kind' => cases kind.symm.trans (Option.some.inj (known.symm.trans known') ▸ kind')
    | seed known' kind' => cases kind.symm.trans (Option.some.inj (known.symm.trans known') ▸ kind')
    | listed known' kind' => cases kind.symm.trans (Option.some.inj (known.symm.trans known') ▸ kind')
    | union known' _ hchild h =>
      obtain rfl := Option.some.inj (known.symm.trans known')
      exact ⟨_, hchild, h⟩
    | intersect known' kind' => cases kind.symm.trans (Option.some.inj (known.symm.trans known') ▸ kind')
  · rintro ⟨child, hchild, h⟩
    exact .union known kind hchild h

/-- The members of an intersection are those of all its children. -/
theorem denotes_intersect_iff (known : self.universes.lookup name = some selector)
    (kind : selector.kind = .intersect) {address label : String} :
    Denotes self env tokenAddress anchorBlock name address label ↔
      (∀ child ∈ selector.of, ∃ l, Denotes self env tokenAddress anchorBlock child address l) ∧
        ∃ child ∈ selector.of, Denotes self env tokenAddress anchorBlock child address label := by
  constructor
  · intro h
    cases h with
    | holder known' kind' => cases kind.symm.trans (Option.some.inj (known.symm.trans known') ▸ kind')
    | seed known' kind' => cases kind.symm.trans (Option.some.inj (known.symm.trans known') ▸ kind')
    | listed known' kind' => cases kind.symm.trans (Option.some.inj (known.symm.trans known') ▸ kind')
    | union known' kind' => cases kind.symm.trans (Option.some.inj (known.symm.trans known') ▸ kind')
    | intersect known' _ labels hshared hchild h =>
      obtain rfl := Option.some.inj (known.symm.trans known')
      exact ⟨fun child hchild => ⟨labels child, hshared child hchild⟩, _, hchild, h⟩
  · rintro ⟨hshared, child, hchild, h⟩
    choose labels hlabels using hshared
    refine .intersect known kind (fun other => if hmem : other ∈ selector.of then labels other hmem else "")
      (fun other hother => ?_) hchild h
    rw [dif_pos hother]
    exact hlabels other hother

end Resolve

end RpcStateIndexer
