import RpcStateIndexer.Storage.DigestsCorrect
import RpcStateIndexer.Universes.Denotation

/-!
# The resolver returns what a universe denotes

On sources that answer as they should, the mapping of a universe is the relation that it denotes, and
the frozen universe depends on this relation alone.  So neither the order of the children nor that of the
rows, nor a row that comes twice, nor the case of an address changes it.
-/

namespace RpcStateIndexer

open Reasoning Program

section Resolve

variable {self : UniverseResolver} {env : (op : UniverseOp) → UniverseAns op} {token : String}
  {anchorBlock : Nat} {name : String}

theorem WellFormedSources.child (hwf : WellFormedSources self env token anchorBlock name) {child : String}
    (hstep : Follows self.universes UniverseConfig.composedOf name child) :
    WellFormedSources self env token anchorBlock child where
  holders x selector hleads := hwf.holders x selector (.head hstep hleads)
  lists x selector hleads := hwf.lists x selector (.head hstep hleads)

/-! ## The mapping of a universe -/

theorem represents_fullHolders {selector : UniverseConfig}
    (known : self.universes.lookup name = some selector) (kind : selector.kind = .fullHolders)
    (hwf : WellFormedSources self env token anchorBlock name) :
    ∃ members, answeredBy env (self.fullHolders token anchorBlock name) = .ok members ∧
      Represents members (Denotes self env token anchorBlock name) := by
  have hrows := hwf.holders name selector .refl known kind
  obtain ⟨tables, htables⟩ : ∃ tables, ((self.ledgers token).mapM fun ledger =>
      answeredBy env (holderMembers self.chainId ledger anchorBlock)) = .ok tables := by
    refine mapM_isOk fun ledger hledger => ?_
    obtain ⟨members, hmembers, -⟩ := hrows ledger hledger
    exact ⟨members, by rw [answeredBy_holderMembers, hmembers]; rfl⟩
  have hread : ∀ member, member ∈ tables.flatten ↔ ∃ ledger ∈ self.ledgers token, ∃ members,
      env (.holderMembers self.chainId ledger anchorBlock) = .ok members ∧ member ∈ members := by
    intro member
    rw [List.mem_flatten]
    constructor
    · rintro ⟨members, hmem, hmember⟩
      obtain ⟨ledger, hledger, hanswer⟩ := exists_of_mem_mapM htables hmem
      rw [answeredBy_holderMembers, except_mapError_eq_ok_iff] at hanswer
      exact ⟨ledger, hledger, members, hanswer, hmember⟩
    · rintro ⟨ledger, hledger, members, hanswer, hmember⟩
      obtain ⟨members', hmem, hanswer'⟩ := exists_of_mem_of_mapM htables hledger
      rw [answeredBy_holderMembers, hanswer] at hanswer'
      cases hanswer'
      exact ⟨members, hmem, hmember⟩
  have hwellFormed : ∀ member ∈ tables.flatten, WellFormedMember member := by
    intro member hmember
    obtain ⟨ledger, hledger, members, hanswer, hmem⟩ := (hread member).mp hmember
    obtain ⟨members', hanswer', hall⟩ := hrows ledger hledger
    rw [hanswer] at hanswer'
    cases hanswer'
    exact hall member hmem
  obtain ⟨output, houtput, hrep⟩ := represents_addMember name hwellFormed Represents.nil
  refine ⟨_, ?_, (represents_seeds (self.seeds token) hrep).congr fun address label => ?_⟩
  · unfold UniverseResolver.fullHolders
    rw [answeredBy_bind, answeredBy_mapM, htables, except_ok_bind, answeredBy_bind, answeredBy_ofExcept,
      houtput]
    rfl
  · rw [denotes_holders_iff known kind, false_or]
    refine or_congr_left ?_
    constructor
    · rintro ⟨member, hmember, haddress, source, hsource, rfl⟩
      obtain ⟨ledger, hledger, members, hanswer, hmem⟩ := (hread member).mp hmember
      exact ⟨ledger, hledger, members, hanswer, member, hmem, haddress, source, hsource, rfl⟩
    · rintro ⟨ledger, hledger, members, hanswer, member, hmem, haddress, source, hsource, rfl⟩
      exact ⟨member, (hread member).mpr ⟨ledger, hledger, members, hanswer, hmem⟩, haddress, source,
        hsource, rfl⟩

theorem represents_explicitList {selector : UniverseConfig}
    (known : self.universes.lookup name = some selector) (kind : selector.kind = .explicitList)
    (hwf : WellFormedSources self env token anchorBlock name) :
    ∃ members, answeredBy env (UniverseResolver.explicitList name selector) = .ok members ∧
      Represents members (Denotes self env token anchorBlock name) := by
  obtain ⟨addresses, hanswer, hall⟩ := hwf.lists name selector .refl known kind
  obtain ⟨output, houtput, hrep⟩ := represents_addListed (listLabel name selector) hall
    Represents.nil
  refine ⟨output, ?_, hrep.congr fun address label => ?_⟩
  · unfold UniverseResolver.explicitList
    rw [answeredBy_bind, answeredBy_loadExplicit, hanswer]
    exact (answeredBy_ofExcept env _).trans houtput
  · rw [denotes_list_iff known kind, false_or]
    constructor
    · exact fun ⟨hentry, hlabel⟩ => ⟨addresses, hanswer, hentry, hlabel⟩
    · rintro ⟨addresses', hanswer', hentry, hlabel⟩
      rw [hanswer] at hanswer'
      cases hanswer'
      exact ⟨hentry, hlabel⟩

/-- Without a cycle or an unknown name, a resolution on sources that answer as they should returns the
mapping that the universe denotes. -/
theorem represents_resolveMap (h : Grounded self.universes UniverseConfig.composedOf name)
    (hwf : WellFormedSources self env token anchorBlock name) :
    ∃ members, answeredBy env (self.resolveMap token anchorBlock [] name) = .ok members ∧
      Represents members (Denotes self env token anchorBlock name) := by
  refine descend_of_grounded (P := fun name (p : UniverseProgram SourceMap) =>
    WellFormedSources self env token anchorBlock name → ∃ members, answeredBy env p = .ok members ∧
      Represents members (Denotes self env token anchorBlock name)) ?_ h hwf
  intro name selector g known hchildren hwf
  have hcomposed : selector.kind = .union ∨ selector.kind = .intersect → ∃ members,
      (selector.of.map g).mapM (fun p => answeredBy env p) = .ok members ∧
        List.Forall₂ (fun m child => Represents m (Denotes self env token anchorBlock child)) members
          selector.of := by
    intro hkind
    have hof : ∀ child ∈ selector.of, child ∈ selector.composedOf := by
      intro child hchild
      rwa [UniverseConfig.composedOf, if_pos (by simpa [UniverseConfig.isComposed] using hkind)]
    have hreturned : ∀ child ∈ selector.of, ∃ members, answeredBy env (g child) = .ok members ∧
        Represents members (Denotes self env token anchorBlock child) := fun child hchild =>
      hchildren child (hof child hchild) (hwf.child ⟨selector, known, hof child hchild⟩)
    obtain ⟨members, hmembers, hreps⟩ := exists_mapM_forall₂ hreturned
    exact ⟨members, by rw [List.mapM_map]; exact hmembers, hreps.flip⟩
  unfold UniverseResolver.visit
  cases hkind : selector.kind with
  | fullHolders => exact represents_fullHolders known hkind hwf
  | explicitList => exact represents_explicitList known hkind hwf
  | union =>
    obtain ⟨members, hmembers, hreps⟩ := hcomposed (.inl hkind)
    obtain ⟨-, hanswer⟩ := answeredBy_compose (.inl hkind) hmembers
    exact ⟨_, hanswer, (Represents.join hreps).congr fun _ _ => (denotes_union_iff known hkind).symm⟩
  | intersect =>
    obtain ⟨members, hmembers, hreps⟩ := hcomposed (.inr hkind)
    obtain ⟨hne, hanswer⟩ := answeredBy_compose (.inr hkind) hmembers
    exact ⟨_, hanswer, (Represents.meet hreps hne).congr fun _ _ =>
      (denotes_intersect_iff known hkind).symm⟩

/-! ## What a resolution raises -/

theorem answeredBy_compose_error {selector : UniverseConfig} {g : String → UniverseProgram SourceMap}
    {combine : List SourceMap → SourceMap} {fault : UniverseFault}
    (h : (selector.of.map g).mapM (fun p => answeredBy env p) = .error fault) :
    answeredBy env (UniverseResolver.compose name selector (selector.of.map g) combine) =
      .error fault := by
  unfold UniverseResolver.compose
  rw [answeredBy_bind, answeredBy_mapM]
  simp only [id_eq, h]
  rfl

/-- On such sources only a cycle or an unknown name is raised. -/
theorem isReference_of_answered {fault : UniverseFault}
    (hwf : WellFormedSources self env token anchorBlock name)
    (h : answeredBy env (self.resolveMap token anchorBlock [] name) = .error fault) :
    fault.isReference = true := by
  refine descend_induction (P := fun name (p : UniverseProgram SourceMap) =>
    WellFormedSources self env token anchorBlock name → ∀ fault, answeredBy env p = .error fault →
      fault.isReference = true) ?_ ?_ ?_ [] name hwf fault h
  · rintro stack name - _ ⟨⟩
    rfl
  · rintro name - _ ⟨⟩
    rfl
  intro name selector g known hchildren hwf fault hfault
  have hcomposed : ∀ combine, selector.kind = .union ∨ selector.kind = .intersect →
      answeredBy env (UniverseResolver.compose name selector (selector.of.map g) combine) =
        .error fault → fault.isReference = true := by
    intro combine hkind hraise
    cases hmembers : (selector.of.map g).mapM fun p => answeredBy env p with
    | ok members =>
      rw [(answeredBy_compose hkind hmembers).2] at hraise
      cases hraise
    | error e =>
      rw [answeredBy_compose_error hmembers] at hraise
      cases hraise
      obtain ⟨p, hp, hown⟩ := exists_of_mapM_eq_error hmembers
      obtain ⟨child, hchild, rfl⟩ := List.mem_map.mp hp
      have hmem : child ∈ selector.composedOf := by
        rwa [UniverseConfig.composedOf, if_pos (by simpa [UniverseConfig.isComposed] using hkind)]
      exact hchildren child hchild (hwf.child ⟨selector, known, hmem⟩) fault hown
  unfold UniverseResolver.visit at hfault
  cases hkind : selector.kind with
  | fullHolders =>
    obtain ⟨members, hmembers, -⟩ := represents_fullHolders known hkind hwf
    rw [hkind] at hfault
    cases hmembers.symm.trans hfault
  | explicitList =>
    obtain ⟨members, hmembers, -⟩ := represents_explicitList known hkind hwf
    rw [hkind] at hfault
    cases hmembers.symm.trans hfault
  | union =>
    rw [hkind] at hfault
    exact hcomposed MultiMap.join (.inl hkind) hfault
  | intersect =>
    rw [hkind] at hfault
    exact hcomposed MultiMap.meet (.inr hkind) hfault

/-- What returns met no cycle and no unknown name. -/
theorem grounded_of_answered {members : SourceMap}
    (h : answeredBy env (self.resolveMap token anchorBlock [] name) = .ok members) :
    Grounded self.universes UniverseConfig.composedOf name := by
  refine grounded_of_descend (P := fun p : UniverseProgram SourceMap =>
    ∃ members, answeredBy env p = .ok members) ?_ ?_ ?_ ⟨members, h⟩
  · exact fun _ _ ⟨_, hno⟩ => error_ne_ok hno
  · exact fun _ ⟨_, hno⟩ => error_ne_ok hno
  rintro name selector g ⟨members, hmembers⟩ child hchild
  have hcomposed : ∀ combine,
      answeredBy env (UniverseResolver.compose name selector (selector.of.map g) combine) =
        .ok members → child ∈ selector.of → ∃ own, answeredBy env (g child) = .ok own := by
    intro combine hreturn hmem
    cases hlists : (selector.of.map g).mapM fun p => answeredBy env p with
    | ok lists =>
      obtain ⟨own, -, hown⟩ := exists_of_mem_of_mapM hlists (List.mem_map_of_mem hmem)
      exact ⟨own, hown⟩
    | error e =>
      rw [answeredBy_compose_error hlists] at hreturn
      cases hreturn
  unfold UniverseConfig.composedOf at hchild
  split at hchild
  · rename_i hisComposed
    rw [UniverseConfig.isComposed, Bool.or_eq_true, decide_eq_true_eq, decide_eq_true_eq] at hisComposed
    unfold UniverseResolver.visit at hmembers
    rcases hisComposed with hkind | hkind
    · rw [hkind] at hmembers
      exact hcomposed MultiMap.join hmembers hchild
    · rw [hkind] at hmembers
      exact hcomposed MultiMap.meet hmembers hchild
  · exact absurd hchild List.not_mem_nil

/-! ## The frozen universe -/

/-- The members that a universe denotes, strictly sorted, each with all its labels, strictly sorted. -/
structure FrozenAs (R : String → String → Prop) (sources : List (String × List String)) : Prop where
  sorted : (sources.map Prod.fst).Pairwise (· < ·)
  members : ∀ address, address ∈ sources.map Prod.fst ↔ ∃ label, R address label
  provenance : ∀ entry ∈ sources, entry.2 ≠ [] ∧ entry.2.Pairwise (· < ·) ∧
    ∀ label, label ∈ entry.2 ↔ R entry.1 label

theorem map_fst_frozenSources (members : SourceMap) :
    (UniverseResolver.frozenSources members).map Prod.fst = sortBy id members.keys := by
  unfold UniverseResolver.frozenSources
  rw [List.map_map]
  exact List.map_id _

theorem Represents.frozenAs {members : SourceMap} {R : String → String → Prop}
    (h : Represents members R) : FrozenAs R (UniverseResolver.frozenSources members) where
  sorted := by
    rw [map_fst_frozenSources]
    exact sortBy_pairwise_lt h.nodup
  members address := by
    rw [map_fst_frozenSources, mem_sortBy, h.mem_keys]
  provenance entry hentry := by
    obtain ⟨address, haddress, rfl⟩ := List.mem_map.mp hentry
    have hlabels : ∀ label, label ∈ sortedSet (members.valuesOf address) ↔ R address label := by
      intro label
      rw [mem_sortedSet, h.values]
    refine ⟨?_, sortedSet_pairwise _, hlabels⟩
    obtain ⟨label, hlabel⟩ := h.mem_keys.mp (mem_sortBy.mp haddress)
    exact List.ne_nil_of_mem ((hlabels label).mpr hlabel)

theorem answeredBy_resolve {tokenAddress : String} (htoken : normalizeAddress tokenAddress = .ok token) :
    answeredBy env (self.resolve name tokenAddress anchorBlock) =
      (answeredBy env (self.resolveMap token anchorBlock [] name) >>= UniverseResolver.freeze) := by
  unfold UniverseResolver.resolve normalized
  rw [answeredBy_bind, answeredBy_ofExcept, htoken]
  show answeredBy env (_ >>= _) = _
  rw [answeredBy_bind]
  congr 1
  funext members
  exact answeredBy_ofExcept env _

/-! ## Addresses -/

end Resolve

end RpcStateIndexer
