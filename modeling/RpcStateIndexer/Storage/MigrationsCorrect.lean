import Mathlib.Data.List.TakeWhile
import RpcStateIndexer.Reasoning.Interleaving
import RpcStateIndexer.Storage.Migrations

/-!
# Crash safety of migrations

Runs of the runner, any number of them and overlapping in any way, over one database.  What a run
knows of the ledger it read there or wrote itself, and the ledger only grows; so no migration is
recorded before those in front of it, nor before its statements were executed.
-/

namespace RpcStateIndexer

open Reasoning Program

/-- The ledger table once it exists, the statements that were executed, and how many commands the
clients have sent. -/
structure MigrationWorld where
  ledger : Option (List (String × String))
  executed : List String
  commands : Nat

namespace MigrationWorld

def rows (w : MigrationWorld) : List (String × String) := w.ledger.getD []

/-- A statement of a migration takes effect: it may create the ledger, and leaves its rows alone. -/
def Executes (w : MigrationWorld) (statement : String) (w' : MigrationWorld) : Prop :=
  (w'.ledger = w.ledger ∨ w.ledger = none ∧ w'.ledger = some []) ∧
    w'.executed = w.executed ++ [statement] ∧ w'.commands = w.commands + 1

/-- An insert into the ledger takes effect. -/
def Records (w : MigrationWorld) (row : String × String) (w' : MigrationWorld) : Prop :=
  ∃ rows, w.ledger = some rows ∧ w' = ⟨some (rows ++ [row]), w.executed, w.commands + 1⟩

/-- A command that was sent and had no effect. -/
def Sends (w w' : MigrationWorld) : Prop := w' = { w with commands := w.commands + 1 }

end MigrationWorld

open MigrationWorld

/-- Queries are exact or raise; a command that raises may have taken effect. -/
def migrationEnv : (op : MigrationOp) → MigrationWorld → MigrationAns op → MigrationWorld → Prop
  | .ledgerExists, w, answer, w' => (answer = .ok w.ledger.isSome ∨ ∃ kind, answer = .error kind) ∧ w' = w
  | .loadLedger, w, answer, w' =>
    ((∃ rows, w.ledger = some rows ∧ answer = .ok (sortBy Prod.fst rows)) ∨
      ∃ kind, answer = .error kind) ∧ w' = w
  | .command statement, w, answer, w' => match answer with
    | .ok () => w.Executes statement w'
    | .error _ => w.Executes statement w' ∨ w.Sends w'
  | .insertLedger name checksum, w, answer, w' => match answer with
    | .ok () => w.Records (name, checksum) w'
    | .error _ => w.Records (name, checksum) w' ∨ w.Sends w'

/-! ## What a run knows -/

/-- What a run has read or written: rows of the ledger, statements executed, and the inserts into
the ledger that it sent. -/
structure MigrationKnowledge where
  ledger : List (String × String)
  executed : List String
  sent : List (String × String)

/-- The row is that of a migration whose statements were executed, and those in front of it are
recorded. -/
def Due (database : String) (migrations : List Migration) (ledger : List (String × String))
    (executed : List String) (row : String × String) : Prop :=
  ∃ earlier m later, migrations = earlier ++ m :: later ∧ m.record = row ∧
    (∀ e ∈ earlier, e.record ∈ ledger) ∧
    ∃ statements, m.statements database = .ok statements ∧ ∀ x ∈ statements, x ∈ executed

theorem Due.mono {database : String} {migrations : List Migration}
    {ledger ledger' : List (String × String)} {executed executed' : List String}
    {row : String × String} (h : Due database migrations ledger executed row)
    (hledger : ledger ⊆ ledger') (hexecuted : executed ⊆ executed') :
    Due database migrations ledger' executed' row := by
  obtain ⟨earlier, m, later, hsplit, hrow, hearlier, statements, hok, hall⟩ := h
  exact ⟨earlier, m, later, hsplit, hrow, fun e he => hledger (hearlier e he), statements, hok,
    fun x hx => hexecuted (hall x hx)⟩

namespace MigrationKnowledge

def move (s : MigrationKnowledge) : (op : MigrationOp) → MigrationAns op → MigrationKnowledge
  | .ledgerExists, _ => s
  | .loadLedger, .ok rows => { s with ledger := s.ledger ++ rows }
  | .loadLedger, .error _ => s
  | .command statement, .ok () => { s with executed := s.executed ++ [statement] }
  | .command _, .error _ => s
  | .insertLedger name checksum, .ok () => { s with
      ledger := s.ledger ++ [(name, checksum)]
      sent := s.sent ++ [(name, checksum)] }
  | .insertLedger name checksum, .error _ => { s with sent := s.sent ++ [(name, checksum)] }

/-- Knowledge grows. -/
def le (s s' : MigrationKnowledge) : Prop := s.ledger ⊆ s'.ledger ∧ s.executed ⊆ s'.executed

theorem le_refl (s : MigrationKnowledge) : s.le s := ⟨List.Subset.refl _, List.Subset.refl _⟩

theorem le_trans {a b c : MigrationKnowledge} (hab : a.le b) (hbc : b.le c) : a.le c :=
  ⟨List.Subset.trans hab.1 hbc.1, List.Subset.trans hab.2 hbc.2⟩

/-- Every insert that was sent was due. -/
def Proper (database : String) (migrations : List Migration) (s : MigrationKnowledge) : Prop :=
  ∀ row ∈ s.sent, Due database migrations s.ledger s.executed row

theorem Proper.mono {database : String} {migrations : List Migration} {s s' : MigrationKnowledge}
    (h : s.Proper database migrations) (hle : s.le s') (hsent : s'.sent = s.sent) :
    s'.Proper database migrations := by
  intro row hrow
  rw [hsent] at hrow
  exact (h row hrow).mono hle.1 hle.2

end MigrationKnowledge

open MigrationKnowledge

section Run

variable {database : String} {migrations : List Migration} {α : Type}

/-- A part of a run that keeps to what is due, and what it establishes on returning. -/
abbrev Learns (database : String) (migrations : List Migration)
    (P : α → MigrationKnowledge → Prop) (p : MigrationProgram α) (s : MigrationKnowledge) : Prop :=
  Returns (Parties.staged MigrationKnowledge.move) (MigrationKnowledge.Proper database migrations)
    (fun a s' => s'.Proper database migrations ∧ s.le s' ∧ P a s') p s

theorem learns_bind {β : Type} {P : α → MigrationKnowledge → Prop} {R : β → MigrationKnowledge → Prop}
    {p : MigrationProgram α} {f : α → MigrationProgram β} {s : MigrationKnowledge}
    (hp : Learns database migrations P p s)
    (hf : ∀ a s', s'.Proper database migrations → s.le s' → P a s' →
      Learns database migrations R (f a) s') :
    Learns database migrations R (p >>= f) s := by
  apply Returns.bind hp
  rintro a s' ⟨hproper, hle, ha⟩
  apply (hf a s' hproper hle ha).mono
  rintro b s'' ⟨hproper', hle', hb⟩
  exact ⟨hproper', le_trans hle hle', hb⟩

theorem learns_client {op : MigrationOp} {P : MigrationValue op → MigrationKnowledge → Prop}
    {s : MigrationKnowledge} (h : ∀ answer, (s.move op answer).Proper database migrations ∧
      s.le (s.move op answer))
    (hP : ∀ value, P value (s.move op (.ok value))) :
    Learns database migrations P (MigrationRunner.client op) s := by
  rintro (kind | value) s' rfl
  · exact ⟨(h _).1, (h _).1⟩
  · exact ⟨(h _).1, (h _).1, (h _).2, hP value⟩

theorem learns_ofExcept {x : Except MigrationException α} {P : α → MigrationKnowledge → Prop}
    {s : MigrationKnowledge} (hs : s.Proper database migrations) (h : ∀ a, x = .ok a → P a s) :
    Learns database migrations P (ofExcept x) s :=
  Returns.ofExcept hs fun a ha => ⟨hs, le_refl s, h a ha⟩

theorem learns_ret {P : α → MigrationKnowledge → Prop} {s : MigrationKnowledge} {a : α}
    (hs : s.Proper database migrations) (h : P a s) : Learns database migrations P (.ret a) s :=
  ⟨hs, le_refl s, h⟩

/-! ## The items of the dictionary -/

theorem mem_of_recordedChecksum {applied : List (String × String)} {name checksum : String}
    (h : MigrationRunner.recordedChecksum applied name = some checksum) :
    (name, checksum) ∈ applied := by
  obtain ⟨row, hrow, rfl⟩ := Option.map_eq_some_iff.mp h
  have hname : row.1 = name := by simpa using List.find?_some hrow
  rw [← hname]
  exact List.mem_of_find?_eq_some hrow

theorem recordedChecksum_ne_none {applied : List (String × String)} {row : String × String}
    (h : row ∈ applied) : MigrationRunner.recordedChecksum applied row.1 ≠ none := by
  intro hnone
  rw [MigrationRunner.recordedChecksum, Option.map_eq_none_iff, List.find?_eq_none] at hnone
  exact hnone row h (by simp)

/-- The dictionary holds rows of the ledger, and every name of the ledger. -/
theorem foldlM_addApplied {rows acc applied : List (String × String)}
    (h : rows.foldlM MigrationRunner.addApplied acc = .ok applied) :
    (∀ row ∈ applied, row ∈ acc ∨ row ∈ rows) ∧
      ∀ row, row ∈ acc ∨ row ∈ rows → MigrationRunner.recordedChecksum applied row.1 ≠ none := by
  induction rows generalizing acc with
  | nil =>
    obtain rfl : acc = applied := Except.ok.inj h
    refine ⟨fun row hrow => .inl hrow, ?_⟩
    rintro row (hrow | hrow)
    · exact recordedChecksum_ne_none hrow
    · cases hrow
  | cons first rows ih =>
    rw [List.foldlM_cons] at h
    cases hstep : MigrationRunner.addApplied acc first with
    | error e =>
      rw [hstep] at h
      cases h
    | ok acc' =>
      rw [hstep] at h
      obtain ⟨hmem, hnames⟩ := ih h
      -- the name of the first row is there already, or the row is added
      have hstep' : (acc' = acc ∧ MigrationRunner.recordedChecksum acc first.1 ≠ none) ∨
          acc' = acc ++ [first] := by
        rw [MigrationRunner.addApplied] at hstep
        split at hstep
        · rename_i existing hexisting
          split at hstep
          · cases hstep
          · exact .inl ⟨(Except.ok.inj hstep).symm, by simp [hexisting]⟩
        · exact .inr (Except.ok.inj hstep).symm
      rcases hstep' with ⟨rfl, hpresent⟩ | rfl
      · refine ⟨fun row hrow => (hmem row hrow).imp_right (List.mem_cons_of_mem _), ?_⟩
        rintro row (hrow | hrow)
        · exact hnames row (.inl hrow)
        · rcases List.mem_cons.mp hrow with rfl | hrow
          · obtain ⟨checksum, hchecksum⟩ := Option.ne_none_iff_exists'.mp hpresent
            exact hnames (row.1, checksum) (.inl (mem_of_recordedChecksum hchecksum))
          · exact hnames row (.inr hrow)
      · refine ⟨fun row hrow => ?_, ?_⟩
        · rcases hmem row hrow with hold | hnew
          · rcases List.mem_append.mp hold with hold | hfirst
            · exact .inl hold
            · rw [List.mem_singleton.mp hfirst]
              exact .inr List.mem_cons_self
          · exact .inr (List.mem_cons_of_mem _ hnew)
        · rintro row (hrow | hrow)
          · exact hnames row (.inl (List.mem_append_left _ hrow))
          · rcases List.mem_cons.mp hrow with rfl | hrow
            · exact hnames row (.inl (List.mem_append_right _ (List.mem_singleton.mpr rfl)))
            · exact hnames row (.inr hrow)

/-! ## The parts of a run -/

theorem learns_loadApplied {s : MigrationKnowledge} (hs : s.Proper database migrations) :
    Learns database migrations (fun applied s' => ∀ row ∈ applied, row ∈ s'.ledger)
      MigrationRunner.loadApplied s := by
  apply learns_bind (P := fun rows s' => ∀ row ∈ rows, row ∈ s'.ledger)
  · apply learns_client
    · rintro (kind | rows)
      · exact ⟨hs, le_refl s⟩
      · have hle : s.le (s.move .loadLedger (.ok rows)) :=
          ⟨List.subset_append_left _ _, List.Subset.refl _⟩
        exact ⟨hs.mono hle rfl, hle⟩
    · intro rows row hrow
      exact List.mem_append_right _ hrow
  · intro rows s' hs' _ hrows
    apply learns_ofExcept hs'
    intro applied happlied row hrow
    rcases (foldlM_addApplied happlied).1 row hrow with h | h
    · cases h
    · exact hrows row h

theorem learns_execute {s : MigrationKnowledge} (hs : s.Proper database migrations) (m : Migration) :
    Learns database migrations (fun _ s' => ∃ statements, m.statements database = .ok statements ∧
      ∀ x ∈ statements, x ∈ s'.executed) (MigrationRunner.execute database m) s := by
  apply learns_bind (P := fun statements _ => m.statements database = .ok statements)
  · exact learns_ofExcept hs fun statements hok => hok
  · intro statements s' hs' _ hok
    apply Returns.mono (Returns.forM_each MigrationKnowledge.le le_refl (fun _ _ _ => le_trans)
      (S := fun x s'' => x ∈ s''.executed) (fun x _ _ hle hx => hle.2 hx) hs' ?_)
    · rintro _ s'' ⟨hs'', hle, hall⟩
      exact ⟨hs'', hle, statements, hok, hall⟩
    · intro x _ s₁ hs₁
      apply learns_client
      · rintro (kind | ⟨⟩)
        · exact ⟨hs₁, le_refl s₁⟩
        · have hle : s₁.le (s₁.move (.command x) (.ok ())) :=
            ⟨List.Subset.refl _, List.subset_append_left _ _⟩
          exact ⟨hs₁.mono hle rfl, hle⟩
      · intro _
        exact List.mem_append_right _ (List.mem_singleton.mpr rfl)

theorem learns_record {s : MigrationKnowledge} (hs : s.Proper database migrations) (m : Migration)
    (hdue : Due database migrations s.ledger s.executed m.record) :
    Learns database migrations (fun _ s' => m.record ∈ s'.ledger)
      (MigrationRunner.recordMigration m) s := by
  rintro (kind | ⟨⟩) s' rfl
  · have hsent : (s.move (.insertLedger m.name m.checksum) (.error kind)).Proper database
        migrations := by
      intro row hrow
      rcases List.mem_append.mp hrow with hold | hnew
      · exact hs row hold
      · rw [List.mem_singleton.mp hnew]
        exact hdue
    refine ⟨hsent, ?_⟩
    -- the row is read back, or the exception goes on
    apply learns_bind (learns_loadApplied hsent)
    intro applied s'' hs'' _ happlied
    by_cases hread : MigrationRunner.recordedChecksum applied m.name = some m.checksum
    · rw [if_neg (not_not.mpr hread)]
      exact learns_ret hs'' (happlied _ (mem_of_recordedChecksum hread))
    · rw [if_pos hread]
      exact hs''
  · have hle : s.le (s.move (.insertLedger m.name m.checksum) (.ok ())) :=
      ⟨List.subset_append_left _ _, List.Subset.refl _⟩
    have hsent : (s.move (.insertLedger m.name m.checksum) (.ok ())).Proper database
        migrations := by
      intro row hrow
      rcases List.mem_append.mp hrow with hold | hnew
      · exact (hs row hold).mono hle.1 hle.2
      · rw [List.mem_singleton.mp hnew]
        exact hdue.mono hle.1 hle.2
    exact ⟨hsent, hsent, hle, List.mem_append_right _ (List.mem_singleton.mpr rfl)⟩

/-- A migration whose predecessors are recorded is executed and recorded. -/
theorem learns_executeAndRecord {β : Type} {R : β → MigrationKnowledge → Prop}
    {s : MigrationKnowledge} (hs : s.Proper database migrations) {earlier later : List Migration}
    {m : Migration} (hsplit : migrations = earlier ++ m :: later)
    (hearlier : ∀ e ∈ earlier, e.record ∈ s.ledger) {k : Unit → MigrationProgram β}
    (hk : ∀ s', s'.Proper database migrations → s.le s' → m.record ∈ s'.ledger →
      Learns database migrations R (k ()) s') :
    Learns database migrations R (MigrationRunner.execute database m >>= fun _ =>
      MigrationRunner.recordMigration m >>= k) s := by
  apply learns_bind (learns_execute hs m)
  rintro _ s₁ hs₁ hle₁ ⟨statements, hok, hall⟩
  have hdue : Due database migrations s₁.ledger s₁.executed m.record :=
    ⟨earlier, m, later, hsplit, rfl, fun e he => hle₁.1 (hearlier e he), statements, hok, hall⟩
  apply learns_bind (learns_record hs₁ m hdue)
  intro _ s₂ hs₂ hle₂ hm
  exact hk s₂ hs₂ (le_trans hle₁ hle₂) hm

/-- The loop, from a point where everything in front is recorded. -/
theorem learns_applyFrom {bootstrapped : List String} {rest : List Migration} :
    ∀ {earlier : List Migration} {applied : List (String × String)} {s : MigrationKnowledge},
      s.Proper database migrations → migrations = earlier ++ rest →
      (∀ e ∈ earlier, e.record ∈ s.ledger) → (∀ row ∈ applied, row ∈ s.ledger) →
      Learns database migrations (fun _ s' => ∀ m ∈ migrations, m.record ∈ s'.ledger)
        (MigrationRunner.applyFrom database bootstrapped rest applied) s := by
  induction rest with
  | nil =>
    intro earlier applied s hs hsplit hearlier _
    rw [List.append_nil] at hsplit
    exact learns_ret hs (hsplit ▸ hearlier)
  | cons m rest ih =>
    intro earlier applied s hs hsplit hearlier happlied
    have hnext : migrations = (earlier ++ [m]) ++ rest := by rw [hsplit]; simp
    have hrecorded : ∀ s' : MigrationKnowledge, s.le s' → m.record ∈ s'.ledger →
        ∀ e ∈ earlier ++ [m], e.record ∈ s'.ledger := by
      intro s' hle hm e he
      rcases List.mem_append.mp he with hold | hnew
      · exact hle.1 (hearlier e hold)
      · rw [List.mem_singleton.mp hnew]
        exact hm
    rw [MigrationRunner.applyFrom]
    split
    · rename_i recorded hchecksum
      by_cases hsame : recorded ≠ m.checksum
      · rw [if_pos hsame]
        exact hs
      · rw [if_neg hsame]
        rw [not_not.mp hsame] at hchecksum
        have hm := happlied _ (mem_of_recordedChecksum hchecksum)
        apply learns_bind (ih hs hnext (hrecorded s (le_refl s) hm) happlied)
        intro outcomes s' hs' _ hall
        exact learns_ret hs' hall
    · apply learns_executeAndRecord hs hsplit hearlier
      intro s' hs' hle hm
      apply learns_bind (ih hs' hnext (hrecorded s' hle hm) ?_)
      · intro outcomes s'' hs'' _ hall
        exact learns_ret hs'' hall
      · intro row hrow
        rcases List.mem_append.mp hrow with hold | hnew
        · exact hle.1 (happlied row hold)
        · rw [List.mem_singleton.mp hnew]
          exact hm

theorem learns_bootstrap {s : MigrationKnowledge} (hs : s.Proper database migrations) :
    Learns database migrations (fun _ _ => True) (MigrationRunner.bootstrap database migrations)
      s := by
  apply learns_bind (P := fun _ _ => True)
  · apply learns_client
    · intro answer
      exact ⟨hs, le_refl s⟩
    · intro _
      trivial
  · intro present s' hs' _ _
    split
    · exact learns_ret hs' trivial
    · exact learns_ret hs' trivial
    · rename_i first rest
      apply learns_executeAndRecord hs' (List.nil_append _).symm (List.forall_mem_nil _)
      intro s'' hs'' _ _
      exact learns_ret hs'' trivial

end Run

/-- A run of the runner keeps to what is due, and returns when everything is recorded. -/
theorem learns_apply (runner : MigrationRunner) {migrations : List Migration}
    (hmigrations : discoverMigrations runner.directory runner.entries = .ok migrations) :
    Learns runner.database migrations (fun _ s' => ∀ m ∈ migrations, m.record ∈ s'.ledger)
      runner.apply ⟨[], [], []⟩ := by
  have hempty : (⟨[], [], []⟩ : MigrationKnowledge).Proper runner.database migrations :=
    List.forall_mem_nil _
  rw [MigrationRunner.apply, hmigrations]
  apply learns_bind (learns_bootstrap hempty)
  intro bootstrapped s hs _ _
  apply learns_bind (learns_loadApplied hs)
  intro applied s' hs' _ happlied
  exact learns_applyFrom hs' (List.nil_append _).symm (List.forall_mem_nil _) happlied

/-! ## The order of the files -/

theorem toNat_of_isDigit {c : Char} (h : c.isDigit = true) : 48 ≤ c.toNat ∧ c.toNat ≤ 57 := by
  simp only [Char.isDigit, Bool.and_eq_true, decide_eq_true_eq, ge_iff_le,
    UInt32.le_iff_toNat_le] at h
  exact h

/-- A name that starts with a number. -/
theorem migrationNumber_eq_some {name : String} {number : Nat}
    (h : migrationNumber name = some number) :
    ∃ a b c rest, name.toList = a :: b :: c :: rest ∧ a.isDigit = true ∧ b.isDigit = true ∧
      c.isDigit = true ∧ number = digitsValue a b c := by
  rw [migrationNumber] at h
  split at h
  · rename_i a b c underscore rest hname
    dsimp only at h
    split at h
    · rename_i hmatch
      simp only [Bool.and_eq_true] at hmatch
      obtain ⟨⟨⟨⟨⟨⟨ha, hb⟩, hc⟩, -⟩, -⟩, -⟩, -⟩ := hmatch
      exact ⟨a, b, c, underscore :: rest, hname, ha, hb, hc, (Option.some.inj h).symm⟩
    · cases h
  · cases h

/-- Names of three digits are in the order of their numbers. -/
theorem number_le_of_name_le {name name' : String} {number number' : Nat}
    (h : migrationNumber name = some number) (h' : migrationNumber name' = some number')
    (hle : name ≤ name') : number ≤ number' := by
  obtain ⟨a, b, c, rest, hname, ha, hb, hc, rfl⟩ := migrationNumber_eq_some h
  obtain ⟨a', b', c', rest', hname', ha', hb', hc', rfl⟩ := migrationNumber_eq_some h'
  have := toNat_of_isDigit ha
  have := toNat_of_isDigit hb
  have := toNat_of_isDigit hc
  have := toNat_of_isDigit ha'
  have := toNat_of_isDigit hb'
  have := toNat_of_isDigit hc'
  have heq : ∀ x y : Char, x.toNat = y.toNat → x = y := fun x y h => Char.ext (UInt32.toNat_inj.mp h)
  by_contra hlt
  apply not_lt.mpr hle
  rw [String.lt_iff_toList_lt, hname, hname']
  simp only [List.cons_lt_cons_iff, Char.lt_def, UInt32.lt_iff_toNat_lt]
  have hzero : '0'.toNat = 48 := rfl
  simp only [digitsValue, hzero] at hlt
  -- the first digit that differs decides
  by_cases h₀ : a'.toNat = a.toNat
  · refine .inr ⟨heq _ _ h₀, ?_⟩
    by_cases h₁ : b'.toNat = b.toNat
    · refine .inr ⟨heq _ _ h₁, .inl ?_⟩
      show c'.toNat < c.toNat
      omega
    · refine .inl ?_
      show b'.toNat < b.toNat
      omega
  · refine .inl ?_
    show a'.toNat < a.toNat
    omega

/-- The migrations found so far, with the entries that are still to come. -/
structure Found (found : List Migration) (entries : List DirectoryEntry) : Prop where
  ordered : found.Pairwise fun m m' => m.number < m'.number
  named : ∀ m ∈ found, migrationNumber m.name = some m.number
  before : ∀ m ∈ found, ∀ entry ∈ entries, m.name ≤ entry.name

theorem Found.step {found found' : List Migration} {entry : DirectoryEntry}
    {entries : List DirectoryEntry} (h : Found found (entry :: entries))
    (hsorted : ∀ e ∈ entries, entry.name ≤ e.name)
    (hstep : discoverEntry found entry = .ok found') : Found found' entries := by
  have hrest : Found found entries :=
    ⟨h.ordered, h.named, fun m hm e he => h.before m hm e (List.mem_cons_of_mem _ he)⟩
  rw [discoverEntry] at hstep
  split at hstep
  · rw [← Except.ok.inj hstep]
    exact hrest
  · split at hstep
    · cases hstep
    · rename_i number hnumber
      split at hstep
      · cases hstep
      · rename_i hnew
        split at hstep
        · cases hstep
        · rename_i sql _
          rw [← Except.ok.inj hstep]
          refine ⟨List.pairwise_append.mpr ⟨h.ordered, List.pairwise_singleton _ _, ?_⟩, ?_, ?_⟩
          · intro m hm m' hm'
            rw [List.mem_singleton.mp hm']
            have hle := number_le_of_name_le (h.named m hm) hnumber
              (h.before m hm entry List.mem_cons_self)
            have hne : m.number ≠ number := by simpa using List.find?_eq_none.mp hnew m hm
            exact lt_of_le_of_ne hle hne
          · intro m hm
            rcases List.mem_append.mp hm with hold | hlast
            · exact h.named m hold
            · rw [List.mem_singleton.mp hlast]
              exact hnumber
          · intro m hm e he
            rcases List.mem_append.mp hm with hold | hlast
            · exact hrest.before m hold e he
            · rw [List.mem_singleton.mp hlast]
              exact hsorted e he

theorem Found.foldlM {entries : List DirectoryEntry} :
    ∀ {found migrations : List Migration}, Found found entries →
      entries.Pairwise (fun e e' => e.name ≤ e'.name) →
      entries.foldlM discoverEntry found = .ok migrations → Found migrations [] := by
  induction entries with
  | nil =>
    intro found migrations h _ hfold
    rw [← Except.ok.inj hfold]
    exact h
  | cons entry entries ih =>
    intro found migrations h hsorted hfold
    rw [List.foldlM_cons] at hfold
    obtain ⟨hfirst, hrest⟩ := List.pairwise_cons.mp hsorted
    cases hstep : discoverEntry found entry with
    | error e =>
      rw [hstep] at hfold
      cases hfold
    | ok found' =>
      rw [hstep] at hfold
      exact ih (h.step hfirst hstep) hrest hfold

/-- Discovered migrations are numbered upwards from zero. -/
theorem discoverMigrations_eq_ok {directory : String} {entries : Option (List DirectoryEntry)}
    {migrations : List Migration} (h : discoverMigrations directory entries = .ok migrations) :
    Found migrations [] ∧ ∃ first rest, migrations = first :: rest ∧ first.number = 0 := by
  cases entries with
  | none => cases h
  | some entries =>
    dsimp only [discoverMigrations] at h
    cases hfold : (sortBy DirectoryEntry.name entries).foldlM discoverEntry [] with
    | error e =>
      rw [hfold] at h
      cases h
    | ok found =>
      rw [hfold] at h
      have hnothing : Found [] (sortBy DirectoryEntry.name entries) :=
        ⟨.nil, List.forall_mem_nil _, List.forall_mem_nil _⟩
      have hfound := hnothing.foldlM (sortBy_pairwise _ _) hfold
      cases found with
      | nil => cases h
      | cons first rest =>
        change (if first.number ≠ 0 then _ else _) = _ at h
        split at h
        · cases h
        · rename_i hzero
          rw [← Except.ok.inj h]
          exact ⟨hfound, first, rest, rfl, not_not.mp hzero⟩

/-! ## Any number of runs -/

/-- The files of the directory; none when it is refused. -/
def MigrationRunner.migrations (runner : MigrationRunner) : List Migration :=
  (discoverMigrations runner.directory runner.entries).toOption.getD []

theorem MigrationRunner.found (runner : MigrationRunner) : Found runner.migrations [] := by
  rw [MigrationRunner.migrations]
  cases hdiscover : discoverMigrations runner.directory runner.entries with
  | ok migrations => exact (discoverMigrations_eq_ok hdiscover).1
  | error e => exact ⟨.nil, List.forall_mem_nil _, List.forall_mem_nil _⟩

/-- A migration is known by its name. -/
theorem Found.eq_of_name {migrations : List Migration} (h : Found migrations []) {m m' : Migration}
    (hm : m ∈ migrations) (hm' : m' ∈ migrations) (hname : m.name = m'.name) : m = m' := by
  have hnodup : (migrations.map Migration.number).Nodup :=
    List.pairwise_map.mpr (h.ordered.imp fun hlt => hlt.ne)
  apply List.inj_on_of_nodup_map hnodup hm hm'
  have hnumber := h.named m hm
  rw [hname, h.named m' hm'] at hnumber
  exact (Option.some.inj hnumber).symm

abbrev MigrationRuns (P : Type) :=
  Parties P MigrationOp MigrationAns MigrationException (List MigrationOutcome) MigrationKnowledge
    MigrationWorld

namespace MigrationRunner

variable {P : Type} [DecidableEq P] {runner : MigrationRunner}

/-- Every run is about to start, on a database that is empty. -/
def start (P : Type) (runner : MigrationRunner) : MigrationRuns P where
  program _ := runner.apply
  stage _ := ⟨[], [], []⟩
  world := ⟨none, [], 0⟩

/-- Runs take steps in any order, and any of them may stop for good at any point. -/
abbrev Schedule : MigrationRuns P → MigrationRuns P → Prop :=
  Parties.Run (fun _ _ => True) (fun _ => migrationEnv) (fun _ => MigrationKnowledge.move)
    fun _ _ => False

/-- Runs know what is in the database, and what is recorded was due. -/
structure Sound (runner : MigrationRunner) (stage : P → MigrationKnowledge) (w : MigrationWorld) :
    Prop where
  ledger : ∀ p, (stage p).ledger ⊆ w.rows
  executed : ∀ p, (stage p).executed ⊆ w.executed
  due : ∀ row ∈ w.rows, Due runner.database runner.migrations w.rows w.executed row

/-- A database that grew by what was due, and a run that learned no more than what is there. -/
theorem Sound.grow {stage : P → MigrationKnowledge} {w w' : MigrationWorld} {p : P}
    {s' : MigrationKnowledge} (h : runner.Sound stage w) (hrows : w.rows ⊆ w'.rows)
    (hexecuted : w.executed ⊆ w'.executed) (hledger' : s'.ledger ⊆ w'.rows)
    (hexecuted' : s'.executed ⊆ w'.executed)
    (hnew : ∀ row ∈ w'.rows, row ∈ w.rows ∨
      Due runner.database runner.migrations w'.rows w'.executed row) :
    runner.Sound (Function.update stage p s') w' := by
  refine ⟨?_, ?_, ?_⟩
  · intro q
    by_cases hq : q = p
    · rw [hq, Function.update_self]
      exact hledger'
    · rw [Function.update_of_ne hq]
      exact List.Subset.trans (h.ledger q) hrows
  · intro q
    by_cases hq : q = p
    · rw [hq, Function.update_self]
      exact hexecuted'
    · rw [Function.update_of_ne hq]
      exact List.Subset.trans (h.executed q) hexecuted
  · intro row hrow
    rcases hnew row hrow with hold | hdue
    · exact (h.due row hold).mono hrows hexecuted
    · exact hdue

theorem rows_executes {w w' : MigrationWorld} {statement : String}
    (h : w.Executes statement w') : w'.rows = w.rows := by
  obtain ⟨hledger | ⟨hnone, hsome⟩, -⟩ := h
  · rw [rows, rows, hledger]
  · rw [rows, rows, hnone, hsome]
    rfl

theorem rows_records {w w' : MigrationWorld} {row : String × String} (h : w.Records row w') :
    w'.rows = w.rows ++ [row] ∧ w'.executed = w.executed := by
  obtain ⟨rows, hledger, rfl⟩ := h
  rw [MigrationWorld.rows, MigrationWorld.rows, hledger]
  exact ⟨rfl, rfl⟩

/-- One operation of one run. -/
theorem Sound.step {stage : P → MigrationKnowledge} {w w' : MigrationWorld} {p : P}
    {op : MigrationOp} {answer : MigrationAns op} (h : runner.Sound stage w)
    (hproper : ((stage p).move op answer).Proper runner.database runner.migrations)
    (henv : migrationEnv op w answer w') :
    runner.Sound (Function.update stage p ((stage p).move op answer)) w' := by
  have hunchanged : ∀ row ∈ w.rows, row ∈ w.rows ∨
      Due runner.database runner.migrations w.rows w.executed row := fun row hrow => .inl hrow
  cases op with
  | ledgerExists =>
    obtain ⟨-, rfl⟩ := henv
    exact h.grow (List.Subset.refl _) (List.Subset.refl _) (h.ledger p) (h.executed p) hunchanged
  | loadLedger =>
    obtain ⟨hanswer, rfl⟩ := henv
    rcases hanswer with ⟨rows, hledger, rfl⟩ | ⟨kind, rfl⟩
    · refine h.grow (List.Subset.refl _) (List.Subset.refl _) ?_ (h.executed p) hunchanged
      apply List.append_subset.mpr ⟨h.ledger p, ?_⟩
      intro row hrow
      rw [MigrationWorld.rows, hledger]
      exact mem_sortBy.mp hrow
    · exact h.grow (List.Subset.refl _) (List.Subset.refl _) (h.ledger p) (h.executed p) hunchanged
  | command statement =>
    have heffect : w.Executes statement w' ∨ w.Sends w' := by
      cases answer with
      | ok _ => exact .inl henv
      | error kind => exact henv
    rcases heffect with hexecutes | rfl
    · have hrows := rows_executes hexecutes
      have hexecuted : w'.executed = w.executed ++ [statement] := hexecutes.2.1
      refine h.grow (hrows ▸ List.Subset.refl _) (hexecuted ▸ List.subset_append_left _ _) ?_ ?_
        fun row hrow => .inl (hrows ▸ hrow)
      · rw [hrows]
        cases answer <;> exact h.ledger p
      · rw [hexecuted]
        cases answer with
        | ok _ =>
          exact List.append_subset.mpr ⟨List.Subset.trans (h.executed p)
            (List.subset_append_left _ _), List.subset_append_right _ _⟩
        | error kind => exact List.Subset.trans (h.executed p) (List.subset_append_left _ _)
    · cases answer with
      | ok _ =>
        -- an answered statement took effect
        obtain ⟨-, hexecuted, -⟩ := (henv : w.Executes statement _)
        exact absurd (congrArg List.length hexecuted) (by simp)
      | error kind =>
        exact h.grow (List.Subset.refl _) (List.Subset.refl _) (h.ledger p) (h.executed p) hunchanged
  | insertLedger name checksum =>
    have hdue : Due runner.database runner.migrations ((stage p).move (.insertLedger name checksum)
        answer).ledger (stage p).executed (name, checksum) := by
      cases answer <;>
        exact hproper _ (List.mem_append_right _ (List.mem_singleton.mpr rfl))
    have heffect : w.Records (name, checksum) w' ∨ w.Sends w' := by
      cases answer with
      | ok _ => exact .inl henv
      | error kind => exact henv
    rcases heffect with hrecords | rfl
    · obtain ⟨hrows, hexecuted⟩ := rows_records hrecords
      have hknown : ((stage p).move (.insertLedger name checksum) answer).ledger ⊆ w'.rows := by
        rw [hrows]
        cases answer with
        | ok _ =>
          exact List.append_subset.mpr ⟨List.Subset.trans (h.ledger p)
            (List.subset_append_left _ _), List.subset_append_right _ _⟩
        | error kind => exact List.Subset.trans (h.ledger p) (List.subset_append_left _ _)
      have hdone : (stage p).executed ⊆ w'.executed := hexecuted ▸ h.executed p
      refine h.grow (hrows ▸ List.subset_append_left _ _) (hexecuted ▸ List.Subset.refl _) hknown ?_ ?_
      · cases answer <;> exact hdone
      · intro row hrow
        rw [hrows] at hrow
        rcases List.mem_append.mp hrow with hold | hnew
        · exact .inl hold
        · rw [List.mem_singleton.mp hnew]
          exact .inr (hdue.mono hknown hdone)
    · cases answer with
      | ok _ =>
        obtain ⟨rows, hledger, hsame⟩ := (henv : w.Records (name, checksum) _)
        have hlength := congrArg (fun w : MigrationWorld => (w.ledger.getD []).length) hsame
        rw [hledger] at hlength
        simp at hlength
      | error kind =>
        exact h.grow (List.Subset.refl _) (List.Subset.refl _) (h.ledger p) (h.executed p) hunchanged

/-- What a run that returns knows: everything is recorded. -/
def Finishes (runner : MigrationRunner) :
    Except MigrationException (List MigrationOutcome) → MigrationKnowledge → Prop
  | .ok _, s => ∀ m ∈ runner.migrations, m.record ∈ s.ledger
  | .error _, _ => True

omit [DecidableEq P] in
theorem keeps_start (runner : MigrationRunner) :
    Parties.Keeps (fun _ => MigrationKnowledge.move)
      (fun _ => MigrationKnowledge.Proper runner.database runner.migrations)
      (fun _ => runner.Finishes) (runner.start P) := by
  intro p
  refine ⟨List.forall_mem_nil _, ?_⟩
  cases hdiscover : discoverMigrations runner.directory runner.entries with
  | error e =>
    show Safe _ _ _ runner.apply _
    rw [apply, hdiscover]
    trivial
  | ok migrations =>
    have hmigrations : runner.migrations = migrations := by
      rw [MigrationRunner.migrations, hdiscover]
      rfl
    rw [hmigrations]
    refine Safe.mono (learns_apply runner hdiscover) (fun _ h => h) ?_
    rintro (e | outcomes) s h
    · trivial
    · rw [Finishes, hmigrations]
      exact h.2.2

omit [DecidableEq P] in
theorem sound_start (runner : MigrationRunner) :
    runner.Sound (runner.start P).stage (runner.start P).world :=
  ⟨fun _ => List.Subset.refl _, fun _ => List.Subset.refl _, List.forall_mem_nil _⟩

theorem Schedule.sound {s : MigrationRuns P} (h : Schedule (runner.start P) s) :
    Parties.Keeps (fun _ => MigrationKnowledge.move)
      (fun _ => MigrationKnowledge.Proper runner.database runner.migrations)
      (fun _ => runner.Finishes) s ∧ runner.Sound s.stage s.world := by
  apply Parties.invariant_run ?_ ?_ (keeps_start runner) (sound_start runner) h
  · intro _ _ _ _ _ hambient
    exact hambient.elim
  · intro stage w p op answer w' _ hsound _ hproper henv
    exact hsound.step hproper henv

omit [DecidableEq P] in
/-- What is recorded is a prefix of the files. -/
theorem Sound.recorded_prefix {stage : P → MigrationKnowledge} {w : MigrationWorld}
    (h : runner.Sound stage w) : ∃ k, ∀ row,
      row ∈ w.rows ↔ row ∈ (runner.migrations.take k).map Migration.record := by
  let isRecorded := fun m : Migration => decide (m.record ∈ w.rows)
  refine ⟨(runner.migrations.takeWhile isRecorded).length, ?_⟩
  have htake : runner.migrations.take (runner.migrations.takeWhile isRecorded).length =
      runner.migrations.takeWhile isRecorded :=
    (List.prefix_iff_eq_take.mp (List.takeWhile_prefix isRecorded)).symm
  intro row
  rw [htake, List.mem_map]
  constructor
  · intro hrow
    obtain ⟨earlier, m, later, hsplit, rfl, hearlier, -⟩ := h.due row hrow
    refine ⟨m, ?_, rfl⟩
    -- everything up to this migration is recorded
    have hall : ∀ e ∈ earlier ++ [m], isRecorded e = true := by
      intro e he
      rcases List.mem_append.mp he with hold | hlast
      · exact decide_eq_true (hearlier e hold)
      · rw [List.mem_singleton.mp hlast]
        exact decide_eq_true hrow
    have happend : earlier ++ m :: later = (earlier ++ [m]) ++ later := by simp
    rw [hsplit, happend, List.takeWhile_append_of_pos hall]
    simp
  · rintro ⟨m, hm, rfl⟩
    have hrecorded : isRecorded m = true := List.mem_takeWhile_imp hm
    exact of_decide_eq_true hrecorded

/-! ## A further run -/

theorem safe_applyFrom_complete {w : MigrationWorld} {bootstrapped : List String}
    {applied : List (String × String)} {migrations : List Migration}
    (hnames : ∀ m ∈ migrations, recordedChecksum applied m.name ≠ none) :
    Returns migrationEnv (fun w' => w' = w) (fun _ w' => w' = w)
      (applyFrom runner.database bootstrapped migrations applied) w := by
  induction migrations with
  | nil => rfl
  | cons m later ih =>
    obtain ⟨checksum, hchecksum⟩ := Option.ne_none_iff_exists'.mp (hnames m List.mem_cons_self)
    rw [applyFrom, hchecksum]
    dsimp only
    split
    · rfl
    · apply Returns.bind (ih fun m hm => hnames m (List.mem_cons_of_mem _ hm))
      rintro outcomes w' rfl
      rfl

/-- Where everything is recorded, a run sends no command. -/
theorem safe_apply_complete {w : MigrationWorld}
    (hall : ∀ m ∈ runner.migrations, m.record ∈ w.rows) :
    Returns migrationEnv (fun w' => w' = w) (fun _ w' => w' = w) runner.apply w := by
  rw [apply]
  refine Returns.ofExcept_bind (C := fun w' => w' = w) rfl ?_
  intro migrations hdiscover
  have hmigrations : runner.migrations = migrations := by
    rw [MigrationRunner.migrations, hdiscover]
    rfl
  rw [hmigrations] at hall
  obtain ⟨-, first, rest, rfl, -⟩ := discoverMigrations_eq_ok hdiscover
  have hledger : w.ledger.isSome = true := by
    have hfirst := hall first List.mem_cons_self
    rw [MigrationWorld.rows] at hfirst
    cases hnone : w.ledger with
    | some rows => rfl
    | none =>
      rw [hnone] at hfirst
      cases hfirst
  apply Returns.bind (P := fun _ w' => w' = w)
  · -- the ledger is there, so nothing is bootstrapped
    rintro (kind | present) w' ⟨hanswer, rfl⟩
    · exact ⟨rfl, rfl⟩
    · rcases hanswer with hpresent | ⟨kind, hraised⟩
      · rw [hledger] at hpresent
        rw [Except.ok.inj hpresent]
        exact ⟨rfl, rfl⟩
      · cases hraised
  · rintro bootstrapped w' rfl
    apply Returns.bind (P := fun applied w'' => w'' = w' ∧
      ∀ m ∈ first :: rest, recordedChecksum applied m.name ≠ none)
    · rintro (kind | rows) w'' ⟨hanswer, rfl⟩
      · exact ⟨rfl, rfl⟩
      · refine ⟨rfl, ?_⟩
        rcases hanswer with ⟨rows', hrows, hanswer⟩ | ⟨kind, hraised⟩
        · show Returns _ _ _ (ofExcept (rows.foldlM addApplied [])) _
          refine Returns.ofExcept (C := fun w' => w' = w'') rfl ?_
          intro applied happlied
          refine ⟨rfl, ?_⟩
          intro m hm
          have hmem : m.record ∈ rows := by
            rw [Except.ok.inj hanswer, mem_sortBy]
            have hrecorded := hall m hm
            rwa [MigrationWorld.rows, hrows] at hrecorded
          exact (foldlM_addApplied happlied).2 m.record (.inr hmem)
        · cases hraised
    · rintro applied w'' ⟨rfl, hnames⟩
      exact safe_applyFrom_complete hnames

/-- In every schedule of runs: what is recorded is a prefix of the numbered files, with their
checksums and with all their statements executed; a run that returned left everything recorded; and
from then on a run sends no command. -/
theorem migrations_crash_safe {s : MigrationRuns P} (hschedule : Schedule (runner.start P) s) :
    (∃ k, (∀ row, row ∈ s.world.rows ↔
        row ∈ (runner.migrations.take k).map fun m => (m.name, m.checksum)) ∧
      ∀ m ∈ runner.migrations.take k, ∃ statements,
        m.statements runner.database = .ok statements ∧ ∀ x ∈ statements, x ∈ s.world.executed) ∧
    runner.migrations.Pairwise (fun m m' => m.number < m'.number) ∧
    (∀ p outcomes, s.program p = .ret outcomes →
      ∀ m ∈ runner.migrations, (m.name, m.checksum) ∈ s.world.rows) ∧
    ((∀ m ∈ runner.migrations, (m.name, m.checksum) ∈ s.world.rows) →
      ∀ p' w', Reaches migrationEnv (runner.apply, s.world) (p', w') → w' = s.world) := by
  obtain ⟨hkeeps, hsound⟩ := Schedule.sound hschedule
  refine ⟨?_, ?_, ?_, ?_⟩
  · obtain ⟨k, hk⟩ := hsound.recorded_prefix
    refine ⟨k, hk, ?_⟩
    intro m hm
    have hrecorded : m.record ∈ s.world.rows := (hk _).mpr (List.mem_map.mpr ⟨m, hm, rfl⟩)
    obtain ⟨earlier, m', later, hsplit, hrow, -, hstatements⟩ := hsound.due _ hrecorded
    have hmem : m' ∈ runner.migrations := by
      rw [hsplit]
      simp
    rw [runner.found.eq_of_name (List.mem_of_mem_take hm) hmem (Prod.mk.inj hrow).1.symm]
    exact hstatements
  · exact runner.found.ordered
  · intro p outcomes hp m hm
    exact hsound.ledger p (hkeeps.returned hp m hm)
  · intro hall p' w' hreaches
    exact (safe_apply_complete hall).crash rfl hreaches

/-- One file that creates the ledger, and one with two statements. -/
def sampleRunner : MigrationRunner where
  database := "db"
  directory := "migrations"
  entries := some [⟨"001_pools.sql", true, "A;B".toUTF8⟩, ⟨"000_ledger.sql", true, "CREATE".toUTF8⟩]

def ledgerFile : Migration :=
  ⟨0, "000_ledger.sql", hexdigest (sha256 "CREATE".toUTF8.data.toList), "CREATE"⟩

def poolsFile : Migration :=
  ⟨1, "001_pools.sql", hexdigest (sha256 "A;B".toUTF8.data.toList), "A;B"⟩

theorem sampleRunner_apply : sampleRunner.apply =
    bootstrap "db" [ledgerFile, poolsFile] >>= fun bootstrapped => loadApplied >>= fun applied =>
      applyFrom "db" bootstrapped [ledgerFile, poolsFile] applied := rfl

/-- One operation, and its answer. -/
theorem reaches_answer {α : Type} {op : MigrationOp} (answer : MigrationAns op)
    {k : MigrationAns op → MigrationProgram α} {w w' : MigrationWorld} (h : migrationEnv op w answer w') :
    Reaches migrationEnv (.call op k, w) (k answer, w') :=
  .single (.call h)

theorem reaches_client (op : MigrationOp) (value : MigrationValue op) {w w' : MigrationWorld}
    (h : migrationEnv op w (.ok value) w') : Reaches migrationEnv (client op, w) (.ret value, w') :=
  reaches_answer (.ok value) h

section SampleRuns

variable {executed : List String} {commands : Nat}

theorem reaches_loadApplied : Reaches migrationEnv
    (loadApplied, ⟨some [ledgerFile.record], executed, commands⟩)
    (.ret [ledgerFile.record], ⟨some [ledgerFile.record], executed, commands⟩) := by
  have hrows : Reaches migrationEnv (client .loadLedger, ⟨some [ledgerFile.record], executed, commands⟩)
      (.ret [ledgerFile.record], ⟨some [ledgerFile.record], executed, commands⟩) :=
    reaches_client .loadLedger [ledgerFile.record] ⟨.inl ⟨_, rfl, rfl⟩, rfl⟩
  exact reaches_bind hrows

/-- The insert raises, and its row is found. -/
theorem reaches_recordMigration : Reaches migrationEnv (recordMigration ledgerFile, ⟨some [], executed, commands⟩)
    (.ret (), ⟨some [ledgerFile.record], executed, commands + 1⟩) := by
  have hsent : Reaches migrationEnv (recordMigration ledgerFile, ⟨some [], executed, commands⟩)
      (loadApplied >>= fun applied =>
        if recordedChecksum applied ledgerFile.name ≠ some ledgerFile.checksum then
          throw (.client "OperationalError") else pure (),
        ⟨some [ledgerFile.record], executed, commands + 1⟩) :=
    reaches_answer (.error "OperationalError") (.inl ⟨[], rfl, rfl⟩)
  have hback := hsent.trans (reaches_bind reaches_loadApplied)
  have hfound : recordedChecksum [ledgerFile.record] ledgerFile.name = some ledgerFile.checksum := rfl
  rwa [hfound, if_neg (not_not.mpr rfl)] at hback

theorem reaches_bootstrap : Reaches migrationEnv (bootstrap "db" [ledgerFile, poolsFile], ⟨none, [], 0⟩)
    (.ret ["000_ledger.sql"], ⟨some [ledgerFile.record], ["CREATE"], 2⟩) := by
  have habsent : Reaches migrationEnv (client .ledgerExists, ⟨none, [], 0⟩) (.ret false, ⟨none, [], 0⟩) :=
    reaches_client .ledgerExists false ⟨.inl rfl, rfl⟩
  have hcreated : Reaches migrationEnv (client (.command "CREATE"), ⟨none, [], 0⟩)
      (.ret (), ⟨some [], ["CREATE"], 1⟩) :=
    reaches_client (.command "CREATE") () ⟨.inr ⟨rfl, rfl⟩, rfl, rfl⟩
  have hexecuted : Reaches migrationEnv (execute "db" ledgerFile, ⟨none, [], 0⟩)
      (.ret (), ⟨some [], ["CREATE"], 1⟩) := reaches_bind hcreated
  exact (reaches_bind habsent).trans ((reaches_bind hexecuted).trans (reaches_bind reaches_recordMigration))

/-- A recorded file is passed over. -/
theorem applyFrom_sample (bootstrapped : List String) :
    applyFrom "db" bootstrapped [ledgerFile, poolsFile] [ledgerFile.record] =
      applyFrom "db" bootstrapped [poolsFile] [ledgerFile.record] >>= fun outcomes =>
        .ret (⟨ledgerFile.name, ledgerFile.checksum,
          if ledgerFile.name ∈ bootstrapped then .applied else .skipped⟩ :: outcomes) := by
  have hfound : recordedChecksum [ledgerFile.record] ledgerFile.name = some ledgerFile.checksum := rfl
  rw [applyFrom, hfound]
  exact if_neg (not_not.mpr rfl)

/-- A run with the first file in the ledger comes to the second one. -/
theorem reaches_apply {bootstrapped : List String} {w : MigrationWorld}
    {c : MigrationProgram (List MigrationOutcome) × MigrationWorld}
    (hbootstrap : Reaches migrationEnv (bootstrap "db" [ledgerFile, poolsFile], w)
      (.ret bootstrapped, ⟨some [ledgerFile.record], executed, commands⟩))
    (h : Reaches migrationEnv (applyFrom "db" bootstrapped [poolsFile] [ledgerFile.record] >>= fun outcomes =>
      .ret (⟨ledgerFile.name, ledgerFile.checksum,
        if ledgerFile.name ∈ bootstrapped then .applied else .skipped⟩ :: outcomes),
      ⟨some [ledgerFile.record], executed, commands⟩) c) :
    Reaches migrationEnv (sampleRunner.apply, w) c := by
  rw [sampleRunner_apply]
  refine (reaches_bind hbootstrap).trans ((reaches_bind reaches_loadApplied).trans ?_)
  rw [applyFrom_sample]
  exact h

theorem applyFrom_poolsFile (bootstrapped : List String) :
    applyFrom "db" bootstrapped [poolsFile] [ledgerFile.record] = client (.command "A") >>= fun _ =>
      client (.command "B") >>= fun _ => recordMigration poolsFile >>= fun _ =>
        .ret [⟨poolsFile.name, poolsFile.checksum, .applied⟩] := by
  have hstatements : poolsFile.statements "db" = .ok ["A", "B"] := rfl
  have hnew : recordedChecksum [ledgerFile.record] poolsFile.name = none := rfl
  rw [applyFrom, hnew]
  dsimp only
  rw [execute, hstatements]
  show (client (.command "A") >>= fun _ => client (.command "B") >>= fun _ => .ret PUnit.unit) >>= _ = _
  rw [bind_assoc]
  congr 1
  funext _
  rw [bind_assoc]
  rfl

/-- The first statement of the second file. -/
theorem reaches_poolsFile (bootstrapped executed : List String) (commands : Nat) : Reaches migrationEnv
    (applyFrom "db" bootstrapped [poolsFile] [ledgerFile.record],
      ⟨some [ledgerFile.record], executed, commands⟩)
    (client (.command "B") >>= fun _ => recordMigration poolsFile >>= fun _ =>
        .ret [⟨poolsFile.name, poolsFile.checksum, .applied⟩],
      ⟨some [ledgerFile.record], executed ++ ["A"], commands + 1⟩) := by
  have hfirst : Reaches migrationEnv (client (.command "A"), ⟨some [ledgerFile.record], executed, commands⟩)
      (.ret (), ⟨some [ledgerFile.record], executed ++ ["A"], commands + 1⟩) :=
    reaches_client (.command "A") () ⟨.inl rfl, rfl, rfl⟩
  rw [applyFrom_poolsFile]
  exact reaches_bind hfirst

end SampleRuns

/-- A run bootstraps the ledger, with an insert that raises, and is stopped within the second file; another
run executes that file from its start. -/
theorem migrations_crash_safe_sample : ∃ s : MigrationRuns Bool,
    Schedule (sampleRunner.start Bool) s ∧ s.world.executed = ["CREATE", "A", "A", "B"] ∧
    (∀ m ∈ sampleRunner.migrations, (m.name, m.checksum) ∈ s.world.rows) ∧
    ∀ p' w', Reaches migrationEnv (sampleRunner.apply, s.world) (p', w') → w' = s.world := by
  have hstopped : ∃ rest, Reaches migrationEnv (sampleRunner.apply, ⟨none, [], 0⟩)
      (rest, ⟨some [ledgerFile.record], ["CREATE", "A"], 3⟩) :=
    ⟨_, reaches_apply reaches_bootstrap (reaches_bind_left (reaches_poolsFile _ _ _))⟩
  have hfinished : ∃ outcomes, Reaches migrationEnv
      (sampleRunner.apply, ⟨some [ledgerFile.record], ["CREATE", "A"], 3⟩)
      (.ret outcomes, ⟨some [ledgerFile.record, poolsFile.record], ["CREATE", "A", "A", "B"], 6⟩) := by
    have hpresent : Reaches migrationEnv (bootstrap "db" [ledgerFile, poolsFile],
        ⟨some [ledgerFile.record], ["CREATE", "A"], 3⟩)
        (.ret [], ⟨some [ledgerFile.record], ["CREATE", "A"], 3⟩) :=
      reaches_bind (reaches_client .ledgerExists true ⟨.inl rfl, rfl⟩)
    have hsecond : Reaches migrationEnv (client (.command "B"),
        ⟨some [ledgerFile.record], ["CREATE", "A", "A"], 4⟩)
        (.ret (), ⟨some [ledgerFile.record], ["CREATE", "A", "A", "B"], 5⟩) :=
      reaches_client (.command "B") () ⟨.inl rfl, rfl, rfl⟩
    have hrecorded : Reaches migrationEnv (recordMigration poolsFile,
        ⟨some [ledgerFile.record], ["CREATE", "A", "A", "B"], 5⟩)
        (.ret (), ⟨some [ledgerFile.record, poolsFile.record], ["CREATE", "A", "A", "B"], 6⟩) :=
      reaches_answer (.ok ()) ⟨_, rfl, rfl⟩
    exact ⟨_, reaches_apply hpresent (reaches_bind ((reaches_poolsFile _ _ _).trans
      ((reaches_bind hsecond).trans (reaches_bind hrecorded))))⟩
  obtain ⟨rest, hstopped⟩ := hstopped
  obtain ⟨outcomes, hfinished⟩ := hfinished
  obtain ⟨s₁, hfirst, -, hworld₁, hothers⟩ : ∃ s, Schedule (sampleRunner.start Bool) s ∧
      s.program false = rest ∧ s.world = ⟨some [ledgerFile.record], ["CREATE", "A"], 3⟩ ∧
      ∀ q, q ≠ false → s.program q = (sampleRunner.start Bool).program q :=
    Parties.run_of_reaches (fun _ _ => trivial) false hstopped
  -- The other process has not moved, so it starts in the world that the first left.
  have hwaiting : s₁.program true = sampleRunner.apply := hothers true (by decide)
  rw [← hworld₁, ← hwaiting] at hfinished
  obtain ⟨s, hsecond, hprogram, hworld, -⟩ : ∃ s, Schedule s₁ s ∧ s.program true = .ret outcomes ∧
      s.world = ⟨some [ledgerFile.record, poolsFile.record], ["CREATE", "A", "A", "B"], 6⟩ ∧
      ∀ q, q ≠ true → s.program q = s₁.program q :=
    Parties.run_of_reaches (fun _ _ => trivial) true hfinished
  have hschedule : Schedule (sampleRunner.start Bool) s := hfirst.trans hsecond
  obtain ⟨-, -, hrecorded, hidle⟩ := migrations_crash_safe hschedule
  have hall := hrecorded true outcomes hprogram
  exact ⟨s, hschedule, by rw [hworld], hall, hidle hall⟩

end MigrationRunner

end RpcStateIndexer
