import RpcStateIndexer.Evm.Bytes
import RpcStateIndexer.Reasoning.Program
import RpcStateIndexer.Reasoning.Sha256
import RpcStateIndexer.Reasoning.Sorting

/-!
# The migration runner

Numbered SQL files are executed in order, statement by statement, and recorded in a ledger with
their checksums.  The ledger is created by the first file itself.  A recorded file must not change.
-/

namespace RpcStateIndexer

open Reasoning Program

inductive MigrationException where
  | migrationError (message : String)
  | checksumError (message : String)
  /-- what the client raised, by the name of its class -/
  | client (kind : String)
  deriving DecidableEq

/-! ## The directory -/

structure DirectoryEntry where
  name : String
  isFile : Bool
  raw : ByteArray

structure Migration where
  number : Nat
  name : String
  checksum : String
  sql : String
  deriving DecidableEq

/-- `path.suffix == ".sql"` -/
def hasSqlSuffix (name : String) : Bool :=
  4 < name.toList.length && name.toList.drop (name.toList.length - 4) = ".sql".toList

def isMigrationNameChar (c : Char) : Bool := c.isLower || c.isDigit || c = '_'

def digitsValue (a b c : Char) : Nat :=
  100 * (a.toNat - '0'.toNat) + 10 * (b.toNat - '0'.toNat) + (c.toNat - '0'.toNat)

/-- The number that a file name matching `_MIGRATION_RE` starts with. -/
def migrationNumber (name : String) : Option Nat :=
  match name.toList with
  | a :: b :: c :: underscore :: rest =>
    let body := rest.take (rest.length - 4)
    if a.isDigit && b.isDigit && c.isDigit && underscore = '_' &&
        rest.drop (rest.length - 4) = ".sql".toList && body ≠ [] && body.all isMigrationNameChar then
      some (digitsValue a b c)
    else none
  | _ => none

/-- `{number:03d}` -/
def paddedNumber (number : Nat) : String :=
  String.ofList (List.replicate (3 - (toString number).length) '0') ++ toString number

def discoverEntry (found : List Migration) (entry : DirectoryEntry) :
    Except MigrationException (List Migration) :=
  if !entry.isFile || !hasSqlSuffix entry.name then .ok found
  else match migrationNumber entry.name with
    | none => .error (.migrationError
        s!"migration filename must match NNN_lowercase_name.sql: {entry.name}")
    | some number =>
      match found.find? fun m => m.number = number with
      | some m => .error (.migrationError
          s!"duplicate migration number {paddedNumber number}: {m.name} and {entry.name}")
      | none =>
        match String.fromUTF8? entry.raw with
        | none => .error (.migrationError s!"migration is not UTF-8: {entry.name}")
        | some sql => .ok (found ++
            [⟨number, entry.name, hexdigest (sha256 entry.raw.data.toList), sql⟩])

/-- `discover_migrations`; `none` is a directory that does not exist. -/
def discoverMigrations (directory : String) (entries : Option (List DirectoryEntry)) :
    Except MigrationException (List Migration) :=
  match entries with
  | none => .error (.migrationError s!"migration directory does not exist: {directory}")
  | some entries => do
    let migrations ← (sortBy DirectoryEntry.name entries).foldlM discoverEntry []
    match migrations with
    | [] => .error (.migrationError s!"no SQL migrations found in {directory}")
    | first :: _ =>
      if first.number ≠ 0 then .error (.migrationError "the first migration must be numbered 000")
      else .ok migrations

/-! ## Statements -/

/-- `validate_database_name` -/
def validateDatabaseName (database : String) : Except MigrationException String :=
  match database.toList with
  | first :: rest =>
    if (first.isAlpha || first = '_') && rest.all fun c => c.isAlphanum || c = '_' then .ok database
    else .error (.migrationError s!"invalid ClickHouse database identifier: '{database}'")
  | [] => .error (.migrationError s!"invalid ClickHouse database identifier: '{database}'")

/-- `str.replace`: `skip` characters of the last occurrence are still to be passed over. -/
def replaceText (old new : List Char) : Nat → List Char → List Char
  | _, [] => []
  | skip + 1, _ :: rest => replaceText old new skip rest
  | 0, c :: rest =>
    if old.isPrefixOf (c :: rest) then new ++ replaceText old new (old.length - 1) rest
    else c :: replaceText old new 0 rest

def occursIn (text l : List Char) : Bool := l.tails.any text.isPrefixOf

def renderMigration (sql database : String) : Except MigrationException String := do
  let database ← validateDatabaseName database
  let rendered := replaceText "\x7b\x7bdatabase\x7d\x7d".toList database.toList 0 sql.toList
  if occursIn "\x7b\x7b".toList rendered || occursIn "\x7d\x7d".toList rendered then
    .error (.migrationError "unknown or malformed template placeholder in migration")
  else .ok (String.ofList rendered)

inductive SqlMode where
  | plain
  | lineComment
  | blockComment
  | quoted (quote : Char)
  deriving DecidableEq

/-- The buffered statement, unless it is blank. -/
def flush (statements : List String) (buffer : List Char) : List String :=
  if strip buffer = [] then statements else statements ++ [String.ofList (strip buffer)]

/-- One pass over the characters; `following` is looked at but consumed only where a pair counts as
one. -/
def scanSql : SqlMode → List Char → List String → List Char →
    Except MigrationException (List String)
  | .quoted _, _, _, [] => .error (.migrationError "unterminated quoted string in migration")
  | .blockComment, _, _, [] => .error (.migrationError "unterminated block comment in migration")
  | .plain, buffer, statements, [] => .ok (flush statements buffer)
  | .lineComment, buffer, statements, [] => .ok (flush statements buffer)
  | .lineComment, buffer, statements, char :: rest =>
    if char = '\n' then scanSql .plain (buffer ++ ['\n']) statements rest
    else scanSql .lineComment buffer statements rest
  | .blockComment, buffer, statements, [_] => scanSql .blockComment buffer statements []
  | .blockComment, buffer, statements, char :: following :: rest =>
    if char = '*' ∧ following = '/' then scanSql .plain buffer statements rest
    else scanSql .blockComment buffer statements (following :: rest)
  | .quoted quote, buffer, statements, [char] =>
    scanSql (if char = quote then .plain else .quoted quote) (buffer ++ [char]) statements []
  | .quoted quote, buffer, statements, char :: following :: rest =>
    -- an escaped character, or a doubled quote
    if char = '\x5c' ∨ char = quote ∧ following = quote then
      scanSql (.quoted quote) (buffer ++ [char, following]) statements rest
    else scanSql (if char = quote then .plain else .quoted quote) (buffer ++ [char]) statements
      (following :: rest)
  | .plain, buffer, statements, [char] =>
    if char = '\x27' ∨ char = '\x22' ∨ char = '\x60' then
      scanSql (.quoted char) (buffer ++ [char]) statements []
    else if char = ';' then scanSql .plain [] (flush statements buffer) []
    else scanSql .plain (buffer ++ [char]) statements []
  | .plain, buffer, statements, char :: following :: rest =>
    if char = '-' ∧ following = '-' then scanSql .lineComment buffer statements rest
    else if char = '/' ∧ following = '*' then scanSql .blockComment buffer statements rest
    else if char = '\x27' ∨ char = '\x22' ∨ char = '\x60' then
      scanSql (.quoted char) (buffer ++ [char]) statements (following :: rest)
    else if char = ';' then scanSql .plain [] (flush statements buffer) (following :: rest)
    else scanSql .plain (buffer ++ [char]) statements (following :: rest)

def splitSqlStatements (sql : String) : Except MigrationException (List String) :=
  scanSql .plain [] [] sql.toList

/-- The statements that `_execute` sends. -/
def Migration.statements (m : Migration) (database : String) :
    Except MigrationException (List String) := do
  let rendered ← renderMigration m.sql database
  let statements ← splitSqlStatements rendered
  if statements = [] then .error (.migrationError s!"migration contains no statements: {m.name}")
  else .ok statements

/-- The row of a migration in the ledger. -/
def Migration.record (m : Migration) : String × String := (m.name, m.checksum)

/-! ## The runner -/

/-- What the runner asks of its client: two queries of the ledger, a statement of a migration, and
an insert into the ledger. -/
inductive MigrationOp where
  | ledgerExists
  | loadLedger
  | command (statement : String)
  | insertLedger (name checksum : String)

abbrev MigrationValue : MigrationOp → Type
  | .ledgerExists => Bool
  | .loadLedger => List (String × String)
  | .command _ => Unit
  | .insertLedger _ _ => Unit

/-- The name of an exception's class stands for the exception. -/
abbrev MigrationAns (op : MigrationOp) : Type := Except String (MigrationValue op)

abbrev MigrationProgram := Program MigrationOp MigrationAns MigrationException

inductive OutcomeStatus where
  | applied
  | skipped
  deriving DecidableEq

structure MigrationOutcome where
  name : String
  checksum : String
  status : OutcomeStatus
  deriving DecidableEq

structure MigrationRunner where
  database : String
  directory : String
  entries : Option (List DirectoryEntry)

namespace MigrationRunner

/-- What the client raised is raised. -/
def client (op : MigrationOp) : MigrationProgram (MigrationValue op) :=
  .call op fun
    | .ok value => .ret value
    | .error kind => .raise (.client kind)

def recordedChecksum (applied : List (String × String)) (name : String) : Option String :=
  (applied.find? fun row => row.1 = name).map Prod.snd

/-- The items of the dictionary that `_load_applied` builds. -/
def addApplied (applied : List (String × String)) (row : String × String) :
    Except MigrationException (List (String × String)) :=
  match recordedChecksum applied row.1 with
  | some existing =>
    if existing ≠ row.2 then
      .error (.checksumError s!"migration ledger has conflicting checksums for {row.1}")
    else .ok applied
  | none => .ok (applied ++ [row])

def loadApplied : MigrationProgram (List (String × String)) := do
  let rows ← client .loadLedger
  ofExcept (rows.foldlM addApplied [])

def execute (database : String) (m : Migration) : MigrationProgram Unit := do
  let statements ← ofExcept (m.statements database)
  statements.forM fun statement => client (.command statement)

/-- `_record`; an insert that raised counts when its row can be read back. -/
def recordMigration (m : Migration) : MigrationProgram Unit :=
  .call (.insertLedger m.name m.checksum) fun
    | .ok () => .ret ()
    | .error kind => do
      let applied ← loadApplied
      if recordedChecksum applied m.name ≠ some m.checksum then throw (.client kind)

/-- The loop of `apply`. -/
def applyFrom (database : String) (bootstrapped : List String) :
    List Migration → List (String × String) → MigrationProgram (List MigrationOutcome)
  | [], _ => return []
  | m :: rest, applied =>
    match recordedChecksum applied m.name with
    | some recorded =>
      if recorded ≠ m.checksum then
        throw (.checksumError (s!"applied migration changed: {m.name}; " ++
          s!"database={recorded}, file={m.checksum}"))
      else do
        let outcomes ← applyFrom database bootstrapped rest applied
        return ⟨m.name, m.checksum, if m.name ∈ bootstrapped then .applied else .skipped⟩ ::
          outcomes
    | none => do
      execute database m
      recordMigration m
      let outcomes ← applyFrom database bootstrapped rest (applied ++ [m.record])
      return ⟨m.name, m.checksum, .applied⟩ :: outcomes

/-- The first migration creates the ledger in which it is recorded. -/
def bootstrap (database : String) (migrations : List Migration) : MigrationProgram (List String) := do
  let present ← client .ledgerExists
  match present, migrations with
  | true, _ => return []
  | false, [] => return []
  | false, first :: _ =>
    execute database first
    recordMigration first
    return [first.name]

def apply (runner : MigrationRunner) : MigrationProgram (List MigrationOutcome) := do
  let migrations ← ofExcept (discoverMigrations runner.directory runner.entries)
  let bootstrapped ← bootstrap runner.database migrations
  let applied ← loadApplied
  applyFrom runner.database bootstrapped migrations applied

end MigrationRunner

example : splitSqlStatements "A 'x;''y' -- no; comment\n; /* ; */ B" =
    .ok ["A 'x;''y'", "B"] := by decide

end RpcStateIndexer
