/-
Migration scripts and their versions.

Every script is a file that is built into the program, in the directory of its minor
version and with its patch number in front of its name.  Which of them a database needs is
decided by comparing versions; the comparison itself is that of a library and is a
parameter.  The order in which they are applied is that of their paths.
-/
import Memos.Api.ContentModeration
import Mathlib.Data.Char
import Mathlib.Data.List.Lex
import Mathlib.Data.List.Sort
import Memos.Lib.Durable

namespace Memos.Store

abbrev Text := List Char

/-- A path `migration/<driver>/<directory>/<name>`, as `fs.Glob` finds it. -/
structure MigrationFile where
  directory : Text
  name : Text
  plain : '/' ∉ directory ∧ '/' ∉ name := by decide
  sql : ".sql".toList <:+ name := by decide
deriving DecidableEq

def MigrationFile.path (file : MigrationFile) : Text := file.directory ++ '/' :: file.name

def LatestSchemaFileName : Text := "LATEST.sql".toList

def defaultSchemaVersion : Text := "0.0.0".toList

/-! ### Numbers in names -/

def numeral (digits : Text) : Nat := Nat.ofDigitChars 10 digits 0

/-- `strconv.Atoi`: a number of 64 bits, with or without a sign. -/
def Atoi (text : Text) : Option Int :=
  let (negative, digits) := match text with
    | '-' :: digits => (true, digits)
    | '+' :: digits => (false, digits)
    | digits => (false, digits)
  if digits = [] || !digits.all Char.isDigit then none
  else
    let n := numeral digits
    if negative then if n ≤ 9223372036854775808 then some (-n) else none
    else if n < 9223372036854775808 then some n else none

def decimal : Int → Text
  | .ofNat n => Nat.toDigits 10 n
  | .negSucc n => '-' :: Nat.toDigits 10 (n + 1)

/-- `strings.SplitN(name, "__", 2)`: what is before the first mark, and what is behind it. -/
def splitFileName : Text → Text × Option Text
  | '_' :: '_' :: rest => ([], some rest)
  | c :: rest => let (before, after) := splitFileName rest; (c :: before, after)
  | [] => ([], none)

/-! ### Versions -/

structure MigrationFiles where
  compare : Text → Text → Int
  files : List MigrationFile
  distinct : files.Nodup

namespace MigrationFiles

variable (m : MigrationFiles)

def IsVersionGreaterThan (version target : Text) : Bool :=
  0 < m.compare ('v' :: version) ('v' :: target)

def IsVersionGreaterOrEqualThan (version target : Text) : Bool :=
  -1 < m.compare ('v' :: version) ('v' :: target)

/-- A script's version, given what the version of the latest schema would be. -/
def getSchemaVersionOfMigrateScript (latest : Except String Text) (file : MigrationFile) :
    Except String Text :=
  if LatestSchemaFileName.isSuffixOf file.name then latest
  else
    match Atoi (splitFileName file.name).1 with
    | none => .error ("failed to convert patch version to int: " ++
        String.ofList (splitFileName file.name).1)
    | some patchVersion =>
        .ok (file.directory ++ '.' :: decimal ((patchVersion + 1).bmod 18446744073709551616))

/-- `GetCurrentSchemaVersion` on a stack of limited depth: it is called again for a script
that has the name of the latest schema. -/
def currentSchemaVersionWithin : Nat → Except String Text
  | 0 => .error "stack overflow"
  | depth + 1 =>
      m.files.foldlM (fun current file => do
        let version ← getSchemaVersionOfMigrateScript (currentSchemaVersionWithin depth) file
        return if m.IsVersionGreaterThan version current then version else current)
        defaultSchemaVersion

def GetCurrentSchemaVersion : Except String Text := m.currentSchemaVersionWithin 2

def schemaVersionOf (file : MigrationFile) : Except String Text :=
  getSchemaVersionOfMigrateScript m.GetCurrentSchemaVersion file

end MigrationFiles

def getSchemaVersionOrDefault (schemaVersion : Text) : Text :=
  if schemaVersion = [] then defaultSchemaVersion else schemaVersion

def isVersionEmpty (schemaVersion : Text) : Bool :=
  schemaVersion = [] || schemaVersion = defaultSchemaVersion

namespace MigrationFiles

variable (m : MigrationFiles)

def shouldApplyMigration (fileVersion currentDBVersion targetVersion : Text) : Bool :=
  m.IsVersionGreaterThan fileVersion (getSchemaVersionOrDefault currentDBVersion)
    && m.IsVersionGreaterOrEqualThan targetVersion fileVersion

/-! ### Which scripts are applied -/

def sortedFiles : List MigrationFile :=
  m.files.insertionSort fun f g => f.path ≤ g.path

def isSpaceAvatar (file : MigrationFile) : Bool :=
  file.directory = "0.33".toList && file.name = "00__space_avatar.sql".toList

/-- The loop of `applyMigrations`: the scripts that are executed, and a version that cannot
be read where it is come upon. -/
def migrationsBetween (spaceAvatarExists : Bool) (currentSchemaVersion targetSchemaVersion : Text) :
    List (Except String MigrationFile) :=
  m.sortedFiles.filterMap fun file =>
    match m.schemaVersionOf file with
    | .error e => some (.error ("failed to get schema version of migrate script: " ++ e))
    | .ok fileSchemaVersion =>
        if m.shouldApplyMigration fileSchemaVersion currentSchemaVersion targetSchemaVersion then
          if spaceAvatarExists && isSpaceAvatar file then none else some (.ok file)
        else none

def overlappingMigrations (spaceExists viewCountExists : Bool) (schemaVersion : Text) :
    List (Except String MigrationFile) :=
  let spaces := if spaceExists then [] else
    (m.sortedFiles.filter fun file => file.directory = "0.31".toList).filterMap fun file =>
      match m.schemaVersionOf file with
      | .error e => some (.error ("failed to read compatibility migration version: " ++ e))
      | .ok fileVersion =>
          if m.IsVersionGreaterThan fileVersion "0.31.2".toList then some (.ok file) else none
  -- The scripts for spaces make the table of memos anew, without the customized columns.
  let viewCountExists := spaceExists && viewCountExists
  let viewCount :=
    if !viewCountExists && m.IsVersionGreaterOrEqualThan schemaVersion "0.32.5".toList then
      match m.files.find? fun file =>
        file.directory = "0.32".toList && file.name = "04__memo_view_count.sql".toList with
      | some file => [.ok file]
      | none => [.error "failed to read customized memo schema repair migration"]
    else []
  spaces ++ viewCount

end MigrationFiles

end Memos.Store

/-
The migration of a database.

A new database gets the latest schema at once.  An older one gets the scripts it has not
had, all in one transaction, and then the new version is recorded; some databases of a
customized version are repaired before that.  After it come the scripts of the fork, each
of which is recorded in a table when it is done.

The process may be stopped between any two writes, and `Migrate` is run again when it is
started the next time.  A transaction is one write.  What the scripts do to the schema
belongs to them, so the schema and what a script makes of it are parameters.
-/

namespace Memos.Store

open Durable Api

inductive Driver where
  | sqlite
  | mysql
  | postgres
deriving DecidableEq

/-- A script that the version table knows of. -/
inductive MigrationScript where
  | latest
  | file (file : MigrationFile)
deriving DecidableEq

inductive InstanceAccessMode where
  | PRIVATE
  | PUBLIC
deriving DecidableEq

structure MigratedDatabase (σ : Type) where
  schema : σ
  /-- Of the basic setting; empty where there is none. -/
  schemaVersion : Text
  ledger : Option (List Text)
  seeded : Bool
  access : Option InstanceAccessMode
  /-- The scripts that have been executed; no code reads it. -/
  executed : List MigrationScript
deriving DecidableEq

/-- The files, what they do to a schema, and what can be asked of a schema. -/
structure Migrator (σ : Type) extends MigrationFiles where
  driver : Driver
  data : Text
  instanceURL : Text
  execute : MigrationScript → σ → Except String σ
  /-- The names of the scripts of the fork, in order. -/
  plusFiles : List Text
  plusContent : Text → Text
  executePlus : Text → σ → Except String σ
  isInitialized : σ → Bool
  tableExists : σ → String → Bool
  columnExists : σ → String → String → Bool
  plusColumnExists : σ → Text → Text → Bool
  plusIndexExists : σ → Text → Bool

inductive Write where
  /-- The commit of the latest schema, of a repair and of the scripts. -/
  | latest
  | repair
  | scripts
  | version
  /-- The table of the scripts of the fork, and a row in it. -/
  | ledger (fresh : Bool)
  | applied (fresh : Bool) (name : Text)
  | statement (name : Text)
  | seed
  | access
deriving DecidableEq

abbrev Migration (σ : Type) := Process Write (MigratedDatabase σ) String

namespace Migrator

variable {σ : Type} (m : Migrator σ)

def executeScript (db : MigratedDatabase σ) (script : MigrationScript) : Except String (MigratedDatabase σ) :=
  match m.execute script db.schema with
  | .ok schema => .ok { db with schema, executed := db.executed ++ [script] }
  | .error e => .error e

def executeAll (scripts : List (Except String MigrationFile)) (db : MigratedDatabase σ) :
    Except String (MigratedDatabase σ) :=
  scripts.foldlM (fun db script => script.bind fun file => m.executeScript db (.file file)) db

/-! ### Before the migration -/

/-- Nothing to migrate, or no data directory to write a copy of the database to. -/
def backupBeforeMigration : Migration σ Unit :=
  Process.check fun db =>
    if !m.isInitialized db.schema then .ok ()
    else
      match m.GetCurrentSchemaVersion with
      | .error e => .error e
      | .ok latest =>
          if (db.ledger.any fun rows => rows.length = m.plusFiles.length)
              && db.schemaVersion = latest then .ok ()
          else if m.driver ≠ .sqlite then .ok ()
          else if m.data = [] then .error "SQLite migration backup requires a data directory"
          else .ok ()

def updateCurrentSchemaVersion (schemaVersion : Text) : Migration σ Unit :=
  Process.write .version fun db => .ok { db with schemaVersion }

def recordPlus (fresh : Bool) (name : Text) : Migration σ Unit :=
  Process.write (.applied fresh name) fun db =>
    match db.ledger with
    | none => .error "no such table: memos_plus_migration"
    | some rows =>
        if name ∈ rows then .error "UNIQUE constraint failed: memos_plus_migration.version"
        else .ok { db with ledger := some (rows ++ [name]) }

def initPlusLedger (fresh : Bool) : Migration σ Unit := do
  Process.write (.ledger fresh) fun db => .ok { db with ledger := some (db.ledger.getD []) }
  Process.onlyIf fresh (Process.forEach m.plusFiles (recordPlus fresh))

def tooOld (schemaVersion currentVersion : Text) : String :=
  "Your Memos installation is too old to upgrade directly.\n\nYour current version: "
    ++ String.ofList schemaVersion ++ "\nTarget version: " ++ String.ofList currentVersion
    ++ "\nMinimum required: v0.22.0 (May 2024)"

def checkMinimumUpgradeVersion : Migration σ Unit :=
  Process.check fun db =>
    if !isVersionEmpty db.schemaVersion
        && m.IsVersionGreaterOrEqualThan db.schemaVersion "0.22.0".toList then .ok ()
    else if isVersionEmpty db.schemaVersion && !m.isInitialized db.schema then .ok ()
    else .error (tooOld db.schemaVersion (m.GetCurrentSchemaVersion.toOption.getD []))

def preMigrate : Migration σ Unit := do
  let initialized ← Process.check fun db => .ok (m.isInitialized db.schema)
  Process.onlyIf (!initialized) do
    Process.write .latest fun db => m.executeScript db .latest
    m.initPlusLedger true
    let schemaVersion ← Process.check fun _ => m.GetCurrentSchemaVersion
    updateCurrentSchemaVersion schemaVersion
  m.checkMinimumUpgradeVersion

/-! ### The scripts -/

def repairs (schema : σ) (schemaVersion : Text) : List (Except String MigrationFile) :=
  m.overlappingMigrations (m.tableExists schema "space") (m.columnExists schema "memo" "view_count")
    schemaVersion

/-- The customized versions that may lack a script of an earlier version. -/
def mayOverlap (schemaVersion : Text) : Bool :=
  m.IsVersionGreaterOrEqualThan schemaVersion "0.32.1".toList
    && !m.IsVersionGreaterThan schemaVersion "0.32.5".toList

def applyOverlappingV031Migrations (schemaVersion : Text) : Migration σ Unit :=
  Process.onlyIf (m.mayOverlap schemaVersion) do
    let complete ← Process.check fun db =>
      .ok (m.tableExists db.schema "space" && m.columnExists db.schema "memo" "view_count")
    Process.onlyIf (!complete)
      (Process.write .repair fun db => m.executeAll (m.repairs db.schema schemaVersion) db)

def pending (schema : σ) (currentSchemaVersion targetSchemaVersion : Text) :
    List (Except String MigrationFile) :=
  m.migrationsBetween (m.columnExists schema "space" "avatar_url") currentSchemaVersion
    targetSchemaVersion

def applyMigrations (currentSchemaVersion targetSchemaVersion : Text) : Migration σ Unit := do
  Process.write .scripts fun db =>
    m.executeAll (m.pending db.schema currentSchemaVersion targetSchemaVersion) db
  updateCurrentSchemaVersion targetSchemaVersion

/-! ### The scripts of the fork -/

/-- The statements of a script, which are what stands between semicolons. -/
def plusStatements (name : Text) : List Text :=
  (((m.plusContent name).splitOn ';').map trimSpace).filter fun statement => !statement.isEmpty

def isPresent (schema : σ) (statement : Text) : Bool :=
  match fieldsFunc isSpace statement with
  | alter :: table :: name :: add :: column :: columnName :: _ :: _ =>
      (alter = "ALTER".toList && table = "TABLE".toList && add = "ADD".toList
          && column = "COLUMN".toList && m.plusColumnExists schema name columnName)
        || (alter = "CREATE".toList && table = "INDEX".toList && m.plusIndexExists schema name)
  | create :: index :: name :: _ :: _ =>
      create = "CREATE".toList && index = "INDEX".toList && m.plusIndexExists schema name
  | _ => false

def runPlus (schema : σ) (statement : Text) : Except String σ :=
  if m.isPresent schema statement then .ok schema else m.executePlus statement schema

def executePlusStatement (name statement : Text) : Migration σ Unit :=
  Process.write (.statement name) fun db =>
    match m.runPlus db.schema statement with
    | .ok schema => .ok { db with schema }
    | .error e => .error ("Plus migration " ++ String.ofList name ++ " failed: " ++ e)

def initializeDailyQuestionSeed : Migration σ Unit :=
  Process.write .seed fun db => .ok { db with seeded := true }

def applyPlusFile (name : Text) : Migration σ Unit := do
  let done ← Process.check fun db : MigratedDatabase σ => .ok (db.ledger.any fun rows => name ∈ rows)
  Process.onlyIf (!done) do
    Process.forEach (m.plusStatements name) (m.executePlusStatement name)
    Process.onlyIf (name = "0004__daily_question.sql".toList) initializeDailyQuestionSeed
    recordPlus false name

def applyPlusMigrations : Migration σ Unit := do
  m.initPlusLedger false
  Process.forEach m.plusFiles m.applyPlusFile

/-! ### All of it -/

def initializeInstanceAccessSetting : Migration σ Unit :=
  Process.write .access fun db =>
    .ok { db with access := some (db.access.getD (if trimSpace m.instanceURL = [] then .PRIVATE else .PUBLIC)) }

/-- Outside demo mode, which fills the database with examples afterwards. -/
def Migrate : Migration σ Unit := do
  m.backupBeforeMigration
  m.preMigrate.mapError ("failed to pre-migrate: " ++ ·)
  let schemaVersion ← Process.check fun db : MigratedDatabase σ => .ok db.schemaVersion
  let currentSchemaVersion ← Process.check fun _ => m.GetCurrentSchemaVersion
  (m.applyOverlappingV031Migrations schemaVersion).mapError
    ("failed to apply customized v0.32 compatibility migrations: " ++ ·)
  Process.check fun _ =>
    if !isVersionEmpty schemaVersion && m.IsVersionGreaterThan schemaVersion currentSchemaVersion then
      .error ("cannot downgrade schema version from " ++ String.ofList schemaVersion ++ " to "
        ++ String.ofList currentSchemaVersion)
    else .ok ()
  Process.onlyIf (isVersionEmpty schemaVersion
      || m.IsVersionGreaterThan currentSchemaVersion schemaVersion)
    ((m.applyMigrations schemaVersion currentSchemaVersion).mapError
      ("failed to apply migrations: " ++ ·))
  m.applyPlusMigrations.mapError ("failed to migrate Memos Plus: " ++ ·)
  initializeDailyQuestionSeed
  m.initializeInstanceAccessSetting

end Migrator

end Memos.Store
