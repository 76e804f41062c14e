import Mediaops.Library.Sql

namespace Mediaops.LocalStore

-- The local store's schema and its migration.

def SCHEMA_VERSION : Int := 7

inductive TableName where
  | Probes
  | TitleIndex
  | TitleIndexV7
  | Jobs
  | Machine
  | HoldsDecisions
  deriving DecidableEq, Repr

inductive ColumnName where
  | EndpointFingerprint
  | RangeConcurrency
  | Id
  | TitleId
  | Path
  | InstallB3
  | CurrentB3
  | Kind
  | State
  | ParentJobId
  | Key
  | Value
  | ReleaseId
  | Decision
  deriving DecidableEq, Repr

inductive IndexName where
  | TitleIndexPath
  | TitleIndexTitleId
  deriving DecidableEq, Repr

abbrev Db := Sql.Db TableName ColumnName IndexName

abbrev Table := Sql.Table ColumnName

abbrev Statement := Sql.Statement TableName ColumnName IndexName

inductive StoreError where
  | Sqlite (e : Sql.Error TableName ColumnName IndexName)
  | Message (text : Text)
  deriving DecidableEq, Repr

abbrev Session := Sql.Session Db StoreError

def sqlite {α : Type} : Except (Sql.Error TableName ColumnName IndexName) α → Except StoreError α
  | .ok a => .ok a
  | .error e => .error (.Sqlite e)

def executeBatch (statements : List Statement) : Session Unit :=
  Sql.executeBatch (fun db statement => sqlite (Sql.exec db statement)) statements

def PROBES : Sql.Definition ColumnName where
  columns := [.EndpointFingerprint, .RangeConcurrency]
  primaryKey := [.EndpointFingerprint]

def TITLE_INDEX : Sql.Definition ColumnName where
  columns := [.TitleId, .InstallB3, .CurrentB3]
  primaryKey := [.TitleId]

def JOBS_DDL : Sql.Definition ColumnName where
  columns := [.Id, .TitleId, .Kind, .State, .ParentJobId]
  nullable := [.ParentJobId]
  primaryKey := [.Id]
  rowid := some .Id

def MACHINE : Sql.Definition ColumnName where
  columns := [.Key, .Value]
  primaryKey := [.Key]

def HOLDS_DECISIONS : Sql.Definition ColumnName where
  columns := [.TitleId, .ReleaseId, .Decision]
  primaryKey := [.TitleId, .ReleaseId]

def TITLE_INDEX_V7 : Sql.Definition ColumnName where
  columns := [.Id, .Path, .TitleId, .InstallB3, .CurrentB3]
  primaryKey := [.Id]
  rowid := some .Id

def titleIndexPath : Sql.Index TableName ColumnName IndexName where
  name := .TitleIndexPath
  table := .TitleIndex
  column := .Path
  unique := true
  leftOut := some (.Text [])

def titleIndexTitleId : Sql.Index TableName ColumnName IndexName where
  name := .TitleIndexTitleId
  table := .TitleIndex
  column := .TitleId

def userVersion : Session Int := Sql.Session.read fun db => .ok db.userVersion

def titleIndexHasPath : Session Bool :=
  Sql.Session.read fun db => .ok (decide (ColumnName.Path ∈ db.tableInfo .TitleIndex))

def jobsHasTitleId : Session Bool :=
  Sql.Session.read fun db => .ok (decide (ColumnName.TitleId ∈ db.tableInfo .Jobs))

def countJobs : Session Nat :=
  Sql.Session.read fun db => sqlite ((db.table .Jobs).map fun table => table.rows.length)

def ensureTitleIndexPath : Session Unit := do
  if ← titleIndexHasPath then
    return
  executeBatch [.AddColumn .TitleIndex .Path (.Text [])]

def ensureJobsTitleId : Session Unit := do
  if ← jobsHasTitleId then
    return
  let n ← countJobs
  if n > 0 then
    Sql.Session.fail (.Message "cannot migrate jobs rows that have no title_id")
  else
    executeBatch [.DropTable .Jobs, .CreateTable .Jobs JOBS_DDL]

-- The blocks of `migrate`, each under its `if version < n`.
def createProbes : Session Unit :=
  executeBatch [.CreateTable .Probes PROBES, .SetUserVersion 1]

def createTitleIndexAndJobs : Session Unit :=
  executeBatch [.CreateTable .TitleIndex TITLE_INDEX, .CreateTable .Jobs JOBS_DDL,
    .SetUserVersion 2]

def titleJobs : Session Unit := do
  ensureJobsTitleId
  executeBatch [.SetUserVersion 3]

def createMachine : Session Unit :=
  executeBatch [.CreateTable .Machine MACHINE, .SetUserVersion 4]

def pathTitleIndex : Session Unit := do
  ensureTitleIndexPath
  executeBatch [.SetUserVersion 5]

def createHoldsDecisions : Session Unit :=
  executeBatch [.CreateTable .HoldsDecisions HOLDS_DECISIONS, .SetUserVersion 6]

-- One row for each file: a show or an album is many rows of one title. Rows
-- with an empty path survive, the unique index leaves them out.
def rekeyTitleIndex : Session Unit :=
  executeBatch [
    .CreateTable .TitleIndexV7 TITLE_INDEX_V7,
    .InsertSelect .TitleIndexV7 [.Path, .TitleId, .InstallB3, .CurrentB3] .TitleIndex,
    .DropTable .TitleIndex,
    .RenameTable .TitleIndexV7 .TitleIndex,
    .CreateIndex titleIndexPath,
    .CreateIndex titleIndexTitleId,
    .SetUserVersion 7]

def migrate : Session Unit := do
  let version ← userVersion
  if version > SCHEMA_VERSION then
    Sql.Session.fail (.Message ("unsupported schema user_version " ++ toString version).toList)
  if version < 1 then createProbes
  if version < 2 then createTitleIndexAndJobs
  if version < 3 then titleJobs
  if version < 4 then createMachine
  if version < 5 then pathTitleIndex
  if version < 6 then createHoldsDecisions
  if version < 7 then rekeyTitleIndex

-- What a process leaves that dies while it opens the store: the database as it
-- was after some number of statements.
def leftAfter (statements : Nat) (db : Db) : Option Db :=
  (db :: (migrate db).states)[statements]?

end Mediaops.LocalStore
