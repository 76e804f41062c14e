import Mediaops.LocalStore
import Mathlib.Data.List.Forall2
import Mathlib.Tactic.IntervalCases

namespace Mediaops.LocalStore

open Sql (Value)

-- What a database of one version holds. A table may already have the column
-- that a later version adds to it.
def columnsAt (n : Nat) : TableName → Option (List ColumnName)
  | .Probes => if n < 1 then none else some PROBES.columns
  | .TitleIndex =>
      if n < 2 then none
      else if n < 5 then some TITLE_INDEX.columns
      else some (.Path :: TITLE_INDEX.columns)
  | .TitleIndexV7 => none
  | .Jobs =>
      if n < 2 then none
      else if n < 3 then some [.Id, .Kind, .State, .ParentJobId]
      else some JOBS_DDL.columns
  | .Machine => if n < 4 then none else some MACHINE.columns
  | .HoldsDecisions => if n < 6 then none else some HOLDS_DECISIONS.columns

structure Holds (columns : List ColumnName) (table : Table) : Prop where
  valid : table.Valid
  columns : columns ⊆ table.definition.columns
  key : table.definition.primaryKey ⊆ table.definition.columns
  notNull : table.definition.nullable ⊆ [.ParentJobId]

def Fits : Option (List ColumnName) → Option Table → Prop
  | none, table => table = none
  | some columns, table => ∃ found, table = some found ∧ Holds columns found

structure Schema (n : Nat) (db : Db) : Prop where
  version : db.userVersion = n
  tables : ∀ t, Fits (columnsAt n t) (db.tables t)
  indexes : if n < 7 then ∀ index ∈ db.indexes, index.table = .TitleIndex
    else db.indexes = [titleIndexPath, titleIndexTitleId]

-- The rows a migration must not lose. A title row without a path column is one
-- with an empty path.
def probeRow (row : ColumnName → Value) : Value × Value :=
  (row .EndpointFingerprint, row .RangeConcurrency)

def jobRow (row : ColumnName → Value) : Value × Value × Value × Value × Value :=
  (row .Id, row .TitleId, row .Kind, row .State, row .ParentJobId)

def titleRow (columns : List ColumnName) (row : ColumnName → Value) :
    Value × Value × Value × Value :=
  (if ColumnName.Path ∈ columns then row .Path else .Text [],
    row .TitleId, row .InstallB3, row .CurrentB3)

def rowsOf {α : Type} (read : Table → List α) : Option Table → List α
  | some table => read table
  | none => []

def probeRows (db : Db) : List (Value × Value) :=
  rowsOf (fun table => table.rows.map probeRow) (db.tables .Probes)

def jobRows (db : Db) : List (Value × Value × Value × Value × Value) :=
  rowsOf (fun table => table.rows.map jobRow) (db.tables .Jobs)

def titleRows (db : Db) : List (Value × Value × Value × Value) :=
  rowsOf (fun table => table.rows.map (titleRow table.definition.columns))
    (db.tables .TitleIndex)

structure Same (db db' : Db) : Prop where
  probes : probeRows db' = probeRows db
  jobs : jobRows db' = jobRows db
  titles : titleRows db' = titleRows db

theorem Same.refl (db : Db) : Same db db := ⟨rfl, rfl, rfl⟩

theorem Same.trans {db db' db'' : Db} (h : Same db db') (h' : Same db' db'') : Same db db'' :=
  ⟨h'.probes.trans h.probes, h'.jobs.trans h.jobs, h'.titles.trans h.titles⟩

theorem Same.of_tables {db db' : Db} (hp : db'.tables .Probes = db.tables .Probes)
    (hj : db'.tables .Jobs = db.tables .Jobs)
    (ht : db'.tables .TitleIndex = db.tables .TitleIndex) : Same db db' :=
  ⟨by simp only [probeRows, hp], by simp only [jobRows, hj], by simp only [titleRows, ht]⟩

-- The contents that the last version has no place for are Jobs without a title
-- and two title rows with one path.
def Titled : Option Table → Prop
  | some table => ColumnName.TitleId ∈ table.definition.columns ∨ table.rows = []
  | none => True

def DistinctPaths : Option Table → Prop
  | some table =>
      ColumnName.Path ∈ table.definition.columns → (titleIndexPath.indexed table).Nodup
  | none => True

structure Migratable (db : Db) : Prop where
  jobs : Titled (db.tables .Jobs)
  paths : DistinctPaths (db.tables .TitleIndex)

-- Opening finishes with the last version and every row.
structure Completes (db left : Db) : Prop where
  result : (migrate left).result = .ok ()
  schema : Schema 7 (migrate left).final
  same : Same db (migrate left).final

-- After each statement of the block that ends version n, whether the next
-- opening goes through: not while a new table stands without its version
-- marker, and not while a table that is being rebuilt is gone.
def anonymousJobs (db : Db) : Bool :=
  match db.tables .Jobs with
  | some table => decide (ColumnName.TitleId ∉ table.definition.columns)
  | none => false

def resumable (db : Db) : Nat → List Bool
  | 0 => [false, true]
  | 1 => [false, false, true]
  | 2 => if anonymousJobs db then [true, true, false, true, true] else [true, true]
  | 3 => [false, true]
  | 4 =>
      if ColumnName.Path ∈ db.tableInfo .TitleIndex then [true, true] else [true, true, true]
  | 5 => [false, true]
  | 6 => [false, false, false, true, true, true, true]
  | _ => []

-- Before the first statement, after the version is read, and then block by block.
def reopens (n : Nat) (db : Db) : List Bool :=
  true :: true :: (List.range' n (7 - n)).flatMap (resumable db)

def block : Nat → Session Unit
  | 0 => createProbes
  | 1 => createTitleIndexAndJobs
  | 2 => titleJobs
  | 3 => createMachine
  | 4 => pathTitleIndex
  | 5 => createHoldsDecisions
  | 6 => rekeyTitleIndex
  | _ => pure ()

def blocks : List Nat → Session Unit
  | [] => pure ()
  | n :: rest => do
      block n
      blocks rest

theorem bind_done (m : Session Unit) : (m >>= fun _ => pure ()) = m := by
  funext db
  rw [Sql.Session.bind_apply]
  cases h : (m db).result with
  | ok u => simp [← h]
  | error e => simp [← h]

theorem migrate_eq {n : Nat} {db : Db} (h : db.userVersion = n) (hn : n ≤ 7) :
    migrate db = { blocks (List.range' n (7 - n)) db with
      states := db :: (blocks (List.range' n (7 - n)) db).states } := by
  have hread : userVersion db = { states := [db], final := db, result := .ok (n : Int) } := by
    simp [userVersion, h]
  unfold migrate
  rw [Sql.Session.bind_ok hread]
  interval_cases n <;> simp [SCHEMA_VERSION, List.range', blocks, block, bind_done]

-- The next opening stops in its first block.
def Torn (db : Db) : Prop :=
  ∃ n : Nat, n ≤ 6 ∧ db.userVersion = n ∧ ∃ e, (block n db).result = .error e

theorem Torn.fails {db : Db} (h : Torn db) : (migrate db).result ≠ .ok () := by
  obtain ⟨n, hn, hv, e, he⟩ := h
  have hrange : List.range' n (7 - n) = n :: List.range' (n + 1) (6 - n) := by
    rw [show 7 - n = (6 - n) + 1 by omega, List.range'_succ]
  rw [migrate_eq hv (by omega), hrange]
  simp [blocks, Sql.Session.bind_apply, he]

-- What a statement of a run over `db` leaves: the next opening stops, or it has
-- a version's schema and the rows and obstacles that `db` had.
inductive Marked (db : Db) : Db → Bool → Prop where
  | Torn {left : Db} (h : Torn left) : Marked db left false
  | Open {left : Db} (n : Nat) (hn : n ≤ 7) (schema : Schema n left) (same : Same db left)
      (content : Migratable left ↔ Migratable db) (last : n = 7 → Migratable db) :
      Marked db left true

-- One block: its statements are marked as far as it gets, it stops only at
-- contents that cannot be migrated, and otherwise ends in the next version.
structure BlockDone (n : Nat) (db db' : Db) : Prop where
  schema : Schema (n + 1) db'
  same : Same db db'
  content : Migratable db' ↔ Migratable db
  last : n = 6 → Migratable db
  marks : ∀ i, n < i → resumable db' i = resumable db i

structure BlockSpec (n : Nat) (db : Db) : Prop where
  marked : ∃ flags, flags <+: resumable db n ∧
    List.Forall₂ (Marked db) (block n db).states flags
  done : (block n db).result = .ok () → BlockDone n db (block n db).final ∧
    List.Forall₂ (Marked db) (block n db).states (resumable db n)
  stops : ∀ e, (block n db).result = .error e → ¬ Migratable db

theorem BlockSpec.of_ok {n : Nat} {db db' : Db} {states : List Db}
    (h : block n db = { states, final := db', result := .ok () }) (hd : BlockDone n db db')
    (hm : List.Forall₂ (Marked db) states (resumable db n)) : BlockSpec n db where
  marked := ⟨_, List.prefix_rfl, by rw [h]; exact hm⟩
  done _ := by rw [h]; exact ⟨hd, hm⟩
  stops e he := by rw [h] at he; cases he

theorem BlockSpec.of_error {n : Nat} {db db' : Db} {states : List Db} {e : StoreError}
    {flags : List Bool} (h : block n db = { states, final := db', result := .error e })
    (hc : ¬ Migratable db) (hp : flags <+: resumable db n)
    (hm : List.Forall₂ (Marked db) states flags) : BlockSpec n db where
  marked := ⟨flags, hp, by rw [h]; exact hm⟩
  done hr := by rw [h] at hr; cases hr
  stops _ _ := hc

theorem executeBatch_ok {db db' : Db} {statement : Statement} {rest : List Statement}
    (h : Sql.exec db statement = .ok db') :
    executeBatch (statement :: rest) db =
      { executeBatch rest db' with states := db' :: (executeBatch rest db').states } :=
  Sql.Session.bind_ok (Sql.Session.execute_ok (by simp only [h, sqlite]))

theorem executeBatch_error {db : Db} {statement : Statement} {rest : List Statement}
    {e : Sql.Error TableName ColumnName IndexName} (h : Sql.exec db statement = .error e) :
    executeBatch (statement :: rest) db = { final := db, result := .error (.Sqlite e) } :=
  Sql.Session.bind_error (Sql.Session.execute_error (by simp only [h, sqlite]))

theorem executeBatch_version (db : Db) (n : Int) :
    executeBatch [.SetUserVersion n] db =
      { states := [{ db with userVersion := n }], final := { db with userVersion := n },
        result := .ok () } := by
  have hset : Sql.exec db (.SetUserVersion n) = .ok { db with userVersion := n } := rfl
  rw [executeBatch_ok hset]
  rfl

theorem exec_createTable {db : Db} {t : TableName} {definition : Sql.Definition ColumnName}
    (h : db.tables t = none) :
    Sql.exec db (.CreateTable t definition) = .ok (db.set t (some { definition })) := by
  simp [Sql.exec, h]

theorem exec_createTable_exists {db : Db} {t : TableName} {definition : Sql.Definition ColumnName}
    {table : Table} (h : db.tables t = some table) :
    Sql.exec db (.CreateTable t definition) = .error (.TableExists t) := by
  simp [Sql.exec, h]

theorem exec_renameTable {db : Db} {t u : TableName} {table : Table}
    (h : db.tables t = some table) (hu : db.tables u = none) :
    Sql.exec db (.RenameTable t u) = .ok { (db.set t none).set u (some table) with
      indexes := db.indexes.map fun index =>
        if index.table = t then { index with table := u } else index } := by
  simp [Sql.exec, Sql.Db.table, h, hu, bind, Except.bind, pure, Except.pure]

theorem exec_createIndex {db : Db} {index : Sql.Index TableName ColumnName IndexName}
    {table : Table} (h : db.tables index.table = some table)
    (hname : ∀ other ∈ db.indexes, other.name ≠ index.name)
    (hcolumn : index.column ∈ table.definition.columns) :
    Sql.exec db (.CreateIndex index) = if index.Admits table
      then .ok { db with indexes := db.indexes ++ [index] } else .error .Constraint := by
  have hany : (db.indexes.any fun other => other.name = index.name) = false := by
    simpa using hname
  simp [Sql.exec, Sql.Db.table, h, hany, hcolumn, bind, Except.bind, pure, Except.pure]

@[simp] theorem set_userVersion (db : Db) (t : TableName) (table : Option Table) :
    (db.set t table).userVersion = db.userVersion := rfl

@[simp] theorem set_indexes (db : Db) (t : TableName) (table : Option Table) :
    (db.set t table).indexes = db.indexes := rfl

@[simp] theorem set_tables (db : Db) (t : TableName) (table : Option Table) :
    (db.set t table).tables = Function.update db.tables t table := rfl

theorem holds_empty {definition : Sql.Definition ColumnName}
    (h : definition.nullable ⊆ [.ParentJobId])
    (hkey : definition.primaryKey ⊆ definition.columns) :
    Holds definition.columns { definition } where
  valid := ⟨by simp, by simp⟩
  columns := List.Subset.refl _
  key := hkey
  notNull := h

theorem Holds.mono {columns columns' : List ColumnName} {table : Table} (h : Holds columns table)
    (hs : columns' ⊆ columns) : Holds columns' table :=
  ⟨h.valid, List.Subset.trans hs h.columns, h.key, h.notNull⟩

theorem Schema.absent {n : Nat} {db : Db} (h : Schema n db) {t : TableName}
    (hc : columnsAt n t = none) : db.tables t = none := by
  have ht := h.tables t
  rwa [hc] at ht

theorem Schema.present {n : Nat} {db : Db} (h : Schema n db) {t : TableName}
    {columns : List ColumnName} (hc : columnsAt n t = some columns) :
    ∃ table, db.tables t = some table ∧ Holds columns table := by
  have ht := h.tables t
  rwa [hc] at ht

-- A change of some tables that leaves the others as the next version has them.
theorem Schema.change {n m : Nat} {db db' : Db} (h : Schema n db) (hm : m < 7)
    (changed : List TableName) (hversion : db'.userVersion = m)
    (hrest : ∀ t ∉ changed, db'.tables t = db.tables t ∧ columnsAt m t = columnsAt n t)
    (hnew : ∀ t ∈ changed, Fits (columnsAt m t) (db'.tables t))
    (hindexes : ∀ index ∈ db'.indexes, index.table = .TitleIndex) : Schema m db' where
  version := hversion
  tables t := by
    by_cases ht : t ∈ changed
    · exact hnew t ht
    · obtain ⟨htable, hcolumns⟩ := hrest t ht
      rw [htable, hcolumns]
      exact h.tables t
  indexes := by rw [if_pos hm]; exact hindexes

theorem Schema.onTitleIndex {n : Nat} {db : Db} (h : Schema n db) (hn : n < 7) :
    ∀ index ∈ db.indexes, index.table = .TitleIndex := by
  have hi := h.indexes
  rwa [if_pos hn] at hi

theorem resumable_congr {db db' : Db} (hjobs : db'.tables .Jobs = db.tables .Jobs)
    (htitles : db'.tables .TitleIndex = db.tables .TitleIndex) (i : Nat) :
    resumable db' i = resumable db i := by
  have ha : anonymousJobs db' = anonymousJobs db := by simp only [anonymousJobs, hjobs]
  have hi : db'.tableInfo .TitleIndex = db.tableInfo .TitleIndex := by
    simp only [Sql.Db.tableInfo, htitles]
  unfold resumable
  rw [ha, hi]

theorem migratable_congr {db db' : Db} (hjobs : db'.tables .Jobs = db.tables .Jobs)
    (htitles : db'.tables .TitleIndex = db.tables .TitleIndex) :
    Migratable db' ↔ Migratable db :=
  ⟨fun h => ⟨hjobs ▸ h.jobs, htitles ▸ h.paths⟩, fun h => ⟨hjobs ▸ h.jobs, htitles ▸ h.paths⟩⟩

-- The blocks that only add a table no row of which counts.
theorem create_block {n : Nat} {db : Db} {t : TableName} {definition : Sql.Definition ColumnName}
    (h : Schema n db) (hn : n < 6) (hblock : block n =
      executeBatch [.CreateTable t definition, .SetUserVersion ((n + 1 : Nat) : Int)])
    (hnone : columnsAt n t = none) (hsome : columnsAt (n + 1) t = some definition.columns)
    (hrest : ∀ u ≠ t, columnsAt (n + 1) u = columnsAt n u)
    (hnullable : definition.nullable ⊆ [.ParentJobId])
    (hkey : definition.primaryKey ⊆ definition.columns) (ht : t ≠ .Jobs ∧ t ≠ .TitleIndex) (hflags : resumable db n = [false, true]) :
    BlockSpec n db := by
  have habsent := h.absent hnone
  set made := db.set t (some { definition }) with hmade
  set marked : Db := { made with userVersion := ((n + 1 : Nat) : Int) } with hmarked
  have hjobs : marked.tables .Jobs = db.tables .Jobs := by
    simp [hmarked, hmade, Function.update_of_ne ht.1.symm]
  have htitles : marked.tables .TitleIndex = db.tables .TitleIndex := by
    simp [hmarked, hmade, Function.update_of_ne ht.2.symm]
  have hrun : block n db = { states := [made, marked], final := marked, result := .ok () } := by
    rw [hblock, executeBatch_ok (exec_createTable habsent), executeBatch_version]
  have htorn : Torn made := by
    refine ⟨n, by omega, by simp [hmade, h.version], .Sqlite (.TableExists t), ?_⟩
    rw [hblock, executeBatch_error (exec_createTable_exists (by simp [hmade]; rfl))]
  have hschema : Schema (n + 1) marked := by
    refine h.change (by omega) [t] rfl ?_ ?_ ?_
    · intro u hu
      have hu : u ≠ t := by simpa using hu
      exact ⟨by simp [hmarked, hmade, Function.update_of_ne hu], hrest u hu⟩
    · intro u hu
      obtain rfl : u = t := by simpa using hu
      rw [hsome]
      exact ⟨_, by simp [hmarked, hmade], holds_empty hnullable hkey⟩
    · simpa [hmarked, hmade] using h.onTitleIndex (by omega)
  have hsame : Same db marked := by
    refine ⟨?_, by simp only [jobRows, hjobs], by simp only [titleRows, htitles]⟩
    by_cases hp : t = .Probes
    · subst hp
      simp [probeRows, rowsOf, habsent, hmarked, hmade]
    · simp [probeRows, hmarked, hmade, Function.update_of_ne (Ne.symm hp)]
  have hcontent : Migratable marked ↔ Migratable db := migratable_congr hjobs htitles
  refine .of_ok hrun ⟨hschema, hsame, hcontent, by omega, ?_⟩ ?_
  · exact fun i _ => resumable_congr hjobs htitles i
  · rw [hflags]
    exact .cons (.Torn htorn) (.cons
      (.Open (n + 1) (by omega) hschema hsame hcontent (by omega)) .nil)

theorem createTitleIndexAndJobs_block {db : Db} (h : Schema 1 db) : BlockSpec 1 db := by
  have htitle := h.absent (t := .TitleIndex) rfl
  have hjobs := h.absent (t := .Jobs) rfl
  set indexed := db.set .TitleIndex (some { definition := TITLE_INDEX }) with hindexed
  set made := indexed.set .Jobs (some { definition := JOBS_DDL }) with hmade
  set marked : Db := { made with userVersion := 2 } with hmarked
  have hrun : block 1 db =
      { states := [indexed, made, marked], final := marked, result := .ok () } := by
    show createTitleIndexAndJobs db = _
    unfold createTitleIndexAndJobs
    rw [executeBatch_ok (exec_createTable htitle),
      executeBatch_ok (exec_createTable (by simpa [hindexed] using hjobs)), executeBatch_version]
  have hstops : ∀ left : Db, left.userVersion = 1 →
      left.tables .TitleIndex = some { definition := TITLE_INDEX } → Torn left := by
    intro left hv ht
    refine ⟨1, by omega, hv, .Sqlite (.TableExists .TitleIndex), ?_⟩
    show (createTitleIndexAndJobs left).result = _
    unfold createTitleIndexAndJobs
    rw [executeBatch_error (exec_createTable_exists ht)]
  have hschema : Schema 2 marked := by
    refine h.change (by omega) [.TitleIndex, .Jobs] rfl ?_ ?_ ?_
    · intro t ht
      cases t <;> simp [columnsAt, hmarked, hmade, hindexed] at ht ⊢
    · intro t ht
      simp only [List.mem_cons, List.not_mem_nil, or_false] at ht
      rcases ht with rfl | rfl
      · exact ⟨_, by simp [hmarked, hmade, hindexed], holds_empty (by decide) (by decide)⟩
      · exact ⟨{ definition := JOBS_DDL }, by simp [hmarked, hmade],
          (holds_empty (by decide) (by decide)).mono (by decide)⟩
    · simpa [hmarked, hmade, hindexed] using h.onTitleIndex (by omega)
  have hsame : Same db marked :=
    ⟨by simp [probeRows, hmarked, hmade, hindexed],
      by simp [jobRows, rowsOf, hjobs, hmarked, hmade],
      by simp [titleRows, rowsOf, htitle, hmarked, hmade, hindexed]⟩
  have hbefore : Migratable db := ⟨by simp [hjobs, Titled], by simp [htitle, DistinctPaths]⟩
  have hafter : Migratable marked :=
    ⟨by simp [hmarked, hmade, Titled, JOBS_DDL],
      by simp [hmarked, hmade, hindexed, DistinctPaths, TITLE_INDEX]⟩
  have hcontent : Migratable marked ↔ Migratable db := ⟨fun _ => hbefore, fun _ => hafter⟩
  refine .of_ok hrun ⟨hschema, hsame, hcontent, by omega, ?_⟩ ?_
  · intro i hi
    have ha : anonymousJobs marked = anonymousJobs db := by
      simp [anonymousJobs, hjobs, hmarked, hmade, JOBS_DDL]
    have hp : (ColumnName.Path ∈ marked.tableInfo .TitleIndex) ↔
        (ColumnName.Path ∈ db.tableInfo .TitleIndex) := by
      simp [Sql.Db.tableInfo, htitle, hmarked, hmade, hindexed, TITLE_INDEX]
    unfold resumable
    simp only [ha, hp]
  · exact .cons (.Torn (hstops indexed (by simp [hindexed, h.version]) (by simp [hindexed])))
      (.cons (.Torn (hstops made (by simp [hmade, hindexed, h.version])
          (by simp [hmade, hindexed])))
        (.cons (.Open 2 (by omega) hschema hsame hcontent (by omega)) .nil))

-- A version marker over tables that are already as the version has them.
theorem Schema.mark {n m : Nat} {db : Db} (h : Schema n db) (hn : n < 7) (hm : m < 7)
    (changed : List TableName) (hrest : ∀ t ∉ changed, columnsAt m t = columnsAt n t)
    (hnew : ∀ t ∈ changed, Fits (columnsAt m t) (db.tables t)) :
    Schema m { db with userVersion := (m : Int) } :=
  h.change hm changed rfl (fun t ht => ⟨rfl, hrest t ht⟩) hnew (h.onTitleIndex hn)

theorem jobsHasTitleId_eq {db : Db} {table : Table} (h : db.tables .Jobs = some table) :
    jobsHasTitleId db =
      { states := [db], final := db,
        result := .ok (decide (ColumnName.TitleId ∈ table.definition.columns)) } := by
  simp [jobsHasTitleId, Sql.Db.tableInfo, h]

theorem ensureJobsTitleId_titled {db : Db} {table : Table} (h : db.tables .Jobs = some table)
    (ht : ColumnName.TitleId ∈ table.definition.columns) :
    ensureJobsTitleId db = { states := [db], final := db, result := .ok () } := by
  unfold ensureJobsTitleId
  rw [Sql.Session.bind_ok (jobsHasTitleId_eq h)]
  simp [ht]

theorem ensureJobsTitleId_untitled {db : Db} {table : Table} (h : db.tables .Jobs = some table)
    (ht : ColumnName.TitleId ∉ table.definition.columns) :
    ensureJobsTitleId db =
      let rest := if table.rows.length > 0 then
          Sql.Session.fail (.Message "cannot migrate jobs rows that have no title_id") db
        else executeBatch [.DropTable .Jobs, .CreateTable .Jobs JOBS_DDL] db
      { rest with states := db :: db :: rest.states } := by
  have hcount : countJobs db = { states := [db], final := db, result := .ok table.rows.length } := by
    simp [countJobs, Sql.Db.table, h, sqlite, Except.map]
  unfold ensureJobsTitleId
  rw [Sql.Session.bind_ok (jobsHasTitleId_eq h)]
  simp only [ht, decide_false, Bool.false_eq_true, if_false]
  rw [Sql.Session.bind_ok hcount]
  split <;> rfl

theorem titleJobs_missing {db : Db} (h : db.tables .Jobs = none) :
    (titleJobs db).result = .error (.Sqlite (.NoSuchTable .Jobs)) := by
  have hread : jobsHasTitleId db = { states := [db], final := db, result := .ok false } := by
    simp [jobsHasTitleId, Sql.Db.tableInfo, h]
  have hcount : countJobs db =
      { states := [db], final := db, result := .error (.Sqlite (.NoSuchTable .Jobs)) } := by
    simp [countJobs, Sql.Db.table, h, sqlite, Except.map]
  have hensure : ensureJobsTitleId db =
      { states := [db, db], final := db, result := .error (.Sqlite (.NoSuchTable .Jobs)) } := by
    unfold ensureJobsTitleId
    rw [Sql.Session.bind_ok hread]
    simp only [Bool.false_eq_true, if_false]
    rw [Sql.Session.bind_error hcount]
    rfl
  unfold titleJobs
  rw [Sql.Session.bind_error hensure]

-- The table has its column already, perhaps from an interrupted opening.
theorem titleJobs_titled {db : Db} (h : Schema 2 db) {table : Table}
    (htable : db.tables .Jobs = some table)
    (hholds : Holds [.Id, .Kind, .State, .ParentJobId] table)
    (htitled : ColumnName.TitleId ∈ table.definition.columns) : BlockSpec 2 db := by
  set marked : Db := { db with userVersion := 3 } with hmarked
  have hrun : block 2 db = { states := [db, marked], final := marked, result := .ok () } := by
    show titleJobs db = _
    unfold titleJobs
    rw [Sql.Session.bind_ok (ensureJobsTitleId_titled htable htitled), executeBatch_version]
    rfl
  have hschema : Schema 3 marked := by
    refine h.mark (by omega) (by omega) [.Jobs] ?_ ?_
    · intro t ht
      cases t <;> simp [columnsAt] at ht ⊢
    · intro t ht
      obtain rfl : t = .Jobs := by simpa using ht
      refine ⟨table, htable, hholds.valid, ?_, hholds.key, hholds.notNull⟩
      intro c hc
      by_cases hct : c = .TitleId
      · exact hct ▸ htitled
      · exact hholds.columns (by cases c <;> simp_all [JOBS_DDL])
  have hcontent : Migratable marked ↔ Migratable db := migratable_congr rfl rfl
  have hsame : Same db marked := .of_tables rfl rfl rfl
  have hflags : resumable db 2 = [true, true] := by
    simp [resumable, anonymousJobs, htable, htitled]
  refine .of_ok hrun
    ⟨hschema, hsame, hcontent, by omega, fun i _ => resumable_congr rfl rfl i⟩ ?_
  rw [hflags]
  exact .cons (.Open 2 (by omega) h (.refl db) Iff.rfl (by omega))
    (.cons (.Open 3 (by omega) hschema hsame hcontent (by omega)) .nil)

theorem titleJobs_rows {db : Db} (h : Schema 2 db) {table : Table}
    (htable : db.tables .Jobs = some table)
    (htitled : ColumnName.TitleId ∉ table.definition.columns) (hrows : table.rows ≠ []) :
    BlockSpec 2 db := by
  have hopen : Marked db db true := .Open 2 (by omega) h (.refl db) Iff.rfl (by omega)
  have hfail : ensureJobsTitleId db =
      { states := [db, db], final := db,
        result := .error (.Message "cannot migrate jobs rows that have no title_id") } := by
    rw [ensureJobsTitleId_untitled htable htitled, if_pos (List.length_pos_of_ne_nil hrows)]
    rfl
  have hrun : block 2 db =
      { states := [db, db], final := db,
        result := .error (.Message "cannot migrate jobs rows that have no title_id") } := by
    show titleJobs db = _
    unfold titleJobs
    rw [Sql.Session.bind_error hfail]
  have hflags : resumable db 2 = [true, true, false, true, true] := by
    simp [resumable, anonymousJobs, htable, htitled]
  refine .of_error hrun ?_ (hflags ▸ ⟨[false, true, true], rfl⟩) (.cons hopen (.cons hopen .nil))
  intro hm
  have hj := hm.jobs
  simp [Titled, htable, htitled, hrows] at hj

-- The empty table is dropped and made anew.
theorem titleJobs_empty {db : Db} (h : Schema 2 db) {table : Table}
    (htable : db.tables .Jobs = some table)
    (htitled : ColumnName.TitleId ∉ table.definition.columns) (hrows : table.rows = []) :
    BlockSpec 2 db := by
  obtain ⟨dropped, hdrop, hv, hgone, hdrest, hdindexes⟩ : ∃ dropped : Db,
      Sql.exec db (.DropTable .Jobs) = .ok dropped ∧ dropped.userVersion = 2 ∧
        dropped.tables .Jobs = none ∧ (∀ t, t ≠ .Jobs → dropped.tables t = db.tables t) ∧
        ∀ index ∈ dropped.indexes, index.table = .TitleIndex := by
    refine ⟨{ db.set .Jobs none with
        indexes := db.indexes.filter fun index => index.table ≠ .Jobs }, ?_, ?_, ?_, ?_, ?_⟩
    · simp [Sql.exec, Sql.Db.table, htable, bind, Except.bind, pure, Except.pure]
    · exact h.version
    · simp
    · intro t ht
      simp [Function.update_of_ne ht]
    · intro index hindex
      exact h.onTitleIndex (by omega) index (List.mem_filter.mp hindex).1
  set rebuilt := dropped.set .Jobs (some { definition := JOBS_DDL }) with hrebuilt
  set marked : Db := { rebuilt with userVersion := 3 } with hmarked
  have hcreate : Sql.exec dropped (.CreateTable .Jobs JOBS_DDL) = .ok rebuilt :=
    exec_createTable hgone
  have hensure : ensureJobsTitleId db =
      { states := [db, db, dropped, rebuilt], final := rebuilt, result := .ok () } := by
    rw [ensureJobsTitleId_untitled htable htitled, if_neg (by simp [hrows]),
      executeBatch_ok hdrop, executeBatch_ok hcreate]
    rfl
  have hrun : block 2 db =
      { states := [db, db, dropped, rebuilt, marked], final := marked, result := .ok () } := by
    show titleJobs db = _
    unfold titleJobs
    rw [Sql.Session.bind_ok hensure, executeBatch_version]
    rfl
  have htorn : Torn dropped := ⟨2, by omega, hv, _, titleJobs_missing hgone⟩
  have hrest : ∀ t, t ≠ .Jobs → rebuilt.tables t = db.tables t := by
    intro t ht
    simp [hrebuilt, Function.update_of_ne ht, hdrest t ht]
  have hjobs : rebuilt.tables .Jobs = some { definition := JOBS_DDL } := by simp [hrebuilt]
  have hempty : Holds JOBS_DDL.columns { definition := JOBS_DDL } :=
    holds_empty (by decide) (by decide)
  have hschema2 : Schema 2 rebuilt := by
    refine h.change (by omega) [.Jobs] (by simp [hrebuilt, hv]) ?_ ?_ hdindexes
    · intro t ht
      exact ⟨hrest t (by simpa using ht), rfl⟩
    · intro t ht
      obtain rfl : t = .Jobs := by simpa using ht
      exact ⟨_, hjobs, hempty.mono (by decide)⟩
  have hschema : Schema 3 marked := by
    refine hschema2.mark (by omega) (by omega) [.Jobs] ?_ ?_
    · intro t ht
      cases t <;> simp [columnsAt] at ht ⊢
    · intro t ht
      obtain rfl : t = .Jobs := by simpa using ht
      exact ⟨_, hjobs, hempty⟩
  have hprobes := hrest .Probes (by decide)
  have htitles := hrest .TitleIndex (by decide)
  have hsame2 : Same db rebuilt :=
    ⟨by simp only [probeRows, hprobes],
      by simp [jobRows, rowsOf, hjobs, htable, hrows], by simp only [titleRows, htitles]⟩
  have hsame : Same db marked := hsame2.trans (.of_tables rfl rfl rfl)
  have hcontent2 : Migratable rebuilt ↔ Migratable db := by
    constructor
    · intro hm
      exact ⟨by simp [Titled, htable, hrows], by rw [← htitles]; exact hm.paths⟩
    · intro hm
      exact ⟨by simp [Titled, hjobs, JOBS_DDL], by rw [htitles]; exact hm.paths⟩
  have hcontent : Migratable marked ↔ Migratable db := by
    rw [← hcontent2]
    exact migratable_congr rfl rfl
  have hflags : resumable db 2 = [true, true, false, true, true] := by
    simp [resumable, anonymousJobs, htable, htitled]
  refine .of_ok hrun ⟨hschema, hsame, hcontent, by omega, ?_⟩ ?_
  · intro i hi
    have hp : marked.tableInfo .TitleIndex = db.tableInfo .TitleIndex := by
      simp only [Sql.Db.tableInfo, hmarked, htitles]
    match i with
    | 3 | 5 | 6 => rfl
    | 4 => simp only [resumable, hp]
    | i + 7 => rfl
  · have hopen : Marked db db true := .Open 2 (by omega) h (.refl db) Iff.rfl (by omega)
    rw [hflags]
    exact .cons hopen (.cons hopen (.cons (.Torn htorn)
      (.cons (.Open 2 (by omega) hschema2 hsame2 hcontent2 (by omega))
        (.cons (.Open 3 (by omega) hschema hsame hcontent (by omega)) .nil))))

theorem titleJobs_block {db : Db} (h : Schema 2 db) : BlockSpec 2 db := by
  obtain ⟨table, htable, hholds⟩ := h.present (t := .Jobs) rfl
  by_cases htitled : ColumnName.TitleId ∈ table.definition.columns
  · exact titleJobs_titled h htable hholds htitled
  by_cases hrows : table.rows = []
  · exact titleJobs_empty h htable htitled hrows
  · exact titleJobs_rows h htable htitled hrows

theorem titleIndexHasPath_eq {db : Db} {table : Table}
    (h : db.tables .TitleIndex = some table) :
    titleIndexHasPath db =
      { states := [db], final := db,
        result := .ok (decide (ColumnName.Path ∈ table.definition.columns)) } := by
  simp [titleIndexHasPath, Sql.Db.tableInfo, h]

theorem pathTitleIndex_pathed {db : Db} (h : Schema 4 db) {table : Table}
    (htable : db.tables .TitleIndex = some table) (hholds : Holds TITLE_INDEX.columns table)
    (hpath : ColumnName.Path ∈ table.definition.columns) : BlockSpec 4 db := by
  set marked : Db := { db with userVersion := 5 } with hmarked
  have hensure : ensureTitleIndexPath db = { states := [db], final := db, result := .ok () } := by
    unfold ensureTitleIndexPath
    rw [Sql.Session.bind_ok (titleIndexHasPath_eq htable)]
    simp [hpath]
  have hrun : block 4 db = { states := [db, marked], final := marked, result := .ok () } := by
    show pathTitleIndex db = _
    unfold pathTitleIndex
    rw [Sql.Session.bind_ok hensure, executeBatch_version]
    rfl
  have hschema : Schema 5 marked := by
    refine h.mark (by omega) (by omega) [.TitleIndex] ?_ ?_
    · intro t ht
      cases t <;> simp [columnsAt] at ht ⊢
    · intro t ht
      obtain rfl : t = .TitleIndex := by simpa using ht
      exact ⟨table, htable, hholds.valid, List.cons_subset.mpr ⟨hpath, hholds.columns⟩,
        hholds.key, hholds.notNull⟩
  have hcontent : Migratable marked ↔ Migratable db := migratable_congr rfl rfl
  have hsame : Same db marked := .of_tables rfl rfl rfl
  have hflags : resumable db 4 = [true, true] := by
    simp [resumable, Sql.Db.tableInfo, htable, hpath]
  refine .of_ok hrun
    ⟨hschema, hsame, hcontent, by omega, fun i _ => resumable_congr rfl rfl i⟩ ?_
  rw [hflags]
  exact .cons (.Open 4 (by omega) h (.refl db) Iff.rfl (by omega))
    (.cons (.Open 5 (by omega) hschema hsame hcontent (by omega)) .nil)

def withPath (table : Table) : Table where
  definition := { table.definition with columns := table.definition.columns ++ [.Path] }
  rows := table.rows.map fun row => Function.update row .Path (.Text [])

theorem holds_withPath {table : Table} (h : Holds TITLE_INDEX.columns table)
    (hpath : ColumnName.Path ∉ table.definition.columns) :
    Holds (.Path :: TITLE_INDEX.columns) (withPath table) where
  valid := by
    have hkey : ColumnName.Path ∉ table.definition.primaryKey := fun hk => hpath (h.key hk)
    constructor
    · intro row hrow c hc hnull
      obtain ⟨old, hold, rfl⟩ := List.mem_map.mp hrow
      by_cases hcp : c = .Path
      · subst hcp
        simp at hnull
      · have hc : c ∈ table.definition.columns := by simpa [withPath, hcp] using hc
        rw [Function.update_of_ne hcp] at hnull
        exact h.valid.notNull old hold c hc hnull
    · have hsame : ∀ row : ColumnName → Value,
          table.definition.primaryKey.map (Function.update row .Path (.Text [])) =
            table.definition.primaryKey.map row := by
        intro row
        refine List.map_congr_left fun c hc => Function.update_of_ne ?_ _ _
        rintro rfl
        exact hkey hc
      simpa [withPath, Function.comp_def, hsame] using h.valid.keyed
  columns := by
    intro c hc
    rcases List.mem_cons.mp hc with rfl | hc
    · simp [withPath]
    · exact List.mem_append_left _ (h.columns hc)
  key := fun _ hc => List.mem_append_left _ (h.key hc)
  notNull := h.notNull

theorem titleRow_withPath {table : Table} (hpath : ColumnName.Path ∉ table.definition.columns) :
    (withPath table).rows.map (titleRow (withPath table).definition.columns) =
      table.rows.map (titleRow table.definition.columns) := by
  simp only [withPath, List.map_map]
  refine List.map_congr_left fun row _ => ?_
  simp [titleRow, hpath]

theorem distinctPaths_withPath (table : Table) : DistinctPaths (some (withPath table)) := by
  intro _
  have hempty : titleIndexPath.indexed (withPath table) = [] := by
    simp [Sql.Index.indexed, withPath, titleIndexPath]
  rw [hempty]
  exact List.nodup_nil

theorem pathTitleIndex_added {db : Db} (h : Schema 4 db) {table : Table}
    (htable : db.tables .TitleIndex = some table) (hholds : Holds TITLE_INDEX.columns table)
    (hpath : ColumnName.Path ∉ table.definition.columns) : BlockSpec 4 db := by
  set added := db.set .TitleIndex (some (withPath table)) with hadded
  set marked : Db := { added with userVersion := 5 } with hmarked
  have hadd : Sql.exec db (.AddColumn .TitleIndex .Path (.Text [])) = .ok added := by
    simp [Sql.exec, Sql.Db.table, htable, hpath, bind, Except.bind, pure, Except.pure, hadded,
      withPath]
  have hensure : ensureTitleIndexPath db =
      { states := [db, added], final := added, result := .ok () } := by
    unfold ensureTitleIndexPath
    rw [Sql.Session.bind_ok (titleIndexHasPath_eq htable)]
    simp only [hpath, decide_false, Bool.false_eq_true, if_false]
    rw [executeBatch_ok hadd]
    rfl
  have hrun : block 4 db =
      { states := [db, added, marked], final := marked, result := .ok () } := by
    show pathTitleIndex db = _
    unfold pathTitleIndex
    rw [Sql.Session.bind_ok hensure, executeBatch_version]
    rfl
  have hrest : ∀ t, t ≠ .TitleIndex → added.tables t = db.tables t := by
    intro t ht
    simp [hadded, Function.update_of_ne ht]
  have htitles : added.tables .TitleIndex = some (withPath table) := by simp [hadded]
  have hnew := holds_withPath hholds hpath
  have hschema4 : Schema 4 added := by
    refine h.change (by omega) [.TitleIndex] h.version ?_ ?_ (h.onTitleIndex (by omega))
    · intro t ht
      exact ⟨hrest t (by simpa using ht), rfl⟩
    · intro t ht
      obtain rfl : t = .TitleIndex := by simpa using ht
      exact ⟨_, htitles, hnew.mono (List.subset_cons_self _ _)⟩
  have hschema : Schema 5 marked := by
    refine hschema4.mark (by omega) (by omega) [.TitleIndex] ?_ ?_
    · intro t ht
      cases t <;> simp [columnsAt] at ht ⊢
    · intro t ht
      obtain rfl : t = .TitleIndex := by simpa using ht
      exact ⟨_, htitles, hnew⟩
  have hjobs := hrest .Jobs (by decide)
  have hsame4 : Same db added :=
    ⟨by simp only [probeRows, hrest .Probes (by decide)], by simp only [jobRows, hjobs],
      by simp only [titleRows, rowsOf, htitles, htable, titleRow_withPath hpath]⟩
  have hsame : Same db marked := hsame4.trans (.of_tables rfl rfl rfl)
  have hcontent4 : Migratable added ↔ Migratable db := by
    constructor
    · intro hm
      exact ⟨by rw [← hjobs]; exact hm.jobs, by rw [htable]; exact fun hp => absurd hp hpath⟩
    · intro hm
      exact ⟨by rw [hjobs]; exact hm.jobs, by rw [htitles]; exact distinctPaths_withPath table⟩
  have hcontent : Migratable marked ↔ Migratable db := by
    rw [← hcontent4]
    exact migratable_congr rfl rfl
  have hflags : resumable db 4 = [true, true, true] := by
    simp [resumable, Sql.Db.tableInfo, htable, hpath]
  refine .of_ok hrun ⟨hschema, hsame, hcontent, by omega, ?_⟩ ?_
  · intro i hi
    match i with
    | 5 | 6 => rfl
    | i + 7 => rfl
  · rw [hflags]
    exact .cons (.Open 4 (by omega) h (.refl db) Iff.rfl (by omega))
      (.cons (.Open 4 (by omega) hschema4 hsame4 hcontent4 (by omega))
        (.cons (.Open 5 (by omega) hschema hsame hcontent (by omega)) .nil))

theorem pathTitleIndex_block {db : Db} (h : Schema 4 db) : BlockSpec 4 db := by
  obtain ⟨table, htable, hholds⟩ := h.present (t := .TitleIndex) rfl
  by_cases hpath : ColumnName.Path ∈ table.definition.columns
  · exact pathTitleIndex_pathed h htable hholds hpath
  · exact pathTitleIndex_added h htable hholds hpath

-- The rows of the title index in the table that takes its place.
def rekeyed (table : Table) : Table :=
  ({ definition := TITLE_INDEX_V7 } : Table).insert [.Path, .TitleId, .InstallB3, .CurrentB3]
    table.rows

theorem holds_rekeyed {table : Table} (h : Holds (.Path :: TITLE_INDEX.columns) table) :
    Holds (.Path :: TITLE_INDEX.columns) (rekeyed table) where
  valid := by
    refine Sql.Table.valid_insert rfl rfl (by decide) (by decide) ?_
    intro row hrow c hc hnull
    have hin : c ∈ table.definition.columns :=
      h.columns (by revert hc; cases c <;> decide)
    have hp := h.notNull (h.valid.notNull row hrow c hin hnull)
    obtain rfl : c = .ParentJobId := by simpa using hp
    exact absurd hc (by decide)
  columns := show .Path :: TITLE_INDEX.columns ⊆ TITLE_INDEX_V7.columns by decide
  key := show TITLE_INDEX_V7.primaryKey ⊆ TITLE_INDEX_V7.columns by decide
  notNull := show TITLE_INDEX_V7.nullable ⊆ [.ParentJobId] by decide

theorem titleRow_rekeyed {table : Table} (hpath : ColumnName.Path ∈ table.definition.columns) :
    (rekeyed table).rows.map (titleRow (rekeyed table).definition.columns) =
      table.rows.map (titleRow table.definition.columns) := by
  simp only [rekeyed, Sql.Table.insert, List.nil_append]
  refine Sql.map_mapIdx (fun i row => ?_) _
  simp [titleRow, hpath, TITLE_INDEX_V7]

theorem indexed_rekeyed (table : Table) :
    titleIndexPath.indexed (rekeyed table) = titleIndexPath.indexed table := by
  have hmap : (rekeyed table).rows.map (fun row => row titleIndexPath.column) =
      table.rows.map fun row => row titleIndexPath.column := by
    simp only [rekeyed, Sql.Table.insert, List.nil_append]
    refine Sql.map_mapIdx (fun i row => ?_) _
    simp [titleIndexPath]
  unfold Sql.Index.indexed
  rw [hmap]

-- While the new table stands beside the old one, or alone under its own name,
-- the block cannot start again.
theorem rekey_torn {left : Db} {table : Table} (hv : left.userVersion = 6)
    (h : left.tables .TitleIndexV7 = some table) : Torn left := by
  refine ⟨6, by omega, hv, .Sqlite (.TableExists .TitleIndexV7), ?_⟩
  show (rekeyTitleIndex left).result = _
  unfold rekeyTitleIndex
  rw [executeBatch_error (exec_createTable_exists h)]

-- What the block has done when the new table has the old one's name.
structure Renamed (db : Db) (table : Table) (renamed : Db) : Prop where
  version : renamed.userVersion = 6
  titles : renamed.tables .TitleIndex = some (rekeyed table)
  spare : renamed.tables .TitleIndexV7 = none
  rest : ∀ t, t ≠ .TitleIndex → t ≠ .TitleIndexV7 → renamed.tables t = db.tables t
  indexes : renamed.indexes = []

theorem rekey_renames {db : Db} (h : Schema 6 db) {table : Table}
    (htable : db.tables .TitleIndex = some table)
    (hholds : Holds (.Path :: TITLE_INDEX.columns) table) :
    ∃ made copied dropped renamed, Torn made ∧ Torn copied ∧ Torn dropped ∧
      Renamed db table renamed ∧
      rekeyTitleIndex db =
        let rest := executeBatch [.CreateIndex titleIndexPath, .CreateIndex titleIndexTitleId,
          .SetUserVersion 7] renamed
        { rest with states := made :: copied :: dropped :: renamed :: rest.states } := by
  have hspare := h.absent (t := .TitleIndexV7) rfl
  have hindexes := h.onTitleIndex (by omega)
  have hv : db.userVersion = 6 := h.version
  set made := db.set .TitleIndexV7 (some { definition := TITLE_INDEX_V7 }) with hmade
  set copied := made.set .TitleIndexV7 (some (rekeyed table)) with hcopied
  set dropped : Db := { copied.set .TitleIndex none with indexes := [] } with hdropped
  set renamed := (dropped.set .TitleIndexV7 none).set .TitleIndex (some (rekeyed table))
    with hrenamed
  have hsource : made.tables .TitleIndex = some table := by simp [hmade, htable]
  have hcopy : Sql.exec made
      (.InsertSelect .TitleIndexV7 [.Path, .TitleId, .InstallB3, .CurrentB3] .TitleIndex) =
        .ok copied := by
    have hcolumns : ([.Path, .TitleId, .InstallB3, .CurrentB3] : List ColumnName).all (fun c =>
        c ∈ TITLE_INDEX_V7.columns && c ∈ table.definition.columns) := by
      have hsub := hholds.columns
      simp only [TITLE_INDEX, List.cons_subset] at hsub
      simp [TITLE_INDEX_V7, hsub]
    have hnone : ∀ index ∈ made.indexes, index.table = .TitleIndexV7 →
        index.Admits (rekeyed table) := by
      intro index hindex ht
      have hon := hindexes index hindex
      rw [ht] at hon
      cases hon
    have htarget : made.tables .TitleIndexV7 = some { definition := TITLE_INDEX_V7 } := by
      simp [hmade]
    have hvalid := (holds_rekeyed hholds).valid
    unfold rekeyed at hvalid hnone
    simp only [Sql.exec, Sql.Db.table, htarget, hsource, bind, Except.bind]
    rw [if_pos hcolumns, if_pos ⟨hvalid, hnone⟩]
    rfl
  have hdrop : Sql.exec copied (.DropTable .TitleIndex) = .ok dropped := by
    have hgone : db.indexes.filter (fun index => decide (index.table ≠ .TitleIndex)) = [] := by
      rw [List.filter_eq_nil_iff]
      intro index hindex
      simp [hindexes index hindex]
    have hold : copied.tables .TitleIndex = some table := by simp [hcopied, hsource]
    simp only [Sql.exec, Sql.Db.table, hold, bind, Except.bind, pure, Except.pure]
    rw [hdropped]
    simp only [hcopied, hmade, set_indexes, hgone]
  have hrename : Sql.exec dropped (.RenameTable .TitleIndexV7 .TitleIndex) = .ok renamed := by
    have hnew : dropped.tables .TitleIndexV7 = some (rekeyed table) := by
      simp [hdropped, hcopied]
    have hold : dropped.tables .TitleIndex = none := by simp [hdropped]
    rw [exec_renameTable hnew hold]
    rfl
  refine ⟨made, copied, dropped, renamed, rekey_torn hv (by simp [hmade]; rfl),
    rekey_torn hv (by simp [hcopied]; rfl), rekey_torn hv (by simp [hdropped, hcopied]; rfl),
    ⟨hv, by simp [hrenamed], by simp [hrenamed], ?_, rfl⟩, ?_⟩
  · intro t ht hts
    simp [hrenamed, hdropped, hcopied, hmade, Function.update_of_ne ht, Function.update_of_ne hts]
  · unfold rekeyTitleIndex
    rw [executeBatch_ok (exec_createTable hspare), executeBatch_ok hcopy, executeBatch_ok hdrop,
      executeBatch_ok hrename]

-- The rename has the contents of version 6 again, whatever indexes follow.
theorem Renamed.schema {db renamed : Db} {table : Table} (h : Schema 6 db)
    (hholds : Holds (.Path :: TITLE_INDEX.columns) table) (hr : Renamed db table renamed)
    {left : Db} (hv : left.userVersion = 6) (ht : left.tables = renamed.tables)
    (hi : ∀ index ∈ left.indexes, index.table = .TitleIndex) : Schema 6 left := by
  refine h.change (by omega) [.TitleIndex, .TitleIndexV7] hv ?_ ?_ hi
  · intro t htn
    simp only [List.mem_cons, List.not_mem_nil, or_false, not_or] at htn
    rw [ht]
    exact ⟨hr.rest t htn.1 htn.2, rfl⟩
  · intro t hts
    simp only [List.mem_cons, List.not_mem_nil, or_false] at hts
    rw [ht]
    rcases hts with rfl | rfl
    · exact ⟨_, hr.titles, holds_rekeyed hholds⟩
    · exact hr.spare

theorem Renamed.same {db renamed : Db} {table : Table}
    (htable : db.tables .TitleIndex = some table)
    (hpath : ColumnName.Path ∈ table.definition.columns) (hr : Renamed db table renamed)
    {left : Db} (ht : left.tables = renamed.tables) : Same db left where
  probes := by simp only [probeRows, ht, hr.rest .Probes (by decide) (by decide)]
  jobs := by simp only [jobRows, ht, hr.rest .Jobs (by decide) (by decide)]
  titles := by simp only [titleRows, rowsOf, ht, hr.titles, htable, titleRow_rekeyed hpath]

theorem Renamed.content {db renamed : Db} {table : Table}
    (htable : db.tables .TitleIndex = some table)
    (hpath : ColumnName.Path ∈ table.definition.columns) (hr : Renamed db table renamed)
    {left : Db} (ht : left.tables = renamed.tables) : Migratable left ↔ Migratable db := by
  have hjobs := hr.rest .Jobs (by decide) (by decide)
  have hpaths : DistinctPaths (left.tables .TitleIndex) ↔
      DistinctPaths (db.tables .TitleIndex) := by
    have hin : ColumnName.Path ∈ (rekeyed table).definition.columns :=
      show ColumnName.Path ∈ TITLE_INDEX_V7.columns by decide
    rw [ht, hr.titles, htable]
    simp only [DistinctPaths, indexed_rekeyed, hin, hpath]
  constructor
  · intro hm
    exact ⟨by rw [← hjobs, ← ht]; exact hm.jobs, hpaths.mp hm.paths⟩
  · intro hm
    exact ⟨by rw [ht, hjobs]; exact hm.jobs, hpaths.mpr hm.paths⟩

theorem rekeyTitleIndex_block {db : Db} (h : Schema 6 db) : BlockSpec 6 db := by
  obtain ⟨table, htable, hholds⟩ := h.present (t := .TitleIndex) rfl
  have hpath : ColumnName.Path ∈ table.definition.columns :=
    hholds.columns List.mem_cons_self
  obtain ⟨made, copied, dropped, renamed, hmade, hcopied, hdropped, hr, hrun⟩ :=
    rekey_renames h htable hholds
  have hopen : ∀ left : Db, left.userVersion = 6 → left.tables = renamed.tables →
      (∀ index ∈ left.indexes, index.table = .TitleIndex) → Marked db left true :=
    fun left hv ht hi => .Open 6 (by omega) (hr.schema h hholds hv ht hi)
      (hr.same htable hpath ht) (hr.content htable hpath ht) (by omega)
  have hrenamed := hopen renamed hr.version rfl (by simp [hr.indexes])
  by_cases hdistinct : titleIndexPath.Admits (rekeyed table)
  · have hnodup : (titleIndexPath.indexed table).Nodup := by
      rw [← indexed_rekeyed]
      exact hdistinct rfl
    set pathed : Db := { renamed with indexes := [titleIndexPath] } with hpathed
    set titled : Db := { renamed with indexes := [titleIndexPath, titleIndexTitleId] } with htitled
    set marked : Db := { titled with userVersion := 7 } with hmarked
    have hfirst : Sql.exec renamed (.CreateIndex titleIndexPath) = .ok pathed := by
      have hin : titleIndexPath.column ∈ (rekeyed table).definition.columns :=
        show ColumnName.Path ∈ TITLE_INDEX_V7.columns by decide
      have ht : renamed.tables titleIndexPath.table = some (rekeyed table) := hr.titles
      rw [exec_createIndex ht (by simp [hr.indexes]) hin, if_pos hdistinct, hr.indexes]
      rfl
    have hsecond : Sql.exec pathed (.CreateIndex titleIndexTitleId) = .ok titled := by
      have hin : titleIndexTitleId.column ∈ (rekeyed table).definition.columns :=
        show ColumnName.TitleId ∈ TITLE_INDEX_V7.columns by decide
      have hany : titleIndexTitleId.Admits (rekeyed table) := fun hu => by cases hu
      have ht : pathed.tables titleIndexTitleId.table = some (rekeyed table) := hr.titles
      rw [exec_createIndex ht (by simp [hpathed, titleIndexPath, titleIndexTitleId]) hin,
        if_pos hany]
      rfl
    have hfull : block 6 db =
        { states := [made, copied, dropped, renamed, pathed, titled, marked], final := marked,
          result := .ok () } := by
      show rekeyTitleIndex db = _
      rw [hrun, executeBatch_ok hfirst, executeBatch_ok hsecond, executeBatch_version]
    have hgood : Migratable db := by
      refine ⟨?_, ?_⟩
      · obtain ⟨jobs, hjobs, hj⟩ := h.present (t := .Jobs) rfl
        rw [hjobs]
        exact .inl (hj.columns (by decide))
      · rw [htable]
        exact fun _ => hnodup
    have hschema : Schema 7 marked := by
      refine ⟨rfl, fun t => ?_, rfl⟩
      have hsix := (hr.schema h hholds hr.version rfl (by simp [hr.indexes])).tables t
      have hc : columnsAt 7 t = columnsAt 6 t := by cases t <;> rfl
      rw [hc]
      exact hsix
    have hsame : Same db marked := hr.same htable hpath rfl
    have hcontent : Migratable marked ↔ Migratable db := hr.content htable hpath rfl
    refine .of_ok hfull ⟨hschema, hsame, hcontent, fun _ => hgood, ?_⟩ ?_
    · intro i hi
      match i with
      | i + 7 => rfl
    · exact .cons (.Torn hmade) (.cons (.Torn hcopied) (.cons (.Torn hdropped)
        (.cons hrenamed (.cons (hopen pathed hr.version rfl (by simp [hpathed, titleIndexPath]))
          (.cons (hopen titled hr.version rfl
              (by simp [htitled, titleIndexPath, titleIndexTitleId]))
            (.cons (.Open 7 (by omega) hschema hsame hcontent fun _ => hgood) .nil))))))
  · have hfail : Sql.exec renamed (.CreateIndex titleIndexPath) = .error .Constraint := by
      have hin : titleIndexPath.column ∈ (rekeyed table).definition.columns :=
        show ColumnName.Path ∈ TITLE_INDEX_V7.columns by decide
      have ht : renamed.tables titleIndexPath.table = some (rekeyed table) := hr.titles
      rw [exec_createIndex ht (by simp [hr.indexes]) hin, if_neg hdistinct]
    have hfull : block 6 db =
        { states := [made, copied, dropped, renamed], final := renamed,
          result := .error (.Sqlite .Constraint) } := by
      show rekeyTitleIndex db = _
      rw [hrun, executeBatch_error hfail]
    refine .of_error hfull ?_ ⟨[true, true, true], rfl⟩ (.cons (.Torn hmade)
      (.cons (.Torn hcopied) (.cons (.Torn hdropped) (.cons hrenamed .nil))))
    intro hm
    have hp := hm.paths
    rw [htable] at hp
    exact hdistinct fun _ => by rw [indexed_rekeyed]; exact hp hpath

theorem block_spec {n : Nat} {db : Db} (h : Schema n db) (hn : n ≤ 6) : BlockSpec n db := by
  match n with
  | 1 => exact createTitleIndexAndJobs_block h
  | 2 => exact titleJobs_block h
  | 4 => exact pathTitleIndex_block h
  | 6 => exact rekeyTitleIndex_block h
  | 0 | 3 | 5 =>
      refine create_block h (by omega) rfl rfl rfl ?_ (by decide) (by decide) (by decide) rfl
      intro t ht
      cases t <;> simp [columnsAt] at ht ⊢

theorem Marked.trans {db mid left : Db} {flag : Bool} (hs : Same db mid)
    (hc : Migratable mid ↔ Migratable db) (h : Marked mid left flag) : Marked db left flag := by
  cases h with
  | Torn ht => exact .Torn ht
  | Open n hn schema same content last =>
      exact .Open n hn schema (hs.trans same) (content.trans hc) fun h7 => hc.mp (last h7)

structure RunSpec (n : Nat) (db : Db) (ran : Sql.Ran Db StoreError Unit) : Prop where
  goes : Migratable db → ran.result = .ok ()
  stops : n ≤ 6 → ran.result = .ok () → Migratable db
  schema : ran.result = .ok () → Schema 7 ran.final
  same : ran.result = .ok () → Same db ran.final
  marked : ∃ flags, flags <+: (List.range' n (7 - n)).flatMap (resumable db) ∧
    List.Forall₂ (Marked db) ran.states flags

-- By induction on the versions still to come.
theorem run_spec (k : Nat) : ∀ {n : Nat} {db : Db}, n + k = 7 → Schema n db →
    RunSpec n db (blocks (List.range' n k) db) := by
  induction k with
  | zero =>
      intro n db hn h
      obtain rfl : n = 7 := by omega
      exact ⟨fun _ => rfl, by omega, fun _ => h, fun _ => .refl db, [], List.nil_prefix, .nil⟩
  | succ k ih =>
      intro n db hn h
      have hspec := block_spec h (by omega)
      have hk : 7 - n = k + 1 := by omega
      have hk' : 7 - (n + 1) = k := by omega
      simp only [List.range'_succ, blocks]
      cases hres : (block n db).result with
      | error e =>
          rw [Sql.Session.bind_apply, hres]
          obtain ⟨flags, hp, hm⟩ := hspec.marked
          refine ⟨fun hg => absurd hg (hspec.stops e hres), fun _ => ?_, ?_, ?_, flags, ?_, hm⟩
          · simp
          · simp
          · simp
          · rw [hk, List.range'_succ, List.flatMap_cons]
            exact hp.trans (List.prefix_append _ _)
      | ok u =>
          obtain ⟨hd, hm⟩ := hspec.done hres
          have hrest := ih (by omega) hd.schema
          rw [Sql.Session.bind_apply, hres]
          obtain ⟨flags, hp, hmr⟩ := hrest.marked
          refine ⟨fun hg => hrest.goes (hd.content.mpr hg), fun _ hok => ?_, hrest.schema,
            fun hok => hd.same.trans (hrest.same hok), resumable db n ++ flags, ?_, ?_⟩
          · by_cases h6 : n = 6
            · exact hd.last h6
            · exact hd.content.mp (hrest.stops (by omega) hok)
          · have hlater : (List.range' (n + 1) k).flatMap (resumable (block n db).final) =
                (List.range' (n + 1) k).flatMap (resumable db) := by
              rw [List.flatMap_def, List.flatMap_def]
              congr 1
              refine List.map_congr_left fun i hi => hd.marks i ?_
              have hle := (List.mem_range'_1.mp hi).1
              omega
            rw [hk', hlater] at hp
            rw [hk, List.range'_succ, List.flatMap_cons]
            exact (List.prefix_append_right_inj _).mpr hp
          · exact List.rel_append hm (hmr.imp fun left flag => .trans hd.same hd.content)

theorem migrate_spec {n : Nat} {db : Db} (h : Schema n db) (hn : n ≤ 7) :
    RunSpec n db (blocks (List.range' n (7 - n)) db) :=
  run_spec (7 - n) (by omega) h

-- From a database with a version's schema, opening completes just when its
-- contents have a place in the last version.
theorem completes_iff {n : Nat} {db : Db} (h : Schema n db) (hn : n ≤ 7)
    (hlast : n = 7 → Migratable db) : Completes db db ↔ Migratable db := by
  have hspec := migrate_spec h hn
  constructor
  · intro hc
    by_cases h7 : n = 7
    · exact hlast h7
    · have hres := hc.result
      rw [migrate_eq h.version hn] at hres
      exact hspec.stops (by omega) hres
  · intro hm
    have hres := hspec.goes hm
    refine ⟨?_, ?_, ?_⟩
    · rw [migrate_eq h.version hn]; exact hres
    · rw [migrate_eq h.version hn]; exact hspec.schema hres
    · rw [migrate_eq h.version hn]; exact hspec.same hres

theorem Completes.of_same {db left : Db} (hs : Same db left) (h : Completes left left) :
    Completes db left := ⟨h.result, h.schema, hs.trans h.same⟩

theorem Marked.completes_iff {db left : Db} {flag : Bool} (h : Marked db left flag) :
    Completes db left ↔ Migratable db ∧ flag = true := by
  cases h with
  | Torn ht => exact ⟨fun hc => absurd hc.result ht.fails, fun hm => by simp at hm⟩
  | Open n hn schema same content last =>
      have hiff := LocalStore.completes_iff schema hn fun h7 => content.mpr (last h7)
      constructor
      · intro hc
        have hself : Completes left left := by
          refine ⟨hc.result, hc.schema, ?_⟩
          have hres := hc.result
          rw [migrate_eq schema.version hn] at hres ⊢
          exact (migrate_spec schema hn).same hres
        exact ⟨content.mp (hiff.mp hself), rfl⟩
      · intro hm
        exact .of_same same (hiff.mpr (content.mpr hm.1))

-- A process may die after any statement of an opening. The next opening then
-- completes the migration with every row if and only if the contents have a
-- place in the last version and the statement is not one after which a new
-- table stands without its version marker or a table being rebuilt is missing.
theorem migrate_crash_iff {n : Nat} {db left : Db} (h : Schema n db) (hn : n ≤ 6)
    (statements : Nat) (hleft : leftAfter statements db = some left) :
    Completes db left ↔ Migratable db ∧ (reopens n db)[statements]? = some true := by
  have hopen : Marked db db true := .Open n (by omega) h (.refl db) Iff.rfl (by omega)
  obtain ⟨flags, hp, hm⟩ := (migrate_spec h (by omega)).marked
  have hall : List.Forall₂ (Marked db) (db :: (migrate db).states) (true :: true :: flags) := by
    rw [migrate_eq h.version (by omega)]
    exact .cons hopen (.cons hopen hm)
  have hflags : true :: true :: flags <+: reopens n db := by
    unfold reopens
    simpa using hp
  obtain ⟨hlen, hget⟩ := List.forall₂_iff_get.mp hall
  obtain ⟨hlt, hat⟩ := List.getElem?_eq_some_iff.mp hleft
  have hlt' : statements < (true :: true :: flags).length := hlen ▸ hlt
  have hmark := hget statements hlt hlt'
  have hflag : (reopens n db)[statements]? = some ((true :: true :: flags)[statements]) := by
    obtain ⟨rest, hrest⟩ := hflags
    rw [← hrest, List.getElem?_append_left hlt', List.getElem?_eq_getElem hlt']
  rw [hflag]
  simp only [List.get_eq_getElem, hat] at hmark
  rw [hmark.completes_iff]
  simp

-- A store of version 1 with one probe, and what it is after the first and the
-- second statement that make it version 2.
def probed : Db where
  userVersion := 1
  tables
    | .Probes => some {
        definition := PROBES
        rows := [fun
          | .EndpointFingerprint => .Text "abc"
          | _ => .Integer 4] }
    | _ => none

def probedIndexed : Db := probed.set .TitleIndex (some { definition := TITLE_INDEX })

theorem probed_schema : Schema 1 probed where
  version := rfl
  tables t := by
    cases t with
    | Probes => exact ⟨_, rfl, by decide, by decide, by decide, by decide⟩
    | _ => rfl
  indexes := by simp [probed]

theorem migrate_crash_iff_probed : Completes probed probedIndexed ↔
    Migratable probed ∧ (reopens 1 probed)[2]? = some true :=
  migrate_crash_iff probed_schema (by decide) 2 rfl

-- The table is there and the marker is not: each later opening tries to make
-- the table again.
theorem migrate_crash_loses : ¬ ∀ (n : Nat) (db left : Db) (statements : Nat), n ≤ 6 →
    Schema n db → leftAfter statements db = some left → Completes db left := by
  intro h
  have hc := (h 1 probed probedIndexed 2 (by decide) probed_schema rfl).result
  have hfail : (migrate probedIndexed).result = .error (.Sqlite (.TableExists .TitleIndex)) := rfl
  rw [hfail] at hc
  cases hc

end Mediaops.LocalStore
