import Mediaops.Core.JobMachine
import Mediaops.Library.Autocommit
import Mathlib.Data.List.Sort

namespace Mediaops.JobsTable

-- The jobs table of the local store. Each call has a connection of its own, and what
-- it writes is one transaction.

open Jobs (JobState JobKind)
open JobMachine

-- The columns of a row as they are stored.
structure Row where
  id : Int
  titleId : Text
  kind : Text
  state : Text
  parentJobId : Option Int
  deriving DecidableEq, Repr

inductive StoreError where
  | Sqlite (text : Text)
  | Job (e : JobError)
  | TitleId (e : TitleIdError)
  | JobNotFound (id : JobId)
  | JobConflict (id : JobId)
  deriving DecidableEq

abbrev JobsTx (α : Type) := Tx StoreError (List Row) α

def sqliteFault : StoreError := .Sqlite "statement failed".toList

def foreignKeyFault : StoreError := .Sqlite "FOREIGN KEY constraint failed".toList

def fullFault : StoreError := .Sqlite "database or disk is full".toList

-- The largest rowid there can be.
def lastRowid : Int := 9223372036854775807

-- `INTEGER PRIMARY KEY`: one more than the largest rowid. Once that is the last there is,
-- the database comes up with others, `pick`, and gives up when they are taken.
def newRowid (pick : Int) (rows : List Row) : Option Int :=
  match (rows.map Row.id).max? with
  | none => some 1
  | some top =>
      if top < lastRowid then some (top + 1)
      else if (0 < pick ∧ pick ≤ lastRowid) ∧ pick ∉ rows.map Row.id then some pick
      else none

def byId (a b : Row) : Prop := a.id ≤ b.id

instance : DecidableRel byId := fun a b => inferInstanceAs (Decidable (a.id ≤ b.id))

section Statements

-- The insert answers with the rowid.
def insert (pick : Int) (titleId kind state : Text) (parentJobId : Option Int) (rows : List Row) :
    Except StoreError (Int × List Row) :=
  match newRowid pick rows with
  | none => .error fullFault
  | some id =>
      if ∀ parent ∈ parentJobId, parent ∈ id :: rows.map Row.id then
        .ok (id, rows ++ [{ id, titleId, kind, state, parentJobId }])
      else .error foreignKeyFault

def isAt (id : Int) (state : Text) (row : Row) : Prop := row.id = id ∧ row.state = state

instance (id : Int) (state : Text) : DecidablePred (isAt id state) :=
  fun row => inferInstanceAs (Decidable (row.id = id ∧ row.state = state))

-- `UPDATE jobs SET state = ?1 WHERE id = ?2 AND state = ?3`
def update (next : Text) (id : Int) (state : Text) (rows : List Row) :
    Except StoreError (Nat × List Row) :=
  .ok ((rows.filter (isAt id state)).length,
    rows.map fun row => if isAt id state row then { row with state := next } else row)

end Statements

variable [UnicodeTables]

def jobFromRow (row : Row) : Except StoreError Job := do
  let id ← (JobId.new row.id).mapError .Job
  let titleId ← (TitleId.parse row.titleId).mapError .TitleId
  let kind ← (JobKind.parse row.kind).mapError .Job
  let state ← (JobState.parse kind row.state).mapError .Job
  let parentJobId ← row.parentJobId.mapM fun raw => (JobId.new raw).mapError .Job
  (Job.new id titleId state parentJobId).mapError .Job

def listJobs : JobsTx (List Job) :=
  Tx.query sqliteFault fun rows => (rows.insertionSort byId).mapM jobFromRow

def listJobsByTitle (titleId : TitleId) : JobsTx (List Job) :=
  Tx.query sqliteFault fun rows =>
    ((rows.filter fun row => row.titleId = titleId.render).insertionSort byId).mapM jobFromRow

def getJob (id : JobId) : JobsTx (Option Job) :=
  Tx.query sqliteFault fun rows => (rows.find? fun row => row.id = id.raw).mapM jobFromRow

def parentKindMatches (parent : JobId) (expected : JobKind) : JobsTx Unit := do
  match ← getJob parent with
  | none => throw (.JobNotFound parent)
  | some job =>
      if job.kind ≠ expected then throw (.Job (.ParentKindMismatch parent expected job.kind))

def isOpenWantOf (titleId : TitleId) (row : Row) : Bool :=
  row.titleId = titleId.render && row.kind = "want".toList && row.state = "open".toList

def openWant (titleId : TitleId) : JobsTx (Option Job) :=
  Tx.query sqliteFault fun rows =>
    ((rows.filter (isOpenWantOf titleId)).insertionSort byId).head?.mapM jobFromRow

def validateParent (kind : JobKind) (parentJobId : Option JobId) : JobsTx Unit :=
  match kind, parentJobId with
  | .Want, some _ | .Hold, some _ => throw (.Job (.UnexpectedParent kind))
  | .Encode, some parent => parentKindMatches parent .Pull
  | .Pull, some parent => parentKindMatches parent .Want
  | _, none => pure ()

section Calls

def insertJob (pick : Int) (kind : JobKind) (titleId : TitleId) (parentJobId : Option JobId) :
    JobsTx Job := do
  let state := JobState.initial kind
  let raw ← Tx.execute sqliteFault
    (insert pick titleId.render kind.asStr state.asStr (parentJobId.map JobId.raw))
  let id ← Tx.lift ((JobId.new raw).mapError .Job)
  Tx.lift ((Job.new id titleId state parentJobId).mapError .Job)

-- An open want is not entered twice.
def createBody (pick : Int) (kind : JobKind) (titleId : TitleId) (parentJobId : Option JobId) :
    JobsTx Job := do
  validateParent kind parentJobId
  if kind = .Want then
    match ← openWant titleId with
    | some existing => pure existing
    | none => insertJob pick kind titleId parentJobId
  else insertJob pick kind titleId parentJobId

def createJob (pick : Int) (kind : JobKind) (titleId : TitleId) (parentJobId : Option JobId) :
    JobsTx Job :=
  Tx.atomically sqliteFault (createBody pick kind titleId parentJobId)

def advanceBody (id : JobId) (event : JobEvent) : JobsTx Job := do
  match ← getJob id with
  | none => throw (.JobNotFound id)
  | some job => do
      let next ← Tx.lift ((job.advance event).mapError .Job)
      let n ← Tx.execute sqliteFault (update next.state.asStr id.raw job.state.asStr)
      if n = 0 then throw (.JobConflict id)
      pure next

def advanceJob (id : JobId) (event : JobEvent) : JobsTx Job :=
  Tx.atomically sqliteFault (advanceBody id event)

end Calls

-- A job as it is stored.
def rowOf (job : Job) : Row where
  id := job.id.raw
  titleId := job.titleId.render
  kind := job.kind.asStr
  state := job.state.asStr
  parentJobId := job.parentJobId.map JobId.raw

end Mediaops.JobsTable
