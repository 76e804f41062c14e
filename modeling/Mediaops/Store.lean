import Mediaops.Core.Validate
import Mediaops.Library.Journal
import Mediaops.Library.Transaction

namespace Mediaops

-- The Home API object store, `api.db`.

def watchHistoryLimit : Int := 4096
def watchPageLimit : Nat := 256

inductive WatchType where
  | Added | Modified | Deleted
  deriving DecidableEq, Repr

structure StoreEvent where
  watch : WatchType
  object : HomeObject
  deriving DecidableEq, Repr

def StoreEvent.revision (ev : StoreEvent) : Int := ev.object.metadata.resourceVersion

inductive StoreError where
  | Sqlite (message : Text)
  | Home (error : HomeError)
  deriving DecidableEq, Repr

def StoreError.display : StoreError → Text
  | Sqlite message => "sqlite: ".toList ++ message
  | Home error => error.display

-- The three tables of the file: `objects` with primary key (kind, name), the two
-- counters of `meta`, and `history` with the revision as primary key.
structure Store where
  objects : List HomeObject
  rv : Int
  floor : Int
  history : List StoreEvent
  deriving DecidableEq, Repr

abbrev StoreTx (α : Type) := Tx StoreError Store α

def HomeObject.key (obj : HomeObject) : Kind × Text := (obj.kind, obj.metadata.name)

-- The columns of a row; the API version is not one of them.
def HomeObject.row (obj : HomeObject) : HomeObject := { obj with apiVersion := homeApiVersion }

def defaultName : Kind → Text
  | .Cluster => clusterName
  | .Secret => secretName
  | _ => []

def uidOf (kind : Kind) (rv : Int) : Text := kind.storeKey ++ "-".toList ++ Text.decimalInt rv

namespace Store

-- A new file after its migrations.
def empty : Store := { objects := [], rv := 0, floor := 0, history := [] }

def sqliteFault : StoreError := .Sqlite "statement failed".toList

def home (e : HomeError) : StoreError := .Home e

def getObject (kind : Kind) (name : Text) : StoreTx (Option HomeObject) := do
  Tx.statement sqliteFault
  Tx.read fun s => Table.lookup HomeObject.key (kind, name) s.objects

def currentRevision : StoreTx Int := do
  Tx.statement sqliteFault
  Tx.read Store.rv

-- Past the largest integer the column turns into a floating-point number, and
-- reading it back as an integer is an error.
def nextRv : StoreTx Int := do
  Tx.statement sqliteFault
  Tx.update fun s => { s with rv := s.rv + 1 }
  let rv ← currentRevision
  if i64Max < rv then throw (.Sqlite "Invalid column type Real at index: 0, name: value".toList)
  pure rv

def upsert (obj : HomeObject) : StoreTx Unit := do
  Tx.statement sqliteFault
  Tx.update fun s => { s with objects := Table.upsert HomeObject.key obj.row s.objects }

def remove (kind : Kind) (name : Text) : StoreTx Unit := do
  Tx.statement sqliteFault
  Tx.update fun s => { s with objects := Table.erase HomeObject.key (kind, name) s.objects }

-- Append to the history, drop what is older than the limit and move the floor.
def recordEvent (obj : HomeObject) (watch : WatchType) : StoreTx Unit := do
  let ev : StoreEvent := { watch, object := obj.row }
  Tx.statement sqliteFault
  if (← Tx.read Store.history).any (fun old => old.revision = ev.revision) then
    throw (.Sqlite "UNIQUE constraint failed: history.resource_version".toList)
  Tx.update fun s => { s with history := s.history ++ [ev] }
  let compactedThrough := obj.metadata.resourceVersion - watchHistoryLimit
  Tx.statement sqliteFault
  Tx.update fun s => { s with
    history := s.history.filter fun old => compactedThrough < old.revision }
  Tx.statement sqliteFault
  Tx.update fun s => { s with floor := max s.floor compactedThrough }

def transaction {α : Type} (s : Store) (faults : List Bool) (body : StoreTx α) :
    Except StoreError α × Store :=
  (Tx.atomically sqliteFault body).run s faults

-- What an apply makes of its argument, given the stored object of that name.
def applyOver (obj : HomeObject) : Option HomeObject → Except StoreError (HomeObject × WatchType)
  | some prev =>
      if obj.metadata.resourceVersion ≠ prev.metadata.resourceVersion then
        throw (home (.Conflict obj.kind obj.metadata.name))
      else
        let generation := if obj.spec ≠ prev.spec then prev.metadata.generation + 1
          else prev.metadata.generation
        -- Apply replaces the spec and preserves the observed status, unless the
        -- status is all there is.
        let status := if obj.spec.isStatusOnly then obj.status else prev.status
        pure ({ obj with
          metadata := { obj.metadata with generation, uid := prev.metadata.uid }, status },
          .Modified)
  | none =>
      if obj.metadata.resourceVersion ≠ 0 then
        throw (home (.Conflict obj.kind obj.metadata.name))
      else if obj.metadata.name = [] then
        throw (home (invalid "object name is required"))
      else
        let status := if obj.kind = .Want then StatusBody.empty .Want else obj.status
        pure ({ obj with metadata := { obj.metadata with generation := 1, uid := [] }, status },
          .Added)

def applyTx (arg : HomeObject) : StoreTx (HomeObject × WatchType) := do
  let name := if arg.metadata.name = [] then defaultName arg.kind else arg.metadata.name
  let arg := { arg with metadata := { arg.metadata with name } }
  let existing ← getObject arg.kind arg.metadata.name
  let (obj, watch) ← Tx.lift (applyOver arg existing)
  let rv ← nextRv
  let uid := if obj.metadata.uid = [] then uidOf obj.kind rv else obj.metadata.uid
  let obj := { obj with metadata := { obj.metadata with resourceVersion := rv, uid } }
  upsert obj
  recordEvent obj watch
  pure (obj, watch)

def apply (s : Store) (obj : HomeObject) (faults : List Bool := []) :=
  s.transaction faults (applyTx obj)

-- The stored object, if it still has the revision the caller read.
def getExpected (kind : Kind) (name : Text) (expectedRv : Int) : StoreTx HomeObject := do
  match ← getObject kind name with
  | none => throw (home (.NotFound kind name))
  | some obj =>
      if expectedRv ≠ obj.metadata.resourceVersion then throw (home (.Conflict kind name))
      pure obj

def modify (obj : HomeObject) : StoreTx HomeObject := do
  let rv ← nextRv
  let obj := { obj with metadata := { obj.metadata with resourceVersion := rv } }
  upsert obj
  recordEvent obj .Modified
  pure obj

def patchStatusTx (kind : Kind) (name : Text) (status : StatusBody) (expectedRv : Int) :
    StoreTx HomeObject := do
  let obj ← getExpected kind name expectedRv
  modify { obj with status }

def patchStatus (s : Store) (kind : Kind) (name : Text) (status : StatusBody) (expectedRv : Int)
    (faults : List Bool := []) :=
  s.transaction faults (patchStatusTx kind name status expectedRv)

def patchSpecTx (kind : Kind) (name : Text) (spec : Spec) (expectedRv : Int) :
    StoreTx HomeObject := do
  let obj ← getExpected kind name expectedRv
  let generation := if obj.spec ≠ spec then obj.metadata.generation + 1
    else obj.metadata.generation
  modify { obj with spec, metadata := { obj.metadata with generation } }

def patchSpec (s : Store) (kind : Kind) (name : Text) (spec : Spec) (expectedRv : Int)
    (faults : List Bool := []) :=
  s.transaction faults (patchSpecTx kind name spec expectedRv)

-- The tombstone gets a revision of its own.
def deleteTx (kind : Kind) (name : Text) (expectedRv : Int) : StoreTx HomeObject := do
  let obj ← getExpected kind name expectedRv
  remove kind name
  let rv ← nextRv
  let obj := { obj with metadata := { obj.metadata with resourceVersion := rv } }
  recordEvent obj .Deleted
  pure obj

def delete (s : Store) (kind : Kind) (name : Text) (expectedRv : Int)
    (faults : List Bool := []) :=
  s.transaction faults (deleteTx kind name expectedRv)

def create (obj : HomeObject) : StoreTx HomeObject := do
  let rv ← nextRv
  let obj := { obj with
    metadata := { obj.metadata with generation := 1, resourceVersion := rv,
                                    uid := uidOf obj.kind rv } }
  upsert obj
  recordEvent obj .Added
  pure obj

section

variable [UnicodeTables]

-- The Job of one entry, with its Title when there is none yet.
def scheduleEntry (syncName : Text) (entry : SyncEntry) : StoreTx SyncEntry := do
  if entry.disposition ≠ .WouldQueue then pure entry
  else match entry.job with
    | none => throw (home (invalid "queued Sync entry needs a Job snapshot"))
    | some spec =>
        if spec.syncName ≠ syncName ∨ entry.jobName = [] ∨ spec.nodeName ≠ [] then
          throw (home (invalid "invalid Sync Job authority"))
        if (← getObject .Job entry.jobName).isSome then
          throw (home (.Conflict .Job entry.jobName))
        let job := HomeObject.new .Job entry.jobName (.Job spec) (StatusBody.empty .Job)
        Tx.lift (job.validate.mapError home)
        if (← getObject .Title spec.titleId).isNone then
          let _ ← create (HomeObject.new .Title spec.titleId
            (.Title { titleId := spec.titleId, desiredPresent := true }) (StatusBody.empty .Title))
        let job ← create job
        pure { entry with jobUid := job.metadata.uid, disposition := .Queued }

def scheduleEntries (syncName : Text) : List SyncEntry → StoreTx (List SyncEntry)
  | [] => pure []
  | entry :: rest => do
      let entry ← scheduleEntry syncName entry
      let rest ← scheduleEntries syncName rest
      pure (entry :: rest)

def isCaptured : StatusBody → Bool
  | .Sync st => st.phase = .Captured
  | _ => false

-- Commit the finite request and its new Jobs in one transaction.
def scheduleSyncTx (expectedSnapshotRv : Int) (request : HomeObject) (now : Int) :
    StoreTx HomeObject := do
  let rv ← currentRevision
  let stored ← getObject .Sync request.metadata.name
  if rv ≠ expectedSnapshotRv ∨ ¬stored.any (fun old =>
      old.metadata.resourceVersion = request.metadata.resourceVersion && isCaptured old.status) then
    throw (home (.Conflict .Sync request.metadata.name))
  match request.status with
  | .Sync status =>
      if status.deadlineUnix ≤ now then
        throw (home (invalid "Sync planning deadline expired before commit"))
      let entries ← scheduleEntries request.metadata.name status.entries
      modify { request with status := .Sync { status with
        entries, phase := .Scheduled,
        message := "Planning complete; Pull Jobs execute independently".toList } }
  | _ => throw (home (invalid "Sync status required"))

def scheduleSync (s : Store) (expectedSnapshotRv : Int) (request : HomeObject) (now : Int)
    (faults : List Bool := []) :=
  s.transaction faults (scheduleSyncTx expectedSnapshotRv request now)

end

def get (s : Store) (kind : Kind) (name : Text) : Option HomeObject :=
  Table.lookup HomeObject.key (kind, name) s.objects

def ofKind (kind : Option Kind) (obj : HomeObject) : Bool := kind.all fun k => obj.kind = k

-- `ORDER BY kind, name`; a text column compares as its scalar values do.
def listOrder (a b : HomeObject) : Prop :=
  a.kind.storeKey < b.kind.storeKey ∨
    (a.kind.storeKey = b.kind.storeKey ∧ a.metadata.name ≤ b.metadata.name)

instance : DecidableRel listOrder := fun _ _ => inferInstanceAs (Decidable (_ ∨ _))

def list (s : Store) (kind : Option Kind) : List HomeObject :=
  (s.objects.filter (ofKind kind)).insertionSort listOrder

def snapshot (s : Store) (kind : Option Kind) : List HomeObject × Int :=
  ((s.list kind).insertionSort fun a b =>
    a.metadata.resourceVersion ≤ b.metadata.resourceVersion, s.rv)

-- One page of the history after a cursor, unless part of it is gone.
def eventsAfter (s : Store) (after : Int) : Except StoreError (List StoreEvent) :=
  if after < s.floor then throw (home (.Expired after (min (s.floor + 1) i64Max)))
  else pure (Journal.page StoreEvent.revision watchPageLimit s.history after)

end Store

end Mediaops
