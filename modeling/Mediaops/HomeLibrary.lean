import Mediaops.Core.Paths
import Mediaops.Install.Replace
import Mediaops.Maintenance
import Mediaops.Pull
import Mediaops.TitleIndex

namespace Mediaops.HomeLibrary

-- The command line's view of the library: its files on the disk, and what Home has
-- recorded about each of them. Modes, progress lines and the text of transport errors
-- are not modelled.

open TitleIndex (TitleIndexEntry)
open Transfer (Mounted look openFile)

inductive AppError where
  | Usage (message : Text)
  | Policy (message : Text)
  | DriftVerify (message : Text)
  | Runtime (message : Text)
  deriving DecidableEq, Repr

def AppError.display : AppError → Text
  | Usage message | Policy message | DriftVerify message | Runtime message => message

def maintenanceFailure (err : AppError) : AppError :=
  let message := err.display ++
    "; Cluster remains locked; resolve the error and clear Cluster.spec.lock to resume copying".toList
  match err with
  | .Usage _ => .Usage message
  | .Policy _ => .Policy message
  | .DriftVerify _ => .DriftVerify message
  | .Runtime _ => .Runtime message

def runtime (message : String) : AppError := .Runtime message.toList

inductive ClientError where
  | Home (e : HomeError)
  | Unavailable
  deriving DecidableEq, Repr

namespace ClientError

def isNotFound : ClientError → Bool
  | Home (.NotFound _ _) => true
  | _ => false

def isConflict : ClientError → Bool
  | Home e => Maintenance.isConflict e
  | Unavailable => false

def display : ClientError → Text
  | Home e => e.display
  | Unavailable => "rpc".toList

end ClientError

def error (e : ClientError) : AppError := .Runtime e.display

-- A replacement under way, as it is noted under `_incoming/encode-proofs`.
structure PendingEncodeProof where
  titleId : Text
  path : Text
  installB3 : Blake3Hex
  previousB3 : Blake3Hex
  currentB3 : Blake3Hex
  deriving DecidableEq, Repr

-- What an entry of that directory holds. No part of a note's JSON text is JSON.
inductive ProofFile where
  | NotFile
  | Torn
  | Saved (proof : PendingEncodeProof)
  deriving DecidableEq, Repr

-- The library on its disk, the directory of notes if there is one, and the API's store.
structure World where
  disk : Install.Disk
  proofs : Option (List (Text × ProofFile))
  store : Store

instance : Mounted World where
  volume w := w.disk.volume
  mount volume w := { w with disk := { w.disk with volume } }
  volume_mount _ _ := rfl
  mount_volume _ := rfl

namespace World

def entries (w : World) : List (Text × ProofFile) := w.proofs.getD []

def note (name : Text) (w : World) : Option ProofFile :=
  (Table.lookup Prod.fst name w.entries).map Prod.snd

end World

-- A result with its error as a value, where other errors are raised.
def caught {ε α : Type} (m : Prog World ε α) : Prog World AppError (Except ε α) :=
  m.attempt.mapError fun _ => runtime "caught"

section

variable [UnicodeTables] (b3 : Bytes → Blake3Hex)

section Calls

-- The API verifies a proof on the same disk.
def serve (request : Serve.Request) (w : World) : Except HomeError Unit × World :=
  let env : Env := { now := 0, disk := Pull.diskOf b3 w.disk.volume }
  let (answer, store) := Serve.serve env w.store w.store .Import request
  (answer, { w with store })

-- A write may be served and its answer lost. The answer is the row as it is written.
def submission (request : Serve.Request) (obj : HomeObject) :
    Call World ClientError (Except HomeError HomeObject) where
  run _ w :=
    let (answer, after) := serve b3 request w
    pure (answer.map fun _ => (after.store.get obj.kind obj.metadata.name).getD obj, after)
  partly part w := if part = 0 then w else (serve b3 request w).2
  fault := .Unavailable

def submit (request : Serve.Request) (obj : HomeObject) : Prog World ClientError HomeObject := do
  let answer ← Prog.perform (submission b3 request obj)
  Prog.lift (answer.mapError .Home)

def apply (obj : HomeObject) : Prog World ClientError HomeObject := submit b3 (.Apply obj) obj

def patch (op : HomeOp) (obj : HomeObject) : Prog World ClientError HomeObject :=
  submit b3 (.Patch op obj) obj

def get (kind : Kind) (name : Text) : Prog World ClientError HomeObject :=
  Prog.perform {
    run := fun _ w =>
      match w.store.get kind name with
      | some obj => pure (obj, w)
      | none => throw (.Home (.NotFound kind name))
    fault := .Unavailable }

def list (kind : Kind) : Prog World ClientError (List HomeObject) :=
  Prog.perform {
    run := fun _ w => pure (w.store.list (some kind), w)
    fault := .Unavailable }

end Calls

def isForbiddenLibraryRoot (root : Text) : Bool :=
  root = [] ||
    (Path.components root).all (fun c => c = .RootDir || c = .CurDir) &&
      (Path.components root).contains .RootDir

def specOf (cluster : HomeObject) : Except AppError ClusterSpec :=
  match cluster.spec with
  | .Cluster spec => pure spec
  | _ => throw (runtime "Cluster has no Cluster spec")

def root (cluster : HomeObject) : Except AppError Text := do
  let spec ← specOf cluster
  if isForbiddenLibraryRoot spec.libraryRoot then
    throw (.Usage ("refusing library-root `".toList ++ spec.libraryRoot ++ "`".toList))
  pure spec.libraryRoot

-- Whether the root that was asked for is the Cluster's one is for the environment to say.
def requestedRoot (cluster : HomeObject) : Option Text → Prog World AppError Text
  | none => Prog.lift (root cluster)
  | some _ => do
      let root ← Prog.lift (root cluster)
      let same : Bool ← Transfer.onVolume {
        run := fun pick v => pure (pick = 0, v)
        fault := runtime "canonicalize" }
      if same then pure root
      else throw (.Usage <|
        "--library-root must match Cluster.spec.libraryRoot; use library relocate to change it".toList)

def schemaRelative (root path : Text) : Except AppError Text := do
  let relative ← if Path.isAbsolute path then
      match Path.stripAbsolute path root with
      | some rest => pure rest
      | none => throw (runtime "prefix not found")
    else pure path
  let (_, placement) ← (PathSchema.parsePlacement relative).mapError fun e => .Runtime e.display
  let canonical ← (PathSchema.renderPlacement placement).mapError fun e => .Runtime e.display
  if !Path.equal relative canonical then
    throw (.Usage ("noncanonical schema path: ".toList ++ relative))
  pure canonical

section Rows

def entryOf (titleId : TitleId) (file : TitleFileStatus) : TitleIndexEntry where
  titleId
  path := file.path
  installB3 := file.installB3
  currentB3 := file.currentB3

def rowsOf (includeDrifted : Bool) (title : HomeObject) : Except AppError (List TitleIndexEntry) :=
  match title.spec, title.status with
  | .Title spec, .Title status => do
      let titleId ← (TitleId.parse spec.titleId).mapError fun e => .Runtime e.display
      pure ((status.observedFiles.filter fun file => includeDrifted || !file.drifted).map
        (entryOf titleId))
  | _, _ => throw (runtime "invalid Title response")

def rowsFromObjects (includeDrifted : Bool) :
    List HomeObject → Except AppError (List TitleIndexEntry)
  | [] => pure []
  | title :: titles => do
      let rows ← rowsOf includeDrifted title
      let rest ← rowsFromObjects includeDrifted titles
      pure (rows ++ rest)

def relativeRows (root : Text) : List TitleIndexEntry → Except AppError (List TitleIndexEntry)
  | [] => pure []
  | row :: rows => do
      let path ← schemaRelative root row.path
      let rest ← relativeRows root rows
      pure ({ row with path } :: rest)

def rows (cluster : HomeObject) (includeDrifted : Bool) :
    Prog World AppError (List TitleIndexEntry) := do
  let titles ← (list .Title).mapError error
  let root ← Prog.lift (root cluster)
  let found ← Prog.lift (rowsFromObjects includeDrifted titles)
  Prog.lift (relativeRows root found)

end Rows

section Publication

inductive HashError where
  | NotFound
  | Io
  deriving DecidableEq, Repr

-- `File::open`, which a directory or a link passes for no file, and `of_reader`.
def hashFile (path : Text) : Prog World HashError Blake3Hex := do
  let i ← look .Io fun v =>
    match v.files.node path with
    | some (.File i) => pure i
    | some .Other => throw .Io
    | none => throw .NotFound
  let bytes ← look .Io fun v => pure (v.files.data i)
  pure (b3 bytes)

def changed (path : Text) : AppError := .DriftVerify ("library file changed: ".toList ++ path)

-- One row over the files observed so far.
def observeRow (root : Text) (allowMissing : Bool) (files : List TitleFileStatus)
    (row : TitleIndexEntry) : Prog World AppError (List TitleFileStatus) := do
  let path ← Prog.lift (schemaRelative root row.path)
  let drifted ← match ← caught (hashFile b3 (Path.join root path)) with
    | .ok digest => pure (decide (digest ≠ row.currentB3))
    | .error .NotFound =>
        if allowMissing then pure true else throw (runtime "No such file or directory")
    | .error .Io => throw (runtime "io error")
  if drifted && !allowMissing then throw (changed path)
  match files.find? fun file => file.path = path with
  | some existing =>
      if existing.installB3 ≠ row.installB3 then
        throw (.DriftVerify ("install digest is immutable: ".toList ++ path))
  | none => pure ()
  pure (files.filter (fun file => file.path ≠ path) ++
    [{ path, installB3 := row.installB3, currentB3 := row.currentB3, drifted }])

def observeRows (root : Text) (allowMissing : Bool) :
    List TitleIndexEntry → List TitleFileStatus → Prog World AppError (List TitleFileStatus)
  | [], files => pure files
  | row :: rows, files => do
      let files ← observeRow b3 root allowMissing files row
      observeRows root allowMissing rows files

-- A Title that is not there yet is opened without observations. None asks for another try.
def openTitle (titleId : Text) (last : Bool) : Prog World AppError (Option HomeObject) := do
  match ← caught (get .Title titleId) with
  | .ok object => pure (some object)
  | .error e =>
      if e.isNotFound then
        match ← caught (apply b3 (HomeObject.new .Title titleId
          (.Title { titleId, desiredPresent := true }) (.Title {}))) with
        | .ok object => pure (some object)
        | .error e => if e.isConflict && !last then pure none else throw (error e)
      else throw (error e)

def observed (files : List TitleFileStatus) : TitleStatus where
  files := files.insertionSort fun a b => a.path ≤ b.path
  drifted := files.any TitleFileStatus.drifted

def publishTitle (root : Text) (allowMissing : Bool) (titleId : Text) (rows : List TitleIndexEntry) :
    Nat → Prog World AppError Unit
  | 0 => pure ()
  | attempts + 1 => do
      match ← openTitle b3 titleId (attempts = 0) with
      | none => publishTitle root allowMissing titleId rows attempts
      | some object =>
          match object.status with
          | .Title status =>
              let files ← observeRows b3 root allowMissing rows status.observedFiles
              match ← caught (patch b3 .PatchStatus { object with
                status := .Title (observed files) }) with
              | .ok _ => pure ()
              | .error e =>
                  if e.isConflict && attempts ≠ 0 then
                    publishTitle root allowMissing titleId rows attempts
                  else throw (error e)
          | _ => throw (runtime "Title has no observed status")

-- A `BTreeMap` by the rendered id.
def grouped (rows : List TitleIndexEntry) : List (Text × List TitleIndexEntry) :=
  ((rows.map fun row => row.titleId.render).dedup.insertionSort (· ≤ ·)).map fun titleId =>
    (titleId, rows.filter fun row => row.titleId.render = titleId)

def publishGroups (root : Text) (allowMissing : Bool) :
    List (Text × List TitleIndexEntry) → Prog World AppError Unit
  | [] => pure ()
  | (titleId, rows) :: groups => do
      publishTitle b3 root allowMissing titleId rows 5
      publishGroups root allowMissing groups

def publishRows (cluster : HomeObject) (rows : List TitleIndexEntry) (allowMissing : Bool) :
    Prog World AppError Unit := do
  let root ← Prog.lift (root cluster)
  publishGroups b3 root allowMissing (grouped rows)

-- Keep the immutable install digest when encoding changes current bytes.
def recordReplace (cluster : HomeObject) (path : Text) (digest : Blake3Hex) :
    Prog World AppError Unit := do
  let rows ← rows cluster true
  match rows.find? fun row => row.path = path with
  | none => throw (runtime "no Home Title proof for encoded file")
  | some row => publishRows b3 cluster [{ row with path, currentB3 := digest }] false

end Publication

section Maintenance

def setLock (locked : Bool) : Nat → Prog World AppError (Bool × HomeObject)
  | 0 => throw (runtime "Cluster remained busy during maintenance")
  | attempts + 1 => do
      let cluster ← (get .Cluster clusterName).mapError error
      match cluster.spec with
      | .Cluster spec =>
          match ← caught (patch b3 .PatchSpec { cluster with
            spec := .Cluster { spec with lock := locked } }) with
          | .ok written => pure (spec.lock, written)
          | .error e =>
              if e.isConflict && attempts ≠ 0 then setLock locked attempts else throw (error e)
      | _ => throw (runtime "invalid Cluster")

def finishMaintenance (previouslyLocked : Bool) : Prog World AppError HomeObject := do
  let (_, cluster) ← (setLock b3 previouslyLocked 5).mapError maintenanceFailure
  pure cluster

-- Whether the Cluster was locked before, and the Cluster as it is now.
def beginMaintenance : Prog World AppError (Bool × HomeObject) := do
  let (previouslyLocked, cluster) ← setLock b3 true 5
  let jobs ← ((list .Job).mapError error).mapError maintenanceFailure
  if jobs.any Maintenance.isActive then
    let _ ← finishMaintenance b3 previouslyLocked
    throw (.Policy "wait for bound Pull Jobs to finish before library maintenance".toList)
  pure (previouslyLocked, cluster)

end Maintenance

end

end Mediaops.HomeLibrary
