import Mediaops.HomeLibrary
import Mediaops.Library.Text.Utf8

namespace Mediaops.Encode

-- The encode command: which file is encoded, the transcode and the replacement, and the
-- notes that let Home's record of a file follow its bytes.

open HomeLibrary
open TitleIndex (TitleIndexEntry)
open Transfer (Volume)
open Install (VerifiedConvertingHandle)

inductive VideoCodec where
  | Hevc | H264 | Other
  deriving DecidableEq, Repr

inductive Container where
  | Mp4 | Other
  deriving DecidableEq, Repr

structure ProbeMedia where
  codec : VideoCodec
  bitDepth : Nat
  width : Nat
  height : Nat
  container : Container
  hdr : Bool
  dolbyVision : Bool
  deriving DecidableEq, Repr

inductive EncodeDecision where
  | Keep | NvencH264 | Refuse
  deriving DecidableEq, Repr

def classify (kind : TitleKind) (media : ProbeMedia) : EncodeDecision :=
  if media.hdr || media.dolbyVision then .Refuse
  else if 2160 ≤ media.height then .Refuse
  else if kind = .Series ∧ media.codec = .Hevc ∧ media.container = .Mp4 then .Keep
  else if kind = .Movie ∧ media.codec = .Hevc ∧ 10 ≤ media.bitDepth ∧ media.container = .Mp4 ∧
      !media.hdr then .NvencH264
  else if media.codec = .H264 ∧ media.bitDepth ≤ 8 then .Keep
  else .Keep

def shouldStartNext (paused : Bool) (cap : Nat) : Bool := !paused && 0 < cap

def sessionCap (maxNvenc storedNvencCap : Nat) (hevc : Bool) : Nat :=
  if !hevc then 0 else min maxNvenc (max storedNvencCap 1)

-- What a run reads outside Home and the library: the probe and the encoder, the lookup of
-- a title by words, the desired state and the capabilities of the machine.
structure Host [UnicodeTables] where
  probe : Nat → Text → Except Text ProbeMedia
  ffmpeg : Nat → Text → Text → Volume → Int × Volume
  resolveTitle : Text → List TitleIndexEntry → Option TitleId
  maxNvenc : Nat
  nvencCap : Nat

structure EncodeRunData where
  ran : Nat
  skipped : Nat
  paused : Bool
  deriving DecidableEq, Repr

-- A run under way, with the lock as it was found once maintenance has begun.
structure Session where
  data : EncodeRunData
  cluster : HomeObject
  maintenance : Option Bool

section

variable [UnicodeTables] (b3 : Bytes → Blake3Hex) (host : Host)

section Transcode

def convertingPath (libraryRoot : Text) (titleId : TitleId) (filename : Text) :
    Except AppError Text := do
  let staged ← (PathSchema.stagingPath titleId (filename ++ ".converting".toList)).mapError
    fun e => .Runtime ("path: ".toList ++ e.display)
  pure (Path.join libraryRoot staged)

def backupPath (libraryRoot : Text) (titleId : TitleId) (filename : Text) : Text :=
  Path.join (Path.join (Path.join (Path.join libraryRoot "_incoming".toList)
    "backup-hevc-originals".toList) titleId.stagingToken) filename

-- Where the file goes, under the library root, and its name there.
def destination (titleId : TitleId) (placement : Placement) : Except AppError (Text × Text) := do
  let destRel ← (PathSchema.render titleId placement).mapError
    fun e => .Runtime ("path: ".toList ++ e.display)
  match Path.fileName destRel with
  | some filename => pure (destRel, filename)
  | none => throw (runtime "path: destination file name is not utf-8")

-- The encoder may be cut off in any state of its output.
def transcode (live converting : Text) : Prog World AppError Int :=
  Transfer.onVolume {
    run := fun pick v => pure (host.ffmpeg pick live converting v)
    partly := fun part v => (host.ffmpeg part live converting v).2
    fault := runtime "exec" }

def removeFile (path : Text) : Prog World AppError Unit :=
  (Install.remove path).mapError fun e => .Runtime e.display

def encodeToConverting (libraryRoot : Text) (titleId : TitleId) (placement : Placement) :
    Prog World AppError Text := do
  let (destRel, filename) ← Prog.lift (destination titleId placement)
  let converting ← Prog.lift (convertingPath libraryRoot titleId filename)
  -- The directory of the conversion.
  Transfer.step (runtime "io")
  let status ← transcode host (Path.join libraryRoot destRel) converting
  if status ≠ 0 then
    let _ ← (removeFile converting).attempt
    throw (runtime "ffmpeg failed")
  pure converting

-- A part of the run on the disk alone, with turns of its own. Others are kept out of the
-- library, and what they do elsewhere shows at the next call.
def onDisk {α : Type} (m : Prog Install.Disk InstallError α) : Prog World AppError α :=
  (Prog.zoom World.disk (fun disk w => { w with disk }) 512 m).mapError
    fun e => .Runtime ("install: ".toList ++ e.display)

def hashOf (path : Text) : Prog World AppError Blake3Hex :=
  (hashFile b3 path).mapError fun _ => runtime "io"

def replaceConverting (libraryRoot : Text) (titleId : TitleId) (placement : Placement)
    (converting : Text) : Prog World AppError (Text × Blake3Hex) := do
  let (_, filename) ← Prog.lift (destination titleId placement)
  let handle ← (VerifiedConvertingHandle.verify titleId converting placement).mapError
    fun e => .Runtime ("install: ".toList ++ e.display)
  let dest ← onDisk (Install.replace b3 libraryRoot titleId handle
    (backupPath libraryRoot titleId filename))
  let digest ← hashOf b3 dest
  pure (dest, digest)

end Transcode

section Notes

def saveNote (name : Text) (file : ProofFile) (w : World) : World :=
  { w with proofs := some (Table.upsert Prod.fst (name, file) w.entries) }

def noteName (path : Text) : Text := (b3 (Text.asBytes path)).text ++ ".json".toList

-- `create_dir_all`
def makeNotes : Prog World AppError Unit :=
  Prog.perform { run := fun _ w => pure ((), { w with proofs := some w.entries }), fault := runtime "io" }

-- `create_new`
def createNote (name : Text) : Prog World AppError Unit :=
  Prog.perform {
    run := fun _ w =>
      match w.note name with
      | none => pure ((), saveNote name .Torn w)
      | some _ => throw (runtime "File exists")
    fault := runtime "io" }

-- `write_all`: without its last byte a note is torn.
def writeNote (name : Text) (proof : PendingEncodeProof) : Prog World AppError Unit :=
  Prog.perform {
    run := fun _ w => pure ((), saveNote name (.Saved proof) w)
    partly := fun part w => if part = 0 then w else saveNote name (.Saved proof) w
    fault := runtime "io" }

def removeNote (name : Text) : Prog World AppError Unit :=
  Prog.perform {
    run := fun _ w =>
      match w.note name with
      | some _ => pure ((), { w with proofs := some (Table.erase Prod.fst name w.entries) })
      | none => throw (runtime "No such file or directory")
    fault := runtime "io" }

def persistEncodeProof (proof : PendingEncodeProof) : Prog World AppError Text := do
  let name := noteName b3 proof.path
  makeNotes
  createNote name
  writeNote name proof
  Transfer.step (runtime "io")
  Transfer.step (runtime "io")
  pure name

-- `read_dir` goes through its entries in any order. None stands for no directory.
def readNotes : Prog World AppError (Option (List Text)) :=
  Prog.perform {
    run := fun pick w =>
      let names := w.entries.map Prod.fst
      pure (if w.proofs.isSome then some ((names.permutations[pick]?).getD names) else none, w)
    fault := runtime "io" }

def readNote (name : Text) : Prog World AppError ProofFile :=
  Prog.perform {
    run := fun _ w =>
      match w.note name with
      | some file => pure (file, w)
      | none => throw (runtime "No such file or directory")
    fault := runtime "io" }

def drifted (message : String) (path : Text) : AppError := .DriftVerify (message.toList ++ path)

def recoverEncodeProof (cluster : HomeObject) (root : Text) (rows : List TitleIndexEntry)
    (proof : PendingEncodeProof) : Prog World AppError Unit := do
  let path ← Prog.lift (schemaRelative root proof.path)
  match rows.find? fun row => row.path = path && row.titleId.render = proof.titleId with
  | none => throw (runtime "pending encode has no matching Home Title proof")
  | some row =>
      if row.installB3 ≠ proof.installB3 ∨
          (row.currentB3 ≠ proof.previousB3 ∧ row.currentB3 ≠ proof.currentB3) then
        throw (drifted "pending encode conflicts with Home proof: " path)
      let actual ← hashOf b3 (Path.join root path)
      if actual = proof.currentB3 then
        publishRows b3 cluster
          [{ row with path, installB3 := proof.installB3, currentB3 := proof.currentB3 }] false
      else if actual ≠ proof.previousB3 then
        throw (drifted "pending encode file changed: " path)

def recoverEntries (cluster : HomeObject) (root : Text) (rows : List TitleIndexEntry) :
    List Text → Prog World AppError Unit
  | [] => pure ()
  | name :: names => do
      match ← readNote name with
      | .NotFile => recoverEntries cluster root rows names
      | .Torn => throw (runtime "EOF while parsing an object")
      | .Saved proof =>
          recoverEncodeProof b3 cluster root rows proof
          removeNote name
          recoverEntries cluster root rows names

def recoverEncodeProofs (cluster : HomeObject) (root : Text) : Prog World AppError Unit := do
  match ← readNotes with
  | none => pure ()
  | some names =>
      let rows ← rows cluster true
      recoverEntries b3 cluster root rows names

end Notes

section Run

def wrap (maintenance : Option Bool) (err : AppError) : AppError :=
  if maintenance.isSome then maintenanceFailure err else err

def probe (path : Text) : Prog World AppError ProbeMedia := do
  let pick ← Prog.pick
  Prog.lift ((host.probe pick path).mapError .Runtime)

-- Whether the file is to be encoded. Without a slot it is passed over unseen.
def judge (root : Text) (cap : Nat) (selected : Bool) (row : TitleIndexEntry) :
    Prog World AppError (Bool × Bool) := do
  let cluster ← (get .Cluster clusterName).mapError error
  let spec ← Prog.lift ((specOf cluster).mapError fun _ => runtime "invalid Cluster")
  if !shouldStartNext spec.encodePause cap then pure (spec.encodePause, false)
  else
    let path := Path.join root row.path
    let digest ← hashOf b3 path
    if digest ≠ row.currentB3 then throw (changed row.path)
    let media ← probe host path
    match classify row.titleId.kind media with
    | .Keep => pure (spec.encodePause, false)
    | .Refuse =>
        if selected then throw (.Policy "encode refused by policy (HDR/DV/2160p)".toList)
        else pure (spec.encodePause, false)
    | .NvencH264 => pure (spec.encodePause, true)

def pendingProof (row : TitleIndexEntry) (converted : Blake3Hex) : PendingEncodeProof where
  titleId := row.titleId.render
  path := row.path
  installB3 := row.installB3
  previousB3 := row.currentB3
  currentB3 := converted

-- `strip_prefix` of the root, or the path as it is.
def libraryRel (root path : Text) : Text := (Path.stripAbsolute path root).getD path

-- The encoding of one file and the hand over of its record.
def encodeFile (cluster : HomeObject) (root : Text) (row : TitleIndexEntry) :
    Prog World AppError Unit := do
  let (_, placement) ← Prog.lift ((PathSchema.parsePlacement row.path).mapError
    fun e => .Runtime e.display)
  let converting ← encodeToConverting host root row.titleId placement
  let converted ← hashOf b3 converting
  let name ← persistEncodeProof b3 (pendingProof row converted)
  let (dest, current) ← replaceConverting b3 root row.titleId placement converting
  (recordReplace b3 cluster (libraryRel root dest) current).mapError fun e => .Runtime <|
    "encoded file retained but Home proof publication failed: ".toList ++ e.display ++
      "; Cluster remains locked".toList
  removeNote name

-- Maintenance begins with the first file that is encoded.
def ensureMaintenance (session : Session) : Prog World AppError Session :=
  match session.maintenance with
  | some _ => pure session
  | none => do
      let (previouslyLocked, cluster) ← beginMaintenance b3
      pure { session with cluster, maintenance := some previouslyLocked }

def encodeRow (root : Text) (cap : Nat) (selected : Bool) (session : Session)
    (row : TitleIndexEntry) : Prog World AppError Session := do
  let (paused, encode) ← (judge b3 host root cap selected row).mapError
    (wrap session.maintenance)
  let session := { session with data := { session.data with paused } }
  if !encode then
    pure { session with data := { session.data with skipped := session.data.skipped + 1 } }
  else
    let session ← ensureMaintenance b3 session
    (encodeFile b3 host session.cluster root row).mapError maintenanceFailure
    pure { session with data := { session.data with ran := session.data.ran + 1 } }

def encodeRows (root : Text) (cap : Nat) (selected : Bool) :
    List TitleIndexEntry → Session → Prog World AppError Session
  | [], session => pure session
  | row :: rows, session => do
      let session ← encodeRow b3 host root cap selected session row
      encodeRows root cap selected rows session

def selectTitle (title : Option Text) (rows : List TitleIndexEntry) :
    Except AppError (Option TitleId) :=
  match title with
  | none => pure none
  | some raw =>
      match (TitleId.parse raw).toOption <|> host.resolveTitle raw rows with
      | some titleId => pure (some titleId)
      | none => throw (.Usage ("unknown library title: ".toList ++ raw))

def chosen (selected : Option TitleId) (row : TitleIndexEntry) : Bool :=
  match selected with
  | some titleId => row.titleId = titleId
  | none => row.titleId.kind = .Movie

def runHome (cluster : HomeObject) (title libraryRoot : Option Text) :
    Prog World AppError EncodeRunData := do
  let root ← requestedRoot cluster libraryRoot
  recoverEncodeProofs b3 cluster root
  let rows ← rows cluster false
  let selected ← Prog.lift (selectTitle host title rows)
  let rows := rows.filter (chosen selected)
  if selected.isSome ∧ rows = [] then
    throw (.Usage "no verified Home Title file for this title".toList)
  -- The desired state and the local database.
  Transfer.step (runtime "config")
  Transfer.step (runtime "state database")
  let cap := sessionCap host.maxNvenc host.nvencCap (0 < host.nvencCap)
  if selected.isSome ∧ cap = 0 then throw (.Policy "no NVENC capacity".toList)
  let spec ← Prog.lift (specOf cluster)
  let session ← encodeRows b3 host root cap selected.isSome rows {
    data := { ran := 0, skipped := 0, paused := spec.encodePause }
    cluster
    maintenance := none }
  match session.maintenance with
  | some wasLocked =>
      let _ ← finishMaintenance b3 wasLocked
      pure session.data
  | none => pure session.data

-- The command, under the lock that keeps a second one out.
def run (title libraryRoot : Option Text) : Prog World AppError EncodeRunData := do
  Transfer.step (runtime "lock")
  let cluster ← (get .Cluster clusterName).mapError error
  runHome b3 host cluster title libraryRoot

end Run

end

end Mediaops.Encode
