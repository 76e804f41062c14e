import Mediaops.Core.Home
import Mediaops.Library.Faults
import Mediaops.Library.Files

namespace Mediaops

namespace Transfer

-- Pulls of one remote file into staging, by ranges, that go on after a stop.

def sidecarVersion : Nat := 1
def maxRange : Nat := 64 * 1048576

inductive TransferError where
  | Io (path : Text)
  | Sidecar (message : Text)
  | Path (message : Text)
  | Rpc
  | ShortRange (offset want got : Nat)
  deriving DecidableEq, Repr

def TransferError.sidecar (message : String) : TransferError := .Sidecar message.toList
def TransferError.path (message : String) : TransferError := .Path message.toList

structure SidecarRange where
  offset : Nat
  len : Nat
  blake3 : Text
  deriving DecidableEq, Repr

structure Sidecar where
  remoteRoot : Text := []
  remotePath : Text := []
  version : Nat := sidecarVersion
  fileLen : Nat
  rangeLen : Nat
  ranges : List SidecarRange := []
  deriving DecidableEq, Repr

namespace Sidecar

def has (sidecar : Sidecar) (offset len : Nat) : Bool :=
  sidecar.ranges.any fun r => r.offset == offset && r.len == len

def record (sidecar : Sidecar) (offset len : Nat) (blake3 : Text) : Sidecar :=
  if sidecar.has offset len then sidecar
  else { sidecar with ranges := sidecar.ranges ++ [{ offset, len, blake3 }] }

end Sidecar

-- Byte ranges that cover the file in pieces of `rangeLen`, from `offset` on.
def planFrom (fileLen rangeLen : Nat) : Nat → Nat → List (Nat × Nat)
  | 0, _ => []
  | fuel + 1, offset =>
      if offset < fileLen then
        let len := min rangeLen (fileLen - offset)
        (offset, len) :: planFrom fileLen rangeLen fuel (offset + len)
      else []

-- No piece is empty, so there are at most `fileLen` of them.
def planRanges (fileLen rangeLen : Nat) : List (Nat × Nat) :=
  if fileLen = 0 ∨ rangeLen = 0 then [] else planFrom fileLen rangeLen fileLen 0

def remaining (planned : List (Nat × Nat)) (sidecar : Sidecar) : List (Nat × Nat) :=
  planned.filter fun (offset, len) => !sidecar.has offset len

structure PendingFile where
  index : Nat
  remaining : List (Nat × Nat)
  deriving DecidableEq, Repr

-- One range of each file, until the slots are used up.
def firstSlots : Nat → List PendingFile → List (Nat × Nat × Nat) × List PendingFile
  | 0, files => ([], files)
  | _, [] => ([], [])
  | slots + 1, file :: files =>
      match file.remaining with
      | [] =>
          let (taken, files) := firstSlots (slots + 1) files
          (taken, file :: files)
      | range :: rest =>
          let (taken, files) := firstSlots slots files
          ((file.index, range) :: taken, { file with remaining := rest } :: files)

def pendingBytes (file : PendingFile) : Nat := (file.remaining.map Prod.snd).sum

-- Where the file with the most bytes left stands; `max_by_key` keeps the last of
-- several greatest elements.
def largestAt : List PendingFile → Option (Nat × PendingFile)
  | [] => none
  | file :: files =>
      match largestAt files with
      | none => if file.remaining = [] then none else some (0, file)
      | some (pos, best) =>
          if file.remaining ≠ [] ∧ pendingBytes best < pendingBytes file then some (0, file)
          else some (pos + 1, best)

def popRange (file : PendingFile) : PendingFile := { file with remaining := file.remaining.tail }

-- Then the largest remaining file is split further.
def splitSlots : Nat → List PendingFile → List (Nat × Nat × Nat) × List PendingFile
  | 0, files => ([], files)
  | slots + 1, files =>
      match largestAt files with
      | none => ([], files)
      | some (pos, file) =>
          match file.remaining with
          | [] => ([], files)
          | range :: _ =>
              let (taken, files) := splitSlots slots (files.modify pos popRange)
              ((file.index, range) :: taken, files)

def takeSlots (files : List PendingFile) (n : Nat) : List (Nat × Nat × Nat) × List PendingFile :=
  let (first, files) := firstSlots n files
  let (more, files) := splitSlots (n - first.length) files
  (first ++ more, files)

-- What the path of a sidecar holds. Its JSON text is read back as it was saved.
inductive SidecarFile where
  | Absent
  | NotFile
  | Unreadable
  | Saved (sidecar : Sidecar)
  deriving DecidableEq, Repr

-- The volume under the library root. A path is the text handed to the kernel; the
-- program spells each of its paths in one way.
structure Volume where
  files : Files Text
  sidecars : Text → SidecarFile

-- A world with a volume in it.
class Mounted (W : Type) where
  volume : W → Volume
  mount : Volume → W → W
  volume_mount : ∀ v w, volume (mount v w) = v
  mount_volume : ∀ w, mount (volume w) w = w

instance : Mounted Volume := ⟨id, fun v _ => v, fun _ _ => rfl, fun _ => rfl⟩

section

variable {W : Type} [Mounted W] {ε α : Type}

def onVolume (c : Call Volume ε α) : Prog W ε α :=
  Prog.perform (c.on Mounted.volume Mounted.mount)

-- A call that only looks.
def look (fault : ε) (f : Volume → Except ε α) : Prog W ε α :=
  onVolume { run := fun _ v => (f v).map fun a => (a, v), fault }

-- A call with no effect that matters here: it goes through or it fails.
def step (fault : ε) : Prog W ε Unit := look fault fun _ => pure ()

-- A change of the files that happens at once.
def change (fault : ε) (f : Files Text → Except FsError (Files Text)) : Prog W ε Unit :=
  onVolume {
    run := fun _ v =>
      match f v.files with
      | .ok files => pure ((), { v with files })
      | .error _ => throw fault
    fault }

-- `symlink_metadata`: the entry and, for a regular file, its length.
def stat (fault : ε) (path : Text) : Prog W ε (Option (Node × Nat)) :=
  look fault fun v => pure <| (v.files.node path).map fun node =>
    (node, match node with
      | .File i => (v.files.data i).length
      | .Other => 0)

-- Opens the regular file at a path.
def openFile (fault : ε) (path : Text) : Prog W ε Nat :=
  look fault fun v =>
    match v.files.node path with
    | some (.File i) => pure i
    | _ => throw fault

end

def rangeBufLen (fileLen offset len : Nat) : Except TransferError Nat := do
  let range := "range offset ".toList ++ Text.decimal offset ++ " + len ".toList ++ Text.decimal len
  if 2 ^ 64 ≤ offset + len then throw (.Sidecar (range ++ " overflows u64".toList))
  if fileLen < offset + len then
    throw (.Sidecar (range ++ " exceeds file_len ".toList ++ Text.decimal fileLen))
  if len = 0 ∨ maxRange < len then throw (.sidecar "range must be 1..64 MiB")
  pure len

def checkRanges (fileLen : Nat) : List SidecarRange → Except TransferError Unit
  | [] => pure ()
  | range :: rest => do
      let _ ← rangeBufLen fileLen range.offset range.len
      checkRanges fileLen rest

def checkSidecar (sidecar : Sidecar) : Except TransferError Unit := do
  if sidecar.version ≠ sidecarVersion then
    throw (.Sidecar ("unsupported sidecar version ".toList ++ Text.decimal sidecar.version))
  if sidecar.rangeLen = 0 ∨ maxRange < sidecar.rangeLen then
    throw (.sidecar "range_len must be > 0 and at most 64 MiB")
  checkRanges sidecar.fileLen sidecar.ranges

section

variable {W : Type} [Mounted W]

def load (path : Text) : Prog W TransferError (Option Sidecar) := do
  match ← look (.Io path) fun v => pure (v.sidecars path) with
  | .Absent => pure none
  | .NotFile => throw (.sidecar "sidecar must be a regular file")
  | .Unreadable => throw (.sidecar "not a sidecar document")
  | .Saved sidecar =>
      Prog.lift (checkSidecar sidecar)
      pure (some sidecar)

def Volume.saveSidecar (v : Volume) (path : Text) (sidecar : Sidecar) : Volume :=
  { v with sidecars := Function.update v.sidecars path (.Saved sidecar) }

-- Written aside, synced, then renamed over: the old text or the new one, never a
-- part. The rename may be done when the sync after it fails.
def save (path : Text) (sidecar : Sidecar) : Prog W TransferError Unit :=
  onVolume {
    run := fun _ v => pure ((), v.saveSidecar path sidecar)
    partly := fun part v => if part = 0 then v else v.saveSidecar path sidecar
    fault := .Io path }

end

section

variable [UnicodeTables]

structure PullSpec where
  libraryRoot : Text
  titleId : TitleId
  finalName : Text
  remote : RemoteRef
  fileLen : Nat
  rangeLen : Nat
  concurrency : Nat

structure StagingLayout where
  staged : Text
  partialPath : Text
  sidecar : Text
  deriving DecidableEq, Repr

def StagingLayout.fromStaged (staged : Text) : StagingLayout where
  staged
  partialPath := staged ++ ".partial".toList
  sidecar := staged ++ ".partial.b3".toList

def StagingLayout.fromSpec (spec : PullSpec) : Except TransferError StagingLayout := do
  let rel ← (PathSchema.stagingPath spec.titleId spec.finalName).mapError fun e => .Path e.display
  pure (.fromStaged (Path.join spec.libraryRoot rel))

structure PullOutcome where
  staged : Text
  resumedRanges : List (Nat × Nat)
  alreadyStaged : Bool
  deriving DecidableEq, Repr

def checkSource (sidecar : Sidecar) (spec : PullSpec) : Except TransferError Unit :=
  if sidecar.fileLen ≠ spec.fileLen ∨
      ((sidecar.remoteRoot ≠ [] ∨ sidecar.remotePath ≠ []) ∧
        (sidecar.remoteRoot ≠ spec.remote.rootId ∨
          !Path.equal sidecar.remotePath spec.remote.relPath)) then
    throw (.sidecar "staging proof belongs to another remote file")
  else pure ()

def sourceIsKnown (sidecar : Sidecar) : Bool := sidecar.remoteRoot ≠ [] && sidecar.remotePath ≠ []

section

variable {W : Type} [Mounted W] (b3 : Bytes → Text)

def readExact (path : Text) (i offset len : Nat) : Prog W TransferError Bytes :=
  look (.Io path) fun v =>
    let bytes := Bytes.slice offset len (v.files.data i)
    if bytes.length = len then pure bytes else throw (.Io path)

-- A range that cannot be read, or reads back as something else, is dropped.
def keepRanges (path : Text) (i fileLen : Nat) : List SidecarRange →
    Prog W TransferError (List SidecarRange)
  | [] => pure []
  | range :: rest => do
      let len ← Prog.lift (rangeBufLen fileLen range.offset range.len)
      let read ← (readExact path i range.offset len).attempt
      let kept ← keepRanges path i fileLen rest
      match read with
      | .ok bytes => if b3 bytes = range.blake3 then pure (range :: kept) else pure kept
      | .error _ => pure kept

def verifyRecordedRanges (sidecar : Sidecar) (path : Text) : Prog W TransferError Sidecar := do
  match ← stat (.Io path) path with
  | none => pure { sidecar with ranges := [] }
  | some (.Other, _) => throw (.path "partial must be a regular file")
  | some (.File _, _) =>
      let i ← openFile (.Io path) path
      let kept ← keepRanges b3 path i sidecar.fileLen sidecar.ranges
      pure { sidecar with ranges := kept }

-- A complete staged file: a previous pull stopped after its last link.
def adoptStaged (spec : PullSpec) (layout : StagingLayout) (i : Nat) :
    Prog W TransferError PullOutcome := do
  match ← load layout.sidecar with
  | none => throw (.sidecar "staged file has no durable range proof")
  | some proof =>
      Prog.lift (checkSource proof spec)
      if !sourceIsKnown proof then
        throw (.sidecar "legacy staged file has no remote identity; refusing to adopt its bytes")
      let proof ← verifyRecordedRanges b3 proof layout.staged
      if remaining (planRanges spec.fileLen proof.rangeLen) proof ≠ [] then
        throw (.sidecar "staged file no longer matches its range proof")
      match ← stat (.Io layout.partialPath) layout.partialPath with
      | none => pure ()
      | some (.File j, _) =>
          if j = i then change (.Io layout.partialPath) fun files => files.unlink layout.partialPath
          else throw (.path "staged and partial refer to different files")
      | some (.Other, _) => throw (.path "staged and partial refer to different files")
      pure { staged := layout.staged, resumedRanges := [], alreadyStaged := true }

-- What an earlier attempt left and this one may count on.
def loadSidecar (spec : PullSpec) (layout : StagingLayout) : Prog W TransferError Sidecar := do
  match ← load layout.sidecar with
  | some existing =>
      Prog.lift (checkSource existing spec)
      if existing.fileLen ≠ spec.fileLen then
        throw (.Sidecar ("sidecar file_len ".toList ++ Text.decimal existing.fileLen ++
          " != ".toList ++ Text.decimal spec.fileLen))
      -- An old sidecar does not say which remote its bytes came from.
      verifyRecordedRanges b3
        (if sourceIsKnown existing then existing else { existing with ranges := [] })
        layout.partialPath
  | none =>
      if spec.rangeLen = 0 then throw (.sidecar "range_len must be > 0")
      pure { fileLen := spec.fileLen, rangeLen := spec.rangeLen }

def resume (spec : PullSpec) (layout : StagingLayout) : Prog W TransferError Sidecar := do
  let recalled ← loadSidecar b3 spec layout
  let sidecar := { recalled with
    remoteRoot := spec.remote.rootId, remotePath := spec.remote.relPath }
  save layout.sidecar sidecar
  pure sidecar

def openPartial (path : Text) : Prog W TransferError Nat :=
  onVolume {
    run := fun _ v =>
      match v.files.node path with
      | none =>
          match v.files.create path with
          | .ok (i, files) => pure (i, { v with files })
          | .error _ => throw (.Io path)
      | some (.File i) => pure (i, v)
      | some .Other => throw (.Io path)
    fault := .Io path }

-- A write into an open file; it may stop after any number of bytes.
def writeInto (path : Text) (i offset : Nat) (bytes : Bytes) : Prog W TransferError Unit :=
  onVolume {
    run := fun _ v => pure ((), { v with
      files := v.files.store i (Bytes.overwrite offset bytes (v.files.data i)) })
    partly := fun part v => { v with
      files := v.files.store i (Bytes.overwrite offset (bytes.take part) (v.files.data i)) }
    fault := .Io path }

def setLen (path : Text) (i len : Nat) : Prog W TransferError Unit :=
  onVolume {
    run := fun _ v => pure ((), { v with
      files := v.files.store i (Bytes.resize len (v.files.data i)) })
    fault := .Io path }

def preparePartial (spec : PullSpec) (path : Text) : Prog W TransferError Unit := do
  let i ← openPartial path
  let links ← look (.Io path) fun v => pure (v.files.nlink i)
  if links ≠ 1 then throw (.path "partial must be an owned, single-link regular file")
  step (.Io path)
  setLen path i spec.fileLen

def writeRange (path : Text) (offset : Nat) (bytes : Bytes) : Prog W TransferError Unit := do
  let i ← openFile (.Io path) path
  writeInto path i offset bytes
  step (.Io path)

-- The tasks in flight, in whatever order they end.
def pickTask (tasks : List (Nat × Nat)) : Prog W TransferError Nat :=
  onVolume { run := fun pick v => pure (pick % tasks.length, v), fault := .Rpc }

variable (remote : Text × List Component → Bytes)

def getRange (spec : PullSpec) (offset len : Nat) : Prog W TransferError Bytes :=
  look .Rpc fun _ => pure (Bytes.slice offset len (remote spec.remote.key))

def finishRange (spec : PullSpec) (layout : StagingLayout) (sidecar : Sidecar)
    (task : Nat × Nat) : Prog W TransferError Sidecar := do
  let (offset, len) := task
  let bytes ← getRange remote spec offset len
  if bytes.length ≠ len then throw (.ShortRange offset len bytes.length)
  writeRange layout.partialPath offset bytes
  let sidecar := sidecar.record offset len (b3 bytes)
  save layout.sidecar sidecar
  pure sidecar

def drainTasks (spec : PullSpec) (layout : StagingLayout) : Nat → List (Nat × Nat) → Sidecar →
    Prog W TransferError Sidecar
  | 0, _, sidecar => pure sidecar
  | fuel + 1, tasks, sidecar => do
      let k ← pickTask tasks
      match tasks[k]? with
      | none => pure sidecar
      | some task =>
          let sidecar ← finishRange b3 remote spec layout sidecar task
          drainTasks spec layout fuel (tasks.eraseIdx k) sidecar

def batchOf (todo : List (Nat × Nat)) (concurrency : Nat) :
    List (Nat × Nat) × List (Nat × Nat) :=
  let (batch, files) := takeSlots [{ index := 0, remaining := todo }] (max concurrency 1)
  (batch.map Prod.snd, files.flatMap PendingFile.remaining)

-- Each round takes at least one range off the list.
def fetchRounds (spec : PullSpec) (layout : StagingLayout) : Nat → List (Nat × Nat) → Sidecar →
    Prog W TransferError Sidecar
  | 0, _, sidecar => pure sidecar
  | fuel + 1, todo, sidecar =>
      if todo = [] then pure sidecar
      else do
        let (batch, todo) := batchOf todo spec.concurrency
        let sidecar ← drainTasks b3 remote spec layout batch.length batch sidecar
        fetchRounds spec layout fuel todo sidecar

-- Every range is on disk and recorded: the file becomes a whole.
def publish (layout : StagingLayout) : Prog W TransferError Unit := do
  change (.Io layout.staged) fun files => files.link layout.partialPath layout.staged
  change (.Io layout.partialPath) fun files => files.unlink layout.partialPath
  step (.Io layout.staged)

def fetchFile (spec : PullSpec) (layout : StagingLayout) : Prog W TransferError PullOutcome := do
  let sidecar ← resume b3 spec layout
  let todo := remaining (planRanges spec.fileLen sidecar.rangeLen) sidecar
  preparePartial spec layout.partialPath
  let _ ← fetchRounds b3 remote spec layout todo.length todo sidecar
  publish layout
  pure {
    staged := layout.staged
    resumedRanges := sidecar.ranges.map fun r => (r.offset, r.len)
    alreadyStaged := false }

def pullFile (spec : PullSpec) : Prog W TransferError PullOutcome := do
  if spec.fileLen = 0 then throw (.sidecar "file_len must be > 0")
  if spec.rangeLen = 0 ∨ maxRange < spec.rangeLen ∨ spec.concurrency = 0 ∨ 64 < spec.concurrency then
    throw (.sidecar "range length or concurrency out of bounds")
  let layout ← Prog.lift (StagingLayout.fromSpec spec)
  -- The staging directories and the writer lock.
  step (.Io layout.staged)
  step (.Io layout.staged)
  match ← (stat (.Io layout.staged) layout.staged).attempt with
  | .ok (some (.File i, len)) =>
      if len = spec.fileLen then adoptStaged b3 spec layout i
      else throw (.Path ("staged file already exists with unexpected shape: ".toList ++
        layout.staged))
  | .ok (some (.Other, _)) =>
      throw (.Path ("staged file already exists with unexpected shape: ".toList ++ layout.staged))
  | _ => fetchFile b3 remote spec layout

end

end

end Transfer

end Mediaops
