import Mediaops.Transfer

namespace Mediaops

-- The install gate, and the pull worker's placement of a verified file. Modes and
-- owners are not modelled: a call that checks or sets them goes through or fails.

inductive InstallError where
  | NotStaging (path : Text)
  | NotConverting (path : Text)
  | MissingSource (path : Text)
  | DestinationExists (path : Text)
  | BackupExists (path : Text)
  | MissingLive (path : Text)
  | TitleMismatch
  | DigestMismatch
  | DeadlineExceeded
  | UnsafeTemporary (path : Text)
  | BackupInsideLibrary (path : Text)
  | RollbackFailed (liveNowAt : Text)
  | PathSchema (e : PathSchemaError)
  | Io (path : Text)

def InstallError.display : InstallError → Text
  | NotStaging path => "not a verified staging path: ".toList ++ path
  | NotConverting path => "not a .converting file: ".toList ++ path
  | MissingSource path => "source file not found: ".toList ++ path
  | DestinationExists path => "destination already exists: ".toList ++ path
  | BackupExists path => "backup destination already exists: ".toList ++ path
  | MissingLive path => "live file not found for replace: ".toList ++ path
  | TitleMismatch => "title does not match destination".toList
  | DigestMismatch => "staged bytes no longer match the durable verification digest".toList
  | DeadlineExceeded => "pull deadline reached before installation completed".toList
  | UnsafeTemporary path => "refusing an unowned or unsafe install temporary: ".toList ++ path
  | BackupInsideLibrary path =>
      "backup destination `".toList ++ path ++ "` is inside the library root".toList
  | RollbackFailed liveNowAt =>
      "replace failed and the live file could not be restored; the live file is now at `".toList ++
        liveNowAt ++ "`".toList
  | PathSchema e => e.display
  | Io path => "io error at `".toList ++ path ++ "`".toList

-- The worker's errors: a refusal of the Job, one that leaves the Job as it is for
-- the next pass, and the rest, which fail the Job.
inductive PullError where
  | Refusal (message : Text)
  | Retryable (message : Text)
  | Other (message : Text)
  | Api (e : HomeError)

def PullError.display : PullError → Text
  | Refusal message => message
  | Retryable message => message
  | Other message => message
  | Api e => e.display

namespace PullError

def install (e : InstallError) : PullError := .Other e.display

def refusal (message : String) : PullError := .Refusal message.toList

def bail (message : String) : PullError := .Other message.toList

-- `retryable(err)` wraps whatever the error was.
def retryable (e : PullError) : PullError := .Retryable e.display

end PullError

def Transfer.TransferError.display : Transfer.TransferError → Text
  | Io path => "io at `".toList ++ path ++ "`".toList
  | Sidecar message => "sidecar: ".toList ++ message
  | Path message => "path: ".toList ++ message
  | Rpc => "rpc".toList
  | ShortRange offset want got => "short range at ".toList ++ Text.decimal offset ++
      ": want ".toList ++ Text.decimal want ++ " got ".toList ++ Text.decimal got

namespace Install

open Transfer (Volume Mounted Sidecar onVolume look step change stat openFile load checkSource
  sourceIsKnown PullSpec StagingLayout TransferError)

-- Where one Job's file is staged, copied aside and published.
structure Paths where
  staging : StagingLayout
  dest : Text
  data : Text
  deriving DecidableEq, Repr

-- `Path::parent`: an empty piece or a `.` at the end is no component.
def parentOf (path : Text) : Text :=
  Text.joinWith '/' (named (named (Text.split (· == '/') path)).dropLast)
where
  named (pieces : List Text) : List Text :=
    pieces.rdropWhile fun piece => piece = [] || piece = ".".toList

-- `Path::with_file_name`, for a path with a directory.
def withFileName (path name : Text) : Text := Path.join (parentOf path) name

section

variable [UnicodeTables]

-- A path carries only the key identity, so any other id is held to its kind.
def checkTitle (titleId : TitleId) (destRel : Text) : Except InstallError Unit := do
  let parsed ← (PathSchema.parse destRel).mapError .PathSchema
  if (if titleId.isKey then parsed = titleId else parsed.kind = titleId.kind) then pure ()
  else throw .TitleMismatch

-- The Job's pull, from its spec.
def pullSpec (spec : JobSpec) : Except PullError PullSpec := do
  let titleId ← (TitleId.parse spec.titleId).mapError fun e => .Other e.display
  let (_, placement) ← (PathSchema.parsePlacement spec.destRel).mapError fun e => .Other e.display
  let rendered ← (PathSchema.render titleId placement).mapError fun e => .Other e.display
  if !Path.equal rendered spec.destRel then
    throw (.bail "Job destination does not match its title and placement")
  match Path.fileName spec.destRel with
  | none => throw (.bail "Job destination has no filename")
  | some finalName =>
      match h : RemoteRef.check spec.remoteRoot spec.remotePath with
      | .error message => throw (.Other message)
      | .ok () =>
          pure {
            libraryRoot := spec.libraryRoot
            titleId
            finalName
            remote := { rootId := spec.remoteRoot, relPath := spec.remotePath, valid := h }
            fileLen := spec.fileLen.toNat
            rangeLen := spec.rangeLen.toNat
            concurrency := spec.rangeConcurrency.toNat }

variable (b3 : Bytes → Blake3Hex)

-- The slot of a cross-device copy is named by the digest of what it is for.
def slotData (identity : Text → Text → Bytes) (source dest : Text) : Text :=
  Path.join (withFileName dest (".mediaops-install-".toList ++ (b3 (identity source dest)).text))
    "data".toList

def pathsOf (identity : Text → Text → Bytes) (spec : JobSpec) : Except PullError Paths := do
  let pull ← pullSpec spec
  (checkTitle pull.titleId spec.destRel).mapError .install
  let staging ← (StagingLayout.fromSpec pull).mapError fun e => .Other e.display
  let dest := Path.join spec.libraryRoot spec.destRel
  pure { staging, dest, data := slotData b3 identity staging.staged dest }

variable {W : Type} [Mounted W] (paths : Paths)

-- `metadata` of an open file, or of a name: the number of links.
def links (fault : InstallError) (i : Nat) : Prog W InstallError Nat :=
  look fault fun v => pure (v.files.nlink i)

def remove (path : Text) : Prog W InstallError Unit :=
  change (.Io path) fun files => files.unlink path

-- A second link is the program's own only in the window after publication.
def ownedLinks (k : Nat) : Prog W InstallError Bool := do
  let count ← links (.Io paths.data) k
  if count = 2 then
    match ← (stat (.Io paths.dest) paths.dest).attempt with
    | .ok (some (node, _)) => pure (node = .File k)
    | _ => pure false
  else pure (count = 1)

-- The copy of an earlier attempt.
def clearData : Prog W InstallError Unit := do
  match ← stat (.Io paths.data) paths.data with
  | none => pure ()
  | some (.Other, _) => throw (.UnsafeTemporary paths.data)
  | some (.File k, _) =>
      if !(← ownedLinks paths k) then throw (.UnsafeTemporary paths.data)
      remove paths.data
      step (.Io (parentOf paths.data))

-- Without a slot there is no data in it either.
def cleanupInstallTemporary : Prog W InstallError Unit := do
  step (.UnsafeTemporary paths.data)
  clearData paths

inductive LinkResult where
  | Linked | CrossesDevices
  deriving DecidableEq, Repr

-- Whether the two names are on one device is for the environment to say.
def hardLink (source dest : Text) : Prog W InstallError LinkResult :=
  onVolume {
    run := fun pick v =>
      if pick = 0 then
        match v.files.link source dest with
        | .ok files => pure (.Linked, { v with files })
        | .error .AlreadyExists => throw (.DestinationExists dest)
        | .error _ => throw (.Io source)
      else pure (.CrossesDevices, v)
    fault := .Io source }

-- `create_new`
def createNew (path : Text) : Prog W InstallError Nat :=
  onVolume {
    run := fun _ v =>
      match v.files.create path with
      | .ok (i, files) => pure (i, { v with files })
      | .error _ => throw (.Io path)
    fault := .Io path }

-- The copy of an open file into another, chunk by chunk: it may end after any part.
def copyChunks (source k : Nat) : Prog W InstallError Unit :=
  onVolume {
    run := fun _ v => pure ((), { v with files := v.files.store k (v.files.data source) })
    partly := fun part v => { v with
      files := v.files.store k ((v.files.data source).take part) }
    fault := .Io paths.data }

-- `check()`: the Job's deadline.
def checkDeadline : Prog W InstallError Unit := step .DeadlineExceeded

def copyAcrossDevices : Prog W InstallError Unit := do
  step (.UnsafeTemporary paths.data)
  clearData paths
  checkDeadline
  let source ← openFile (.Io paths.staging.staged) paths.staging.staged
  let k ← createNew paths.data
  copyChunks paths source k
  step (.Io paths.data)
  checkDeadline
  match ← hardLink paths.data paths.dest with
  | .CrossesDevices => throw (.Io paths.dest)
  | .Linked =>
      clearData paths
      step (.Io (parentOf paths.dest))

def copyIntoPlaceChecked : Prog W InstallError Unit := do
  checkDeadline
  match ← hardLink paths.staging.staged paths.dest with
  | .Linked => step (.Io (parentOf paths.dest))
  | .CrossesDevices => copyAcrossDevices paths

def moveIntoPlaceChecked : Prog W InstallError Unit := do
  copyIntoPlaceChecked paths
  remove paths.staging.staged
  step (.Io (parentOf paths.staging.staged))

-- The whole of an open file.
def readAll (fault : InstallError) (i : Nat) : Prog W InstallError Bytes :=
  look fault fun v => pure (v.files.data i)

def installChecked (expected : Blake3Hex) : Prog W InstallError Unit := do
  let staged := paths.staging.staged
  checkDeadline
  match ← stat (.Io paths.dest) paths.dest with
  | some _ => throw (.DestinationExists paths.dest)
  | none =>
      let i ← openFile (.Io staged) staged
      if (← links (.Io staged) i) ≠ 1 then throw (.NotStaging staged)
      let bytes ← readAll (.Io staged) i
      if b3 bytes ≠ expected then throw .DigestMismatch
      -- The library directories and their modes.
      step (.Io (parentOf paths.dest))
      checkDeadline
      step (.Io staged)
      moveIntoPlaceChecked paths

-- `install`: there is no digest to hold the bytes to, and no deadline either, so its
-- checks go through.
def install : Prog W InstallError Blake3Hex := do
  let staged := paths.staging.staged
  match ← stat (.Io paths.dest) paths.dest with
  | some _ => throw (.DestinationExists paths.dest)
  | none =>
      let i ← openFile (.Io staged) staged
      if (← links (.Io staged) i) ≠ 1 then throw (.NotStaging staged)
      let bytes ← readAll (.Io staged) i
      -- The library directories and their modes.
      step (.Io (parentOf paths.dest))
      step (.Io staged)
      moveIntoPlaceChecked paths
      pure (b3 bytes)

-- `VerifiedStagingHandle::verify`: the staged file is a regular file.
def verifyStaged : Prog W InstallError Unit := do
  match ← stat (.Io paths.staging.staged) paths.staging.staged with
  | none => throw (.MissingSource paths.staging.staged)
  | some (.Other, _) => throw (.NotStaging paths.staging.staged)
  | some (.File _, _) => pure ()

def forgetSidecar (path : Text) : Prog W TransferError Unit :=
  onVolume {
    run := fun _ v => pure ((), { v with sidecars := Function.update v.sidecars path .Absent })
    fault := .Io path }

def removeStaged (path : Text) : Prog W TransferError Unit :=
  onVolume {
    run := fun _ v =>
      match v.files.unlink path with
      | .ok files => pure ((), { v with files })
      | .error _ => pure ((), v)
    fault := .Io path }

-- Remove the staged source and its sidecar once the destination matches.
def cleanupVerifiedStaging (pull : PullSpec) : Prog W TransferError Unit := do
  let layout := paths.staging
  step (.path "staging file already has a writer")
  match ← stat (.Io layout.staged) layout.staged with
  | some (.Other, _) => throw (.path "staged source must be a regular file")
  | _ => pure ()
  match ← load layout.sidecar with
  | none => pure ()
  | some proof =>
      Prog.lift (checkSource proof pull)
      if !sourceIsKnown proof then
        throw (.sidecar
          "legacy staged file has no remote identity; refusing to delete its bytes")
  removeStaged layout.staged
  forgetSidecar layout.sidecar
  step (.Io (parentOf layout.staged))

def mismatch : PullError := .refusal "existing destination does not match the verified file"

-- Whether the library already has the verified file; anything else there is refused.
def installedMatches (fileLen : Nat) (expected : Blake3Hex) : Prog W PullError Bool := do
  let io := PullError.retryable (.install (.Io paths.dest))
  match ← stat io paths.dest with
  | none => pure false
  | some (.Other, _) => throw mismatch
  | some (.File _, len) =>
      if len ≠ fileLen then throw mismatch
      let i ← openFile io paths.dest
      let bytes ← look io fun v => pure (v.files.data i)
      if bytes.length ≠ fileLen then throw mismatch
      if b3 bytes ≠ expected then throw mismatch
      -- The parents' modes, `chmod` and `fsync`.
      step io
      step io
      step io
      pure true

def cleanupOwnedStaging (pull : PullSpec) : Prog W PullError Unit :=
  (cleanupVerifiedStaging paths pull).mapError fun e => .Retryable e.display

-- The disk watermark at installation.
def roomLeft : Prog W PullError Bool :=
  onVolume {
    run := fun pick v => pure (pick = 0, v)
    fault := .install (.Io paths.dest) }

def placeVerified (pull : PullSpec) (expected : Blake3Hex) : Prog W PullError Unit := do
  if ← installedMatches b3 paths pull.fileLen expected then
    cleanupOwnedStaging paths pull
    (cleanupInstallTemporary paths).mapError fun e => .Retryable e.display
  else
    (cleanupInstallTemporary paths).mapError .install
    step (.bail "pull deadline reached before installation")
    if !(← roomLeft paths) then throw (.refusal "watermark before installation")
    (verifyStaged paths).mapError .install
    match ← ((installChecked b3 paths expected).mapError PullError.install).attempt with
    | .ok () => cleanupOwnedStaging paths pull
    | .error e =>
        -- Publication can succeed before a later step fails.
        if ← installedMatches b3 paths pull.fileLen expected then
          cleanupOwnedStaging paths pull
          (cleanupInstallTemporary paths).mapError fun e => .Retryable e.display
        else
          (cleanupInstallTemporary paths).mapError .install
          throw e

end

end Install

end Mediaops
