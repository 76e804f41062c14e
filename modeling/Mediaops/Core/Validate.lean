import Mediaops.Core.Home

namespace Mediaops

-- Object validation, `HomeObject::validate`.

def invalid (message : String) : HomeError := .Invalid message.toList

def absolutePath (raw : Text) : Except HomeError Unit :=
  if !Path.isAbsolute raw ∨ '\x00' ∈ raw ∨ Component.ParentDir ∈ Path.components raw then
    throw (invalid "absolute path without parent traversal required")
  else pure ()

-- `str::parse::<u16>`: an optional plus sign and decimal digits.
def parsePort (raw : Text) : Option Nat :=
  let digits := (Text.stripPrefix "+".toList raw).getD raw
  if digits.all Char.isDigit then Text.parseBelow 65536 digits else none

def validateRange (len : UInt64) (concurrency : UInt32) : Except HomeError Unit :=
  if len = 0 ∨ maxRangeLen < len ∨ concurrency = 0 ∨ 64 < concurrency then
    throw (invalid "rangeLen must be 1..64 MiB and concurrency 1..64")
  else pure ()

def validateRoots : List Text → List PathRoot → Except HomeError Unit
  | _, [] => pure ()
  | seen, root :: rest => do
      absolutePath root.path
      if root.id = [] ∨ '/' ∈ root.id ∨ root.id ∈ seen then
        throw (invalid "remote root ids must be unique nonempty components")
      validateRoots (root.id :: seen) rest

def validateCluster (name : Text) (s : ClusterSpec) : Except HomeError Unit := do
  if name ≠ clusterName then throw (invalid "Cluster name must be home")
  validateRange s.rangeLen (s.rangeConcurrency.getD 1)
  if s.libraryRoot ≠ [] then absolutePath s.libraryRoot
  validateRoots [] s.roots

def validateSecret (name : Text) (s : SecretSpec) : Except HomeError Unit := do
  if name ≠ secretName then throw (invalid "Secret name must be seedbox")
  match Text.rsplitOnce ':' s.seedboxAddress with
  | none => throw (invalid "seedboxAddress must be host:port")
  | some (host, port) =>
      if host = [] ∨ host.any Text.isWhitespace ∨ ((parsePort port).filter (0 < ·)) = none then
        throw (invalid "seedboxAddress must be host:port")
  if [s.caSha256, s.serverSha256, s.clientSha256].any
      (fun pin => pin ≠ [] && (pin.length ≠ 64 || !pin.all isHexDigit)) then
    throw (invalid "TLS fingerprints must be SHA-256 hex")

def validateRemoteRef (rootId relPath : Text) : Except HomeError Unit :=
  (RemoteRef.check rootId relPath).mapError .Invalid

section

variable [UnicodeTables]

def validateTitleId (raw : Text) : Except HomeError TitleId :=
  (TitleId.parse raw).mapError fun e => .Invalid e.display

-- The destination must parse to the title and render back to itself.
def validatePlacement (id : TitleId) (raw : Text) : Except HomeError Unit := do
  let (parsed, placement) ← (PathSchema.parsePlacement raw).mapError fun e => .Invalid e.display
  if id.isKey ∧ parsed ≠ id ∨ id.kind ≠ parsed.kind then
    throw (invalid "destination must be a canonical PathSchema path for the TitleId")
  let rendered ← (PathSchema.render id placement).mapError fun e => .Invalid e.display
  if !Path.equal rendered raw then
    throw (invalid "destination must be a canonical PathSchema path for the TitleId")

def validateJob (s : JobSpec) : Except HomeError Unit := do
  let id ← validateTitleId s.titleId
  validateRange s.rangeLen s.rangeConcurrency
  absolutePath s.libraryRoot
  validateRemoteRef s.remoteRoot s.remotePath
  validatePlacement id s.destRel
  if s.fileLen = 0 ∨ (s.nodeName ≠ [] ∧ s.nodeName ≠ WorkerKind.Pull.nodeName) ∨
      s.workerKind ≠ WorkerKind.Pull.asStr then
    throw (invalid "Pull requires a file, pull worker kind and optional pull binding")

def validateSpec (name : Text) : Spec → Except HomeError Unit
  | .Cluster s => validateCluster name s
  | .Secret s => validateSecret name s
  | .Title s => do
      let _ ← validateTitleId s.titleId
      if name ≠ s.titleId then throw (invalid "Title name must equal titleId")
  | .Want s => do
      let _ ← validateTitleId s.titleId
      if name ≠ s.titleId then throw (invalid "Want name must equal titleId")
  | .Job s => validateJob s
  | .Hold s => do
      let _ ← validateTitleId s.titleId
      if s.releaseId = [] ∨ name ≠ s.titleId ++ "-".toList ++ s.releaseId then
        throw (invalid "Hold name must identify its title and release")
  | .Node s => if name ≠ s.workerKind.nodeName then
      throw (invalid "Node name must equal workerKind") else pure ()
  | .Sync _ | .RemoteFile | .Event => pure ()

-- Every observed file sits at a canonical place of the title, and no two share
-- a file key.
def validateTitleFiles (id : TitleId) : List FileKey → List TitleFileStatus → Except HomeError Unit
  | _, [] => pure ()
  | keys, file :: rest => do
      validatePlacement id file.path
      let (_, placement) ← (PathSchema.parsePlacement file.path).mapError
        fun e => .Invalid e.display
      if placement.fileKey ∈ keys then throw (invalid "duplicate Title file placement")
      validateTitleFiles id (placement.fileKey :: keys) rest

def validateStatus (spec : Spec) (status : StatusBody) : Except HomeError Unit :=
  match spec, status with
  | .Title spec, .Title s => do
      let id ← validateTitleId spec.titleId
      validateTitleFiles id [] s.observedFiles
  | .Job spec, .Job s =>
      if pullMaxAttempts < s.attempts ∨ spec.fileLen < s.bytesDone ∨ s.startedUnix < 0 then
        throw (invalid "invalid Job progress") else pure ()
  | _, .RemoteFile s => do
      validateRemoteRef s.rootId s.relPath
      if s.listGeneration ≤ 0 ∨ (s.parseOk ∧ (validateTitleId s.titleId).toBool = false) then
        throw (invalid "RemoteFile requires a positive listGeneration and valid parsed title")
  | _, .Node s =>
      if s.lastHeartbeatUnix < 0 ∨ s.listGeneration < 0 ∨ s.listCompletedUnix < 0 ∨
          s.scanStartedRv < 0 ∨ s.scanClusterGeneration < 0 ∨ s.scanSecretResourceVersion < 0 then
        throw (invalid "invalid Node observation") else pure ()
  | _, .Sync s =>
      if s.acceptedUnix < 0 ∨ s.deadlineUnix < 0 ∨ s.baselineGeneration < 0 ∨ s.acceptanceRv < 0 ∨
          s.listGeneration < 0 ∨ s.clusterGeneration < 0 ∨ s.secretResourceVersion < 0 then
        throw (invalid "invalid Sync observation") else pure ()
  | .Hold spec, .Hold s => do
      if s.listGeneration < 0 then
        throw (invalid "Hold inventory generation must not be negative")
      if s.remoteRoot ≠ [] ∨ s.remotePath ≠ [] then validateRemoteRef s.remoteRoot s.remotePath
      match s.placement with
      | none => pure ()
      | some placement => do
          let id ← validateTitleId spec.titleId
          let _ ← (PathSchema.render id placement).mapError fun e => HomeError.Invalid e.display
  | _, _ => pure ()

def HomeObject.validate (obj : HomeObject) : Except HomeError Unit := do
  if obj.apiVersion ≠ homeApiVersion ∨ obj.spec.kind ≠ obj.kind ∨ obj.status.kind ≠ obj.kind then
    throw (invalid "apiVersion, kind and body must agree")
  if obj.metadata.name = [] ∨ '\x00' ∈ obj.metadata.name ∨ obj.metadata.resourceVersion < 0 ∨
      obj.metadata.generation < 0 then
    throw (invalid "valid object name and nonnegative metadata are required")
  validateSpec obj.metadata.name obj.spec
  validateStatus obj.spec obj.status

end

end Mediaops
