import Mediaops.Api.Authority
import Mediaops.Store

namespace Mediaops.Admission

-- Field ownership and lifecycle checks above the object store.

def denied (message : String) : HomeError := .Denied message.toList

-- The stored object, if it has the revision the request carries.
def current (s : Store) (obj : HomeObject) : Except HomeError HomeObject :=
  match s.get obj.kind obj.metadata.name with
  | none => throw (.NotFound obj.kind obj.metadata.name)
  | some old =>
      if old.metadata.resourceVersion ≠ obj.metadata.resourceVersion then
        throw (.Conflict obj.kind obj.metadata.name)
      else pure old

def ownsNode (actor : Actor) (obj : HomeObject) : Except HomeError Unit :=
  match obj.spec with
  | .Node spec =>
      if actor.asStr ≠ spec.workerKind.asStr then
        throw (denied "a role may only heartbeat its own Node")
      else pure ()
  | _ => pure ()

def activeUnder (root : Text) (job : HomeObject) : Bool :=
  match job.spec, job.status with
  | .Job spec, .Job status => !status.phase.isTerminal && spec.libraryRoot ≠ root
  | _, _ => false

def validateRootChange (s : Store) (before after : Spec) : Except HomeError Unit :=
  match before, after with
  | .Cluster before, .Cluster after =>
      if before.libraryRoot ≠ after.libraryRoot ∧
          (s.list (some .Job)).any (activeUnder after.libraryRoot) then
        throw (denied "library root cannot change while incompatible nonterminal Jobs exist")
      else pure ()
  | _, _ => pure ()

def boundTo (holdName : Text) (job : HomeObject) : Bool :=
  match job.spec, job.status with
  | .Job spec, .Job status =>
      spec.holdName = holdName && spec.nodeName ≠ [] && !status.phase.isTerminal
  | _, _ => false

def refuseActiveHoldChange (s : Store) (holdName : Text) : Except HomeError Unit :=
  if (s.list (some .Job)).any (boundTo holdName) then
    throw (denied "cannot revoke or delete approval while its bound Job is active")
  else pure ()

-- The verifying Job that a worker's new observation of a file needs.
def verifiesFile (titleId : Text) (file : TitleFileStatus) (job : HomeObject) : Bool :=
  match job.spec, job.status with
  | .Job spec, .Job status =>
      spec.titleId = titleId && spec.destRel = file.path &&
        spec.nodeName = WorkerKind.Pull.nodeName && status.phase = .Verifying &&
        status.verifiedB3 = some file.installB3 && file.installB3 = file.currentB3 && !file.drifted
  | _, _ => false

def verifyingRoot (titleId path : Text) (job : HomeObject) : Option Text :=
  match job.spec, job.status with
  | .Job spec, .Job status =>
      if spec.titleId = titleId ∧ spec.destRel = path ∧
          spec.nodeName = WorkerKind.Pull.nodeName ∧ status.phase = .Verifying then
        some spec.libraryRoot
      else none
  | _, _ => none

def verifyingLen (titleId path : Text) (job : HomeObject) : Option UInt64 :=
  match job.spec, job.status with
  | .Job spec, .Job status =>
      if spec.titleId = titleId ∧ spec.destRel = path ∧ status.phase = .Verifying then
        some spec.fileLen
      else none
  | _, _ => none

def observedFilesOf (obj : HomeObject) : List TitleFileStatus :=
  match obj.status with
  | .Title status => status.observedFiles
  | _ => []

-- One file of a new Title observation, on its way to the disk check.
def verifyFile (disk : Disk) (actor : Actor) (titleId root : Text) (jobs : List HomeObject)
    (old : Option HomeObject) (verifyDisk : Bool) (file : TitleFileStatus) :
    Except HomeError Unit :=
  if old.any fun t => (observedFilesOf t).contains file then pure ()
  else if actor = .Pull ∧ ¬jobs.any (verifiesFile titleId file) then
    throw (denied "Title proof requires the bound worker's verifying Job")
  else if actor = .Import ∧ (file.drifted ∨ !verifyDisk) then pure ()
  else
    let fileRoot := if actor = .Pull then
      (jobs.findSome? (verifyingRoot titleId file.path)).getD root else root
    let path := Path.join fileRoot file.path
    match disk.symlinkMetadata path with
    | .NotFound => throw (invalid "No such file or directory")
    | .Failed message => throw (.Invalid message)
    | .Found found =>
        if actor = .Pull then
          if !found.isFile ∨ some found.len ≠ jobs.findSome? (verifyingLen titleId file.path) then
            throw (invalid "installed file does not match the verifying Job")
          else pure ()
        else if !found.isFile then throw (invalid "Title proof must name a regular file")
        else match disk.digest path with
          | .error message => throw (.Invalid message)
          | .ok digest =>
              if digest ≠ file.currentB3 then
                throw (invalid "Title current digest does not match the library file")
              else pure ()

def verifyFiles (disk : Disk) (actor : Actor) (titleId root : Text) (jobs : List HomeObject)
    (old : Option HomeObject) (verifyDisk : Bool) : List TitleFileStatus → Except HomeError Unit
  | [] => pure ()
  | file :: rest => do
      verifyFile disk actor titleId root jobs old verifyDisk file
      verifyFiles disk actor titleId root jobs old verifyDisk rest

-- A proof is a file with its path and the digest it was installed with.
def keepsProof (files : List TitleFileStatus) (previous : TitleFileStatus) : Bool :=
  files.any fun file => file.path = previous.path && file.installB3 = previous.installB3

def verifyTitle (disk : Disk) (s : Store) (actor : Actor) (obj : HomeObject)
    (old : Option HomeObject) (verifyDisk : Bool) : Except HomeError Unit :=
  match obj.spec, obj.status with
  | .Title spec, .Title status => do
      let files := status.observedFiles
      if status.path ≠ [] ∧ files = [] then throw (invalid "Title observation requires digests")
      if !(((old.map observedFilesOf).getD []).all (keepsProof files)) then
        throw (denied "installed proof may not be removed or rewritten")
      match (s.get .Cluster clusterName).map HomeObject.spec with
      | some (.Cluster cluster) =>
          let jobs := if actor = .Pull then s.list (some .Job) else []
          verifyFiles disk actor spec.titleId cluster.libraryRoot jobs old verifyDisk files
      | _ => if files = [] then pure () else throw (invalid "Cluster required for Title proof")
  | _, _ => throw (invalid "Title body required")

def hasScanMetadata : StatusBody → Bool
  | .Node status => status.scanStartedRv ≠ 0 || status.scanClusterGeneration ≠ 0 ||
      status.scanSecretResourceVersion ≠ 0
  | _ => false

def isSyncJob : Spec → Bool
  | .Job spec => spec.syncName ≠ []
  | _ => false

-- What a new object may carry besides its spec.
def validateInitial (disk : Disk) (s : Store) (actor : Actor) (obj : HomeObject)
    (verifyDisk : Bool) : Except HomeError Unit :=
  match obj.spec, obj.status with
  | .Node _, _ => pure ()
  | .RemoteFile, _ => pure ()
  | .Event, _ => pure ()
  | .Hold spec, status =>
      if actor = .Inventory then
        if spec.decision ≠ .Empty then throw (denied "inventory cannot decide a Hold") else pure ()
      else if status ≠ StatusBody.empty obj.kind then
        throw (denied "Apply cannot initialize observed status")
      else pure ()
  | .Title _, .Title status =>
      if actor = .Import then verifyTitle disk s actor obj none verifyDisk
      else if StatusBody.Title status ≠ StatusBody.empty obj.kind then
        throw (denied "Apply cannot initialize observed status")
      else pure ()
  | .Job spec, status =>
      if spec.nodeName ≠ [] then throw (denied "new Jobs must be unbound")
      else if status ≠ StatusBody.empty obj.kind then
        throw (denied "Apply cannot initialize observed status")
      else pure ()
  | _, status =>
      if status ≠ StatusBody.empty obj.kind then
        throw (denied "Apply cannot initialize observed status")
      else pure ()

section

variable [UnicodeTables]

def validateApply (disk : Disk) (s : Store) (actor : Actor) (obj : HomeObject)
    (verifyDisk : Bool) : Except HomeError Unit := do
  obj.validate
  ownsNode actor obj
  match s.get obj.kind obj.metadata.name with
  | some old =>
      validateRootChange s old.spec obj.spec
      if obj.metadata.resourceVersion ≠ old.metadata.resourceVersion then
        throw (.Conflict obj.kind obj.metadata.name)
      if obj.kind = .Job ∧ obj.spec ≠ old.spec then throw (denied "Job snapshot is immutable")
      if obj.kind = .Hold ∧ obj.spec ≠ old.spec then
        throw (denied "inventory cannot change a Hold decision")
      if !obj.spec.isStatusOnly ∧ obj.status ≠ old.status ∧
          obj.status ≠ StatusBody.empty obj.kind then
        throw (denied "Apply cannot write observed status; use its owned subresource")
  | none =>
      if isSyncJob obj.spec then
        throw (denied "Sync Jobs must be created by the atomic Sync scheduler")
      if hasScanMetadata obj.status then
        throw (denied "inventory scan metadata is assigned by BeginInventory")
      if obj.metadata.resourceVersion ≠ 0 then throw (.Conflict obj.kind obj.metadata.name)
      validateInitial disk s actor obj verifyDisk

def phaseTransition : JobPhase → JobPhase → Bool
  | .Pending, .Pulling | .Pending, .Refused | .Pending, .Failed => true
  | .Pulling, .Pending | .Pulling, .Verifying | .Pulling, .Failed | .Pulling, .Refused => true
  | .Verifying, .Installed | .Verifying, .Failed | .Verifying, .Refused => true
  | _, _ => false

-- The Title holds an undrifted proof of the Job's file with the Job's digest.
def titleProves (s : Store) (spec : JobSpec) (after : JobStatus) : Bool :=
  (s.get .Title spec.titleId).any fun title =>
    (observedFilesOf title).any fun file =>
      file.path = spec.destRel && !file.drifted && some file.installB3 = after.verifiedB3

def validateJobStatus (s : Store) (actor : Actor) (spec : JobSpec) (before after : JobStatus) :
    Except HomeError Unit := do
  if spec.nodeName ≠ WorkerKind.Pull.nodeName ∨ actor ≠ .Pull then
    throw (denied "only the bound pull worker may update a Job")
  if before.phase.isTerminal then throw (denied "terminal Job status is immutable")
  if after.attempts < before.attempts ∨ before.attempts + 1 < after.attempts ∨
      (0 < before.startedUnix ∧ after.startedUnix ≠ before.startedUnix) ∨
      (before.verifiedB3.isSome ∧ after.verifiedB3 ≠ before.verifiedB3) then
    throw (denied "retry deadline and verification proof must be preserved")
  if ¬(before.phase = after.phase ∨ phaseTransition before.phase after.phase) then
    throw (denied "invalid Job phase transition")
  if (after.phase = .Pulling ∨ after.phase = .Verifying ∨ after.phase = .Installed) ∧
      (after.startedUnix ≤ 0 ∨ after.attempts = 0) then
    throw (invalid "active Job requires a persisted attempt and start time")
  if (after.phase = .Verifying ∨ after.phase = .Installed) ∧ after.verifiedB3 = none then
    throw (invalid "verifying Job requires durable whole-file proof")
  if after.phase = .Installed ∧ (!titleProves s spec after ∨ after.bytesDone ≠ spec.fileLen) then
    throw (denied "Title proof must be durable before Job completion")

def changesScan : StatusBody → StatusBody → Bool
  | .Node before, .Node after => before.scanStartedRv ≠ after.scanStartedRv ||
      before.scanClusterGeneration ≠ after.scanClusterGeneration ||
      before.scanSecretResourceVersion ≠ after.scanSecretResourceVersion
  | _, _ => false

def validateStatusPatch (disk : Disk) (s : Store) (actor : Actor) (old : HomeObject)
    (status : StatusBody) (verifyDisk : Bool) : Except HomeError Unit := do
  let next := { old with status }
  next.validate
  ownsNode actor next
  if changesScan old.status status then
    throw (denied "inventory scan metadata is assigned by BeginInventory")
  match old.spec, old.status, status with
  | .Job spec, .Job before, .Job after => validateJobStatus s actor spec before after
  | .Title _, _, _ => verifyTitle disk s actor next (some old) verifyDisk
  | .Node _, .Node before, .Node after =>
      if after.listGeneration < before.listGeneration ∨
          after.listCompletedUnix < before.listCompletedUnix then
        throw (invalid "inventory publication cannot move backwards")
  | _, _, _ => pure ()

-- A bound Job that is not over keeps its share of the budget.
def reservation (job : HomeObject) : Option JobSpec :=
  match job.spec, job.status with
  | .Job spec, .Job status =>
      if spec.nodeName ≠ [] ∧ !status.phase.isTerminal then some spec else none
  | _, _ => none

def sumChecked (overflow : HomeError) : UInt64 → List UInt64 → Except HomeError UInt64
  | sum, [] => pure sum
  | sum, len :: rest =>
      match checkedAdd sum len with
      | none => throw overflow
      | some next => sumChecked overflow next rest

def reservedDisk (disk : Disk) : UInt64 → List JobSpec → Except HomeError UInt64
  | sum, [] => pure sum
  | sum, spec :: rest => do
      let remaining ← (pullRemainingBytes disk spec).mapError .Invalid
      match checkedAdd sum remaining with
      | none => throw (invalid "staging byte budget overflow")
      | some next => reservedDisk disk next rest

-- The copy budget and the disk watermark, from the Jobs of the store.
def bindBudget (disk : Disk) (jobs : List HomeObject) (spec : JobSpec) : Except HomeError Unit := do
  let held := jobs.filterMap reservation
  let reserved ← sumChecked (invalid "bound byte budget overflow") 0 (held.map JobSpec.fileLen)
  let free ← (disk.freeBytes spec.libraryRoot).mapError .Invalid
  let remaining ← (pullRemainingBytes disk spec).mapError .Invalid
  let onDisk ← reservedDisk disk 0 held
  if !pullFits (UInt64.ofNat (2 ^ 64 - 1)) 0 spec.maxCopy reserved spec.fileLen then
    throw (denied "snapshotted copy budget or disk watermark would be exceeded")
  if !pullFits free spec.minFree 0 onDisk remaining then
    throw (denied "snapshotted copy budget or disk watermark would be exceeded")
  if !(← (disk.installFits spec).mapError .Invalid) then
    throw (denied "snapshotted copy budget or disk watermark would be exceeded")

def clusterAllows (libraryRoot : Text) : Option Spec → Bool
  | some (.Cluster cluster) => !cluster.lock && cluster.libraryRoot = libraryRoot
  | _ => false

def nodeReady (now : Int) : Option StatusBody → Bool
  | some (.Node status) => nodeIsReady status.ready status.lastHeartbeatUnix now
  | _ => false

def validateBind (env : Env) (s : Store) (old : HomeObject) (patch : Spec) :
    Except HomeError Unit :=
  match old.spec, patch, old.status with
  | .Job before, .Job patch, .Job status => do
      if status.phase ≠ .Pending ∨ before.nodeName ≠ [] ∨
          patch.nodeName ≠ WorkerKind.Pull.nodeName ∨
          patch.workerKind ≠ WorkerKind.Pull.asStr then
        throw (denied "bind requires an unbound Pending Job and the pull Node")
      if !clusterAllows before.libraryRoot ((s.get .Cluster clusterName).map HomeObject.spec) then
        throw (denied "Cluster is locked, missing, or has another library root")
      let objects := (s.snapshot none).1
      match identityRefusal objects old with
      | some reason => throw (.Denied reason)
      | none => pure ()
      match authorizationRefusal objects before env.now with
      | some reason => throw (.Denied reason)
      | none => pure ()
      if !nodeReady env.now ((s.get .Node WorkerKind.Pull.nodeName).map HomeObject.status) then
        throw (denied "pull Node is not ready")
      bindBudget env.disk (s.list (some .Job)) before
  | _, _, _ => throw (invalid "bind requires Job")

-- Approval needs a placement that renders and a Hold of the fresh listing.
def validateApproval (env : Env) (s : Store) (spec : HoldSpec) (status : HoldStatus) :
    Except HomeError Unit := do
  let id ← (TitleId.parse spec.titleId).mapError fun e => .Invalid e.display
  let placement ← match status.placement with
    | none => throw (denied "approval requires an authoritative placement")
    | some placement => pure placement
  let _ ← (PathSchema.preflightApprovePlacement id placement).mapError fun e =>
    HomeError.Denied e.display
  match (s.get .Node WorkerKind.Inventory.nodeName).map HomeObject.status with
  | some (.Node node) =>
      if !freshListing node env.now ∨ node.listGeneration ≠ status.listGeneration then
        throw (denied "approval requires a Hold in the fresh committed inventory")
  | _ => throw (denied "approval requires a Hold in the fresh committed inventory")

def validateSpecPatch (env : Env) (s : Store) (old : HomeObject) (spec : Spec) :
    Except HomeError Unit := do
  let next := { old with spec }
  next.validate
  validateRootChange s old.spec spec
  match old.spec, spec with
  | .Hold before, .Hold after =>
      if before.titleId ≠ after.titleId ∨ before.releaseId ≠ after.releaseId then
        throw (denied "Hold title and release identity are immutable")
      if before.decision = .Approved ∧ after.decision ≠ before.decision then
        refuseActiveHoldChange s old.metadata.name
      match old.status with
      | .Hold status =>
          if before.decision ≠ after.decision ∧ after.decision = .Approved then
            validateApproval env s after status
      | _ => pure ()
  | _, _ => pure ()

def validatePatch (env : Env) (s : Store) (actor : Actor) (op : HomeOp) (obj : HomeObject)
    (verifyDisk : Bool) : Except HomeError Unit := do
  let old ← current s obj
  match op with
  | .PatchStatus => validateStatusPatch env.disk s actor old obj.status verifyDisk
  | .PatchBind => validateBind env s old obj.spec
  | .PatchSpec => validateSpecPatch env s old obj.spec
  | _ => throw (invalid "unsupported patch")

def activeOf (syncName : Text) (job : HomeObject) : Bool :=
  match job.spec, job.status with
  | .Job spec, .Job status => spec.syncName = syncName && !status.phase.isTerminal
  | _, _ => false

def validateDelete (s : Store) (kind : Kind) (name : Text) : Except HomeError Unit := do
  if kind = .Hold then refuseActiveHoldChange s name
  if kind = .Sync ∧ (s.list (some .Job)).any (activeOf name) then
    throw (denied "cannot delete Sync while its Jobs are nonterminal")
  if (s.get kind name).any fun obj => (reservation obj).isSome then
    throw (denied "cannot delete a bound active Job")

end

end Mediaops.Admission
