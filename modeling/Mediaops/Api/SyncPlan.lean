import Mediaops.Api.Authority
import Mathlib.Data.List.Sort

namespace Mediaops.SyncPlan

-- The planner of a one-shot sync: which Jobs a listing would queue.

def block (entry : SyncEntry) (reason : Text) : SyncEntry :=
  { entry with disposition := .Blocked, reason }

def keyText : FileKey → Text
  | .Whole => "whole"
  | .Episode season episode =>
      "s".toList ++ Text.decimal season ++ "-e".toList ++ Text.decimal episode
  | .Track disc track => "d".toList ++ Text.decimal disc ++ "-t".toList ++ Text.decimal track

def holdsSource (remote : RemoteFileStatus) (hold : HomeObject) : Bool :=
  match hold.status with
  | .Hold status => status.remoteRoot = remote.rootId && status.remotePath = remote.relPath
  | _ => false

def approvesSource (remote : RemoteFileStatus) (hold : HomeObject) : Bool :=
  match hold.spec, hold.status with
  | .Hold spec, .Hold status =>
      spec.decision = .Approved && status.remoteRoot = remote.rootId &&
        status.remotePath = remote.relPath
  | _, _ => false

def blocked (reason : String) : Option (SyncDisposition × Text) := some (.Blocked, reason.toList)

-- Every parent is a directory and the last component is a regular file. Joining
-- a path to the root drops its current-directory components.
def regularProofPath (disk : Disk) (current : Text) : List Component → Bool
  | [] => false
  | [.Normal segment] => disk.isFile (Path.join current segment)
  | .Normal segment :: rest =>
      disk.isDir (Path.join current segment) &&
        regularProofPath disk (Path.join current segment) rest
  | _ :: _ => false

-- The destination must be free, below existing directories only.
def destinationState (disk : Disk) (current : Text) :
    List Component → Option (SyncDisposition × Text)
  | [] => none
  | .Normal segment :: rest =>
      let path := Path.join current segment
      match disk.symlinkMetadata path with
      | .Found found =>
          if rest ≠ [] ∧ found.isDir then destinationState disk path rest
          else blocked "destination or unsafe parent already exists without a matching proof"
      | .NotFound => none
      | .Failed _ => blocked "destination cannot be inspected safely"
  | _ :: _ => blocked "unsafe destination path"

section

variable [UnicodeTables]

def jobName (id : TitleId) (placement : Placement) : Text :=
  "pull-".toList ++ id.stagingToken ++ "-".toList ++ keyText placement.fileKey

-- The identity, placement and Hold a listed file is classified to.
def classify (remote : RemoteFileStatus) (holds : List HomeObject) (root : PathRoot) :
    Except Text (Option (TitleId × Placement × Text)) :=
  match holds.filter (approvesSource remote) with
  | [hold] =>
      match hold.spec, hold.status with
      | .Hold spec, .Hold status => pure do
          let id ← (TitleId.parse spec.titleId).toOption
          let placement ← status.placement
          let placement ← (PathSchema.preflightApprovePlacement id placement).toOption
          pure (id, placement, hold.metadata.name)
      | _, _ => pure none
  | [] =>
      if remote.parseOk ∧ ¬heldRemote holds remote remote.titleId then
        pure ((PathSchema.parseRemote root.kind remote.relPath).toOption.map
          fun (id, placement) => (id, placement, []))
      else throw "source requires an explicit, unambiguous Hold decision".toList
  | _ => throw "source requires an explicit, unambiguous Hold decision".toList

def pullSpec (cluster : ClusterSpec) (remote : RemoteFileStatus)
    (syncName holdName titleId destRel : Text) : JobSpec where
  syncName := syncName
  holdName := holdName
  titleId := titleId
  remoteRoot := remote.rootId
  remotePath := remote.relPath
  fileLen := remote.len
  destRel := destRel
  libraryRoot := cluster.libraryRoot
  rangeLen := cluster.rangeLen
  rangeConcurrency := cluster.rangeConcurrency.getD 1
  maxCopy := cluster.maxCopy
  minFree := cluster.minFree
  workerKind := WorkerKind.Pull.asStr

def candidate (remote : RemoteFileStatus) (holds : List HomeObject) (cluster : ClusterSpec)
    (name : Text) : SyncEntry :=
  let entry : SyncEntry := {
    remoteRoot := remote.rootId
    remotePath := remote.relPath
    fileLen := remote.len
    disposition := .Ineligible }
  match findRoot cluster remote.rootId with
  | none => { entry with reason := "root is not configured in Cluster" }
  | some root =>
      if (RemoteRef.check remote.rootId remote.relPath).isOk = false then
        { entry with reason := "unsafe remote path" }
      else if remote.len = 0 ∨ !isMediaFile remote.relPath then
        { entry with reason := "not completed nonempty library media" }
      else if 1 < (holds.filter (holdsSource remote)).length then
        block entry "conflicting Hold records refer to the same source"
      else match classify remote holds root with
        | .error reason => block entry reason
        | .ok none => { entry with reason := "no safe canonical placement" }
        | .ok (some (authority, placement, holdName)) =>
            match PathSchema.render authority placement with
            | .error _ => { entry with reason := "placement cannot be rendered safely" }
            | .ok dest =>
                match PathSchema.parse dest with
                | .error _ => { entry with reason := "destination identity is invalid" }
                | .ok id => { entry with
                    titleId := id.render
                    jobName := jobName id placement
                    placement := some placement
                    job := some (pullSpec cluster remote name holdName id.render dest)
                    disposition := .WouldQueue }

def listedCandidate (generation : Int) (holds : List HomeObject) (cluster : ClusterSpec)
    (name : Text) (obj : HomeObject) : Option SyncEntry :=
  match obj.status with
  | .RemoteFile remote =>
      if remote.listGeneration = generation then some (candidate remote holds cluster name)
      else none
  | _ => none

def entryOrder (a b : SyncEntry) : Prop :=
  a.remoteRoot < b.remoteRoot ∨ (a.remoteRoot = b.remoteRoot ∧ a.remotePath ≤ b.remotePath)

instance : DecidableRel entryOrder := fun _ _ => inferInstanceAs (Decidable (_ ∨ _))

-- Entries with a Job that share a Job name block each other.
def blockDuplicates (entries : List SyncEntry) : List SyncEntry :=
  entries.map fun entry =>
    if 1 < (entries.filter fun e => e.job.isSome && e.jobName = entry.jobName).length then
      block entry "multiple sources target the same library placement"
    else entry

def capture (objects : List HomeObject) (request : HomeObject) : List SyncEntry :=
  match request.status with
  | .Sync status =>
      match status.cluster with
      | none => []
      | some cluster =>
          let holds := objects.filter (holdAt status.listGeneration)
          let entries := objects.filterMap
            (listedCandidate status.listGeneration holds cluster request.metadata.name)
          blockDuplicates (entries.insertionSort entryOrder)
  | _ => []

-- The state of the Job's place in the library: recorded, in the way, or free.
def samePlacement (identity : TitleId) (key : FileKey) (jobTitle path specTitle : Text) : Bool :=
  (placementOf path).any fun (id, placement) =>
    placement.fileKey = key && (id = identity || specTitle = jobTitle)

def filesState (disk : Disk) (root : Text) (identity : TitleId) (key : FileKey)
    (jobTitle specTitle : Text) : List TitleFileStatus → Option Bool
  | [] => some false
  | file :: rest =>
      if samePlacement identity key jobTitle file.path specTitle then
        if file.drifted ∨ !regularProofPath disk root
            ((Path.components file.path).filter (· ≠ .CurDir)) then none
        else (filesState disk root identity key jobTitle specTitle rest).map fun _ => true
      else filesState disk root identity key jobTitle specTitle rest

def titlesState (disk : Disk) (root : Text) (identity : TitleId) (key : FileKey) (jobTitle : Text) :
    Bool → List HomeObject → Except Text Bool
  | present, [] => pure present
  | present, title :: rest =>
      match title.spec, title.status with
      | .Title spec, .Title status =>
          let files := status.observedFiles
          match filesState disk root identity key jobTitle spec.titleId files with
          | none => throw "recorded placement is drifted, missing, unreadable, or traverses a symlink; explicit repair is required".toList
          | some here =>
              if status.path ≠ [] ∧ samePlacement identity key jobTitle status.path spec.titleId ∧
                  ¬files.any (fun file => file.path = status.path) then
                throw "recorded placement lacks verified file proofs".toList
              else titlesState disk root identity key jobTitle (present || here) rest
      | _, _ => titlesState disk root identity key jobTitle present rest

def placementState (disk : Disk) (objects : List HomeObject) (job : JobSpec) :
    Option (SyncDisposition × Text) :=
  match placementOf job.destRel with
  | none => blocked "invalid destination placement"
  | some (identity, placement) =>
      if !disk.isDir job.libraryRoot then
        blocked "library root is missing, unreadable, or a symlink"
      else
        let titles := objects.filter fun obj => obj.kind = .Title
        match titlesState disk job.libraryRoot identity placement.fileKey job.titleId false titles with
        | .error reason => some (.Blocked, reason)
        | .ok true => some (.Present, "verified library placement already present".toList)
        | .ok false => destinationState disk job.libraryRoot (Path.components job.destRel)

def conflictingJob (objects : List HomeObject) (job : JobSpec) (name : Text) : Option HomeObject := do
  let (identity, placement) ← placementOf job.destRel
  objects.find? fun obj =>
    match obj.spec with
    | .Job existing =>
        obj.metadata.name = name ||
          (placementOf existing.destRel).any fun (id, p) =>
            id = identity && p.fileKey = placement.fileKey
    | _ => false

def evaluateEntry (env : Env) (objects : List HomeObject) (entry : SyncEntry) : SyncEntry :=
  if entry.disposition ≠ .WouldQueue then entry
  else match entry.job with
    | none => block entry "missing Job snapshot"
    | some job =>
        match placementState env.disk objects job with
        | some (disposition, reason) => { entry with disposition, reason }
        | none =>
            match conflictingJob objects job entry.jobName with
            | some existing =>
                match existing.spec, existing.status with
                | .Job spec, .Job status =>
                    if !status.phase.isTerminal ∧ spec.remoteRoot = job.remoteRoot ∧
                        spec.remotePath = job.remotePath ∧ spec.fileLen = job.fileLen ∧
                        spec.libraryRoot = job.libraryRoot then
                      { entry with
                        disposition := .AlreadyQueued
                        jobName := existing.metadata.name
                        jobUid := existing.metadata.uid
                        reason := "existing Job retains its original authorization" }
                    else block entry "existing terminal or conflicting Job; explicit retry is required"
                | _, _ => entry
            | none =>
                match authorizationRefusal objects job env.now with
                | some reason => block entry reason
                | none => entry

def evaluate (env : Env) (objects : List HomeObject) (entries : List SyncEntry) : List SyncEntry :=
  entries.map (evaluateEntry env objects)

end

end Mediaops.SyncPlan
