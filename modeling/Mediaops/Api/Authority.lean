import Mediaops.Api.Env

namespace Mediaops

-- Which objects authorize a Job. Every function here reads one snapshot of the
-- store, given as the list of its objects.

def findObject (objects : List HomeObject) (kind : Kind) (name : Text) : Option HomeObject :=
  objects.find? fun obj => obj.kind = kind && obj.metadata.name = name

def secretRevision (objects : List HomeObject) : Int :=
  ((findObject objects .Secret secretName).map fun obj => obj.metadata.resourceVersion).getD 0

-- Both clears of the source: a bind may change these two fields and no other.
def sameSnapshot (left right : JobSpec) : Bool :=
  { left with nodeName := [], workerKind := [] } = { right with nodeName := [], workerKind := [] }

def entryAuthorizes (name uid : Text) (spec : JobSpec) (entry : SyncEntry) : Bool :=
  entry.disposition = .Queued && entry.jobName = name && entry.jobUid = uid &&
    entry.job.any fun captured => sameSnapshot captured spec

def clusterConfig (obj : HomeObject) : Option ClusterSpec :=
  match obj.spec with
  | .Cluster config => if obj.metadata.name = clusterName then some config else none
  | _ => none

def findRoot (config : ClusterSpec) (id : Text) : Option PathRoot :=
  config.roots.find? fun root => root.id = id

def identityRefusal (objects : List HomeObject) (job : HomeObject) : Option Text :=
  match job.spec with
  | .Job spec =>
      if spec.syncName = [] then none
      else match (findObject objects .Sync spec.syncName).map HomeObject.status with
        | some (.Sync status) =>
            if status.phase ≠ .Scheduled then
              some "Sync has not committed its Job manifest".toList
            else match status.cluster, objects.findSome? clusterConfig with
              | some captured, some current =>
                  if captured.libraryRoot ≠ current.libraryRoot ∨
                      findRoot captured spec.remoteRoot ≠ findRoot current spec.remoteRoot ∨
                      secretRevision objects ≠ status.secretResourceVersion then
                    some "Sync source configuration changed".toList
                  else if !status.entries.any
                      (entryAuthorizes job.metadata.name job.metadata.uid spec) then
                    some "Job identity or snapshot is not authorized by this Sync".toList
                  else none
              | _, _ => some "Sync configuration is missing".toList
        | _ => some "authorizing Sync was deleted or is missing".toList
  | _ => some "Sync authority requires a Job".toList

-- The committed and fresh listing of the inventory Node.
def freshListing (status : NodeStatus) (now : Int) : Bool :=
  nodeIsReady status.ready status.lastHeartbeatUnix now && decide (0 < status.listGeneration) &&
    nodeIsReady true status.listCompletedUnix now

def inventoryStatus (obj : HomeObject) : Option NodeStatus :=
  match obj.status with
  | .Node status => if obj.metadata.name = WorkerKind.Inventory.nodeName then some status else none
  | _ => none

def inventoryGeneration (objects : List HomeObject) (now : Int) : Option Int :=
  objects.findSome? fun obj =>
    match obj.status with
    | .Node status =>
        if obj.kind = .Node ∧ obj.metadata.name = WorkerKind.Inventory.nodeName ∧
            0 < status.listGeneration ∧
            nodeIsReady status.ready status.lastHeartbeatUnix now ∧
            nodeIsReady true status.listCompletedUnix now then
          some status.listGeneration
        else none
    | _ => none

def holdAt (generation : Int) (obj : HomeObject) : Bool :=
  match obj.status with
  | .Hold status => status.listGeneration = generation
  | _ => false

section

variable [UnicodeTables]

-- The placement of a path, when it has one.
def placementOf (path : Text) : Option (TitleId × Placement) := (PathSchema.parsePlacement path).toOption

def holdConflict (holds : List HomeObject) (job : JobSpec) (authorizer : HomeObject) : Bool :=
  match authorizer.spec with
  | .Hold approved =>
      let target := placementOf job.destRel
      holds.any fun hold =>
        if hold.metadata.name = authorizer.metadata.name then false
        else match hold.spec, hold.status with
          | .Hold spec, .Hold status =>
              (status.remoteRoot = job.remoteRoot && status.remotePath = job.remotePath) ||
                (status.remotePath = [] &&
                  (spec.titleId = approved.titleId ||
                    status.placement.any fun placement => target.any fun (id, p) =>
                      placement.fileKey = p.fileKey &&
                        match placement.keyTitleId with
                        | .ok key => key = id
                        | .error _ => false))
          | _, _ => false
  | _ => true

-- The key identity of the place a Hold asks for.
def holdIdentity (titleId : Text) (placement : Placement) : Option TitleId := do
  let id ← (TitleId.parse titleId).toOption
  let path ← (PathSchema.render id placement).toOption
  (PathSchema.parse path).toOption

def heldRemote (holds : List HomeObject) (remote : RemoteFileStatus) (titleId : Text) : Bool :=
  holds.any fun hold =>
    match hold.spec, hold.status with
    | .Hold spec, .Hold status =>
        (status.remoteRoot = remote.rootId && status.remotePath = remote.relPath) ||
          (spec.titleId = titleId && status.remotePath = [] && status.placement.isNone) ||
          status.placement.any fun placement =>
            (holdIdentity spec.titleId placement).any fun id =>
              id.render = titleId &&
                match PathSchema.parseRemote (some id.kind) remote.relPath with
                | .ok (_, remotePlacement) => remotePlacement.fileKey = placement.fileKey
                | .error _ => false
    | _, _ => false

def placedAt (specId titleId : Text) (key : FileKey) (path : Text) : Bool :=
  (placementOf path).any fun (id, placement) =>
    placement.fileKey = key && (specId = titleId || id.render = titleId)

def hasPlacement (titles : List HomeObject) (titleId : Text) (key : FileKey) : Bool :=
  titles.any fun title =>
    match title.spec, title.status with
    | .Title spec, .Title status =>
        (status.observedFiles.any fun file => placedAt spec.titleId titleId key file.path) ||
          (status.path ≠ [] && placedAt spec.titleId titleId key status.path)
    | _, _ => false

def healthyPlacement (titles : List HomeObject) (titleId : Text) (key : FileKey) : Bool :=
  titles.any fun title =>
    match title.spec, title.status with
    | .Title spec, .Title status =>
        status.observedFiles.any fun file => !file.drifted && placedAt spec.titleId titleId key file.path
    | _, _ => false

def liveWant (titleId : Text) (obj : HomeObject) : Bool :=
  match obj.spec, obj.status with
  | .Want spec, .Want status => spec.titleId = titleId && status.phase ≠ .Dropped
  | _, _ => false

def rootAllowlisted (remoteRoot : Text) (obj : HomeObject) : Bool :=
  match obj.spec with
  | .Cluster config => config.roots.any fun root => root.id = remoteRoot
  | _ => false

def jobSource (job : JobSpec) (generation : Int) (obj : HomeObject) : Option RemoteFileStatus :=
  match obj.status with
  | .RemoteFile status =>
      if status.rootId = job.remoteRoot ∧ status.relPath = job.remotePath ∧
          status.listGeneration = generation ∧ status.len = job.fileLen then some status else none
  | _ => none

-- `Option<PathBuf>` compared with a path by its components.
def destinationIs (destination : Option Text) (destRel : Text) : Bool :=
  destination.any fun path => Path.equal path destRel

-- The refusal of a Job without a Hold: its Want, its row and its place.
def wantRefusal (objects holds : List HomeObject) (job : JobSpec) (remote : RemoteFileStatus) :
    Option Text :=
  if job.syncName = [] ∧ ¬objects.any (liveWant job.titleId) then
    some "Job Want is absent or dropped".toList
  else if !remote.parseOk ∨ remote.titleId ≠ job.titleId ∨ heldRemote holds remote job.titleId then
    some "Job source requires an approved Hold".toList
  else
    let destination : Option Text := do
      let id ← (TitleId.parse job.titleId).toOption
      let (_, placement) ← (PathSchema.parseRemote (some id.kind) remote.relPath).toOption
      (PathSchema.render id placement).toOption
    if destinationIs destination job.destRel then none
    else some "Job source placement changed".toList

def holdRefusal (holds : List HomeObject) (job : JobSpec) : Option Text :=
  match holds.find? fun hold => hold.metadata.name = job.holdName with
  | none => some "authorizing Hold is no longer live".toList
  | some hold =>
      match hold.spec, hold.status with
      | .Hold spec, .Hold status =>
          if job.syncName ≠ [] ∧ holdConflict holds job hold then
            some "conflicting Hold records refer to this source or unresolved placement".toList
          else if spec.decision ≠ .Approved ∨ status.remoteRoot ≠ job.remoteRoot ∨
              status.remotePath ≠ job.remotePath then
            some "Hold no longer authorizes this source".toList
          else
            let destination : Option Text := do
              let id ← (TitleId.parse spec.titleId).toOption
              let placement ← status.placement
              let placement ← (PathSchema.preflightApprovePlacement id placement).toOption
              (PathSchema.render id placement).toOption
            if destinationIs destination job.destRel then none
            else some "Hold placement changed".toList
      | _, _ => some "invalid Hold".toList

def authorizationRefusal (objects : List HomeObject) (job : JobSpec) (now : Int) : Option Text :=
  if job.syncName ≠ [] ∧ ¬objects.any (rootAllowlisted job.remoteRoot) then
    some "Sync source root is no longer allowlisted".toList
  else match objects.findSome? inventoryStatus with
    | none => some "inventory Node is missing".toList
    | some inventory =>
        if !freshListing inventory now then
          some "inventory listing is not ready and fresh".toList
        else match objects.findSome? (jobSource job inventory.listGeneration) with
          | none => some "Job source is absent or changed in the current listing".toList
          | some remote =>
              let holds := objects.filter (holdAt inventory.listGeneration)
              let refusal := if job.holdName = [] then wantRefusal objects holds job remote
                else holdRefusal holds job
              match refusal with
              | some reason => some reason
              | none =>
                  match placementOf job.destRel with
                  | none => some "invalid Job placement".toList
                  | some (_, placement) =>
                      if hasPlacement objects job.titleId placement.fileKey then
                        some "Title already has an observation for this placement".toList
                      else none

end

end Mediaops
