import Mediaops.Api.Controllers

namespace Mediaops.Sync

-- One-shot sync requests: acceptance, the inventory scan token, and the
-- controller that moves a request through its phases.

def planSeconds : Int := 60

def denied (message : String) : HomeError := .Denied message.toList

-- The new request, from one snapshot of the store.
def accepted (env : Env) (name : Text) (objects : List HomeObject) (revision : Int) :
    Except HomeError HomeObject :=
  match findObject objects .Cluster clusterName with
  | none => throw (invalid "Cluster is not configured")
  | some cluster =>
      match cluster.spec with
      | .Cluster config =>
          if config.lock ∨ config.libraryRoot = [] then
            throw (denied "Cluster is locked or library root is missing")
          else
            let generation :=
              ((objects.findSome? inventoryStatus).map NodeStatus.listGeneration).getD 0
            pure (.new .Sync name (.Sync {}) (.Sync {
              phase := .WaitingInventory
              acceptedUnix := env.now
              deadlineUnix := min (env.now + planSeconds) i64Max
              baselineGeneration := generation
              acceptanceRv := revision
              cluster := some config
              clusterGeneration := cluster.metadata.generation
              secretResourceVersion := secretRevision objects }))
      | _ => throw (invalid "Cluster spec missing")

def isRequestIdChar (c : Char) : Bool := c.isAlphanum || c = '-' || c = '_'

-- The locked section of `start` for a request that is not a dry run.
def start (env : Env) (s : Store) (requestId : Text) : Except HomeError HomeObject × Store :=
  if requestId = [] ∨ 128 < requestId.length ∨ !requestId.all isRequestIdChar then
    (.error (invalid "sync request ID must contain 1-128 ASCII letters, digits, hyphens or underscores"), s)
  else match s.get .Sync requestId with
    | some existing => (.ok existing, s)
    | none =>
        let (objects, revision) := s.snapshot none
        match accepted env requestId objects revision with
        | .error e => (.error e, s)
        | .ok request =>
            match s.apply request with
            | (.ok (written, _), s) => (.ok written, s)
            | (.error (.Home e), s) => (.error e, s)
            | (.error e, s) => (.error (.Invalid e.display), s)

-- The Node after the start of a scan: not ready, with a token above every
-- revision of the snapshot.
def scanStatus (env : Env) (objects : List HomeObject) (revision : Int) (status : NodeStatus) :
    NodeStatus :=
  { status with
    ready := false
    lastHeartbeatUnix := env.now
    scanStartedRv := min (revision + 1) i64Max
    scanClusterGeneration := ((findObject objects .Cluster clusterName).map
      fun obj => obj.metadata.generation).getD 0
    scanSecretResourceVersion := secretRevision objects }

def inventoryNodeObject : HomeObject :=
  .new .Node WorkerKind.Inventory.nodeName (.Node { workerKind := .Inventory })
    (StatusBody.empty .Node)

def beginInventory (env : Env) (s : Store) : Except StoreError HomeObject × Store :=
  let (objects, revision) := s.snapshot none
  let previous := findObject objects .Node WorkerKind.Inventory.nodeName
  let node := previous.getD inventoryNodeObject
  match node.status with
  | .Node status =>
      let status := StatusBody.Node (scanStatus env objects revision status)
      if previous.isSome then
        s.patchStatus .Node node.metadata.name status node.metadata.resourceVersion
      else match s.apply { node with status } with
        | (.ok (written, _), s) => (.ok written, s)
        | (.error e, s) => (.error e, s)
  | _ => (.error (.Home (invalid "inventory Node status missing")), s)

-- The listing that may serve a request: committed by a scan that began after the
-- acceptance, under the same configuration.
def qualifyingGeneration (objects : List HomeObject) (request : SyncStatus) (now : Int) :
    Except HomeError (Option Int) :=
  let configured := (findObject objects .Cluster clusterName).any fun obj =>
    obj.metadata.generation = request.clusterGeneration &&
      match obj.spec with
      | .Cluster config => some config = request.cluster && !config.lock
      | _ => false
  if !configured ∨ secretRevision objects ≠ request.secretResourceVersion then
    throw (invalid "Cluster or seedbox configuration changed; issue a new sync request")
  else match inventoryGeneration objects now with
    | none => pure none
    | some generation => pure (objects.findSome? fun obj =>
        match obj.status with
        | .Node status =>
            if obj.kind = .Node ∧ obj.metadata.name = WorkerKind.Inventory.nodeName ∧
                request.baselineGeneration < generation ∧
                request.acceptanceRv < status.scanStartedRv ∧
                status.scanClusterGeneration = request.clusterGeneration ∧
                status.scanSecretResourceVersion = request.secretResourceVersion then
              some generation
            else none
        | _ => none)

def isListed (obj : HomeObject) : Bool := obj.kind = .RemoteFile || obj.kind = .Hold

def withSync (request : HomeObject) (status : SyncStatus) : HomeObject :=
  { request with status := .Sync status }

-- `fail`, under the mutation lock.
def failRequest (s : Store) (request : HomeObject) (message : Text) : Controllers.Outcome :=
  match s.get .Sync request.metadata.name with
  | none => (.ok (), s)
  | some latest =>
      match latest.status with
      | .Sync status =>
          if status.phase = .Scheduled ∨ status.phase = .Failed then (.ok (), s)
          else Controllers.wrote (s.patchStatus .Sync latest.metadata.name
            (.Sync { status with phase := .Failed, message }) latest.metadata.resourceVersion)
      | _ => (.ok (), s)

section

variable [UnicodeTables]

def capturedStatus (objects : List HomeObject) (request : HomeObject) (status : SyncStatus)
    (generation : Int) : SyncStatus :=
  let status := { status with listGeneration := generation, phase := .Captured }
  { status with entries := SyncPlan.capture objects (withSync request status) }

-- The locked end of a capture: the listing and its rows must still be those of
-- the snapshot the entries were taken from.
def commitCapture (env : Env) (s : Store) (objects : List HomeObject) (request : HomeObject)
    (status : SyncStatus) (generation : Int) : Controllers.Outcome :=
  let captured := capturedStatus objects request status generation
  let latest := (s.snapshot none).1
  match qualifyingGeneration latest captured env.now with
  | .error e => (.error (.Home e), s)
  | .ok current =>
      if current ≠ some generation then (.ok (), s)
      else if latest.filter isListed ≠ objects.filter isListed then (.ok (), s)
      else Controllers.wrote (s.patchStatus .Sync request.metadata.name (.Sync captured)
        request.metadata.resourceVersion)

-- The locked end of the scheduling of a captured request.
def commitSchedule (env : Env) (s : Store) (revision : Int) (request : HomeObject)
    (planned : SyncStatus) : Controllers.Outcome :=
  if planned.deadlineUnix ≤ env.now then
    failRequest s request "planning deadline expired without scheduling"
  else Controllers.wrote (s.scheduleSync revision (withSync request planned) env.now)

def plannedStatus (env : Env) (objects : List HomeObject) (status : SyncStatus) : SyncStatus :=
  { status with entries := SyncPlan.evaluate env objects status.entries }

def advance (env : Env) (s : Store) (request : HomeObject) : Controllers.Outcome :=
  let (objects, revision) := s.snapshot none
  match request.status with
  | .Sync status =>
      if status.deadlineUnix ≤ env.now then
        failRequest s request "planning deadline expired without scheduling"
      else match qualifyingGeneration objects status env.now with
        | .error e => (.error (.Home e), s)
        | .ok fresh =>
            match status.phase, fresh with
            | .WaitingInventory, some generation =>
                commitCapture env s objects request status generation
            | .Captured, some _ =>
                commitSchedule env s revision request (plannedStatus env objects status)
            | _, _ => (.ok (), s)
  | _ => (.ok (), s)

def isLost : StoreError → Bool
  | .Home (.Conflict _ _) => true
  | .Home (.NotFound _ _) => true
  | _ => false

def reconcileRequest (env : Env) (s : Store) (request : HomeObject) : Controllers.Outcome :=
  match request.status with
  | .Sync status =>
      if status.phase = .Scheduled ∨ status.phase = .Failed then (.ok (), s)
      else match advance env s request with
        | (.ok (), s) => (.ok (), s)
        | (.error e, s) => if isLost e then (.ok (), s) else failRequest s request e.display
  | _ => (.ok (), s)

def reconcileRequests (env : Env) : Store → List HomeObject → Controllers.Outcome
  | s, [] => (.ok (), s)
  | s, request :: rest =>
      Controllers.andThen (reconcileRequest env s request) fun s => reconcileRequests env s rest

def reconcile (env : Env) (s : Store) : Controllers.Outcome :=
  reconcileRequests env s (s.list (some .Sync))

end

end Mediaops.Sync

namespace Mediaops.Controllers

-- One undisturbed pass of the controllers.
def reconcileOnce [UnicodeTables] (env : Env) (s : Store) : Outcome :=
  andThen (Sync.reconcile env s) fun s => reconcileJobs env s

end Mediaops.Controllers
