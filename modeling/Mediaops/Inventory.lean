import Mediaops.Api.Run
import Mediaops.Arr

namespace Mediaops.Inventory

open Arr (HoldLiveItem)

-- The inventory worker: it begins a scan, lists the seedbox, publishes one row for
-- each media file and commits the listing. Every call to the API is a step of its
-- own, and any of them may be the last one of the process.

-- The token of a scan.
structure ScanStart where
  startedRv : Int
  clusterGeneration : Int
  secretResourceVersion : Int
  deriving DecidableEq, Repr

def tokenOf (status : NodeStatus) : ScanStart where
  startedRv := status.scanStartedRv
  clusterGeneration := status.scanClusterGeneration
  secretResourceVersion := status.scanSecretResourceVersion

def scanStart (node : HomeObject) : Option ScanStart :=
  match node.status with
  | .Node status => some (tokenOf status)
  | _ => none

-- An entry of the gateway's listing. Its reference was checked when it was built.
structure RemoteEntry where
  rootId : Text
  relPath : Text
  len : UInt64
  valid : RemoteRef.check rootId relPath = .ok ()

def RemoteEntry.name (entry : RemoteEntry) : Text := remoteFileName entry.rootId entry.relPath

def RemoteEntry.isMedia (entry : RemoteEntry) : Bool := isMediaFile entry.relPath

-- The last root of an id gives its kind.
def rootKind (cluster : ClusterSpec) (rootId : Text) : Option TitleKind :=
  (cluster.roots.reverse.find? fun root => root.id = rootId).bind PathRoot.kind

def inventoryName : Text := WorkerKind.Inventory.nodeName

def getNode (s : Store) : Option HomeObject := s.get .Node inventoryName

-- `update_node_heartbeat` without a listing: only the scan commits one.
def beat (ready : Option Bool) (now : Int) (status : NodeStatus) : NodeStatus :=
  { status with lastHeartbeatUnix := now, ready := ready.getD status.ready }

-- The write of `update_heartbeat`, from the Node it has read.
def heartbeat (node : Option HomeObject) (ready : Option Bool) (now : Int) : Option Serve.Request :=
  match node with
  | some node =>
      match node.status with
      | .Node status => some (.Patch .PatchStatus { node with status := .Node (beat ready now status) })
      | _ => none
  | none => some (.Apply { Sync.inventoryNodeObject with status := .Node (beat ready now {}) })

def generationOf (obj : HomeObject) : Option Int :=
  match obj.status with
  | .RemoteFile status => some status.listGeneration
  | .Hold status => some status.listGeneration
  | _ => none

-- One above every generation in sight.
def nextGeneration (existing existingHolds : List HomeObject) (previous : Int) : Int :=
  max (((existing ++ existingHolds).filterMap generationOf).max?.getD 0) previous + 1

section

variable [UnicodeTables]

-- What the gateway answered to one scan.
structure Scan where
  start : ScanStart
  entries : List RemoteEntry
  holds : List HoldLiveItem

-- What `publish_inventory` works with once it starts to write.
structure Batch where
  scan : Scan
  cluster : ClusterSpec
  existing : List HomeObject
  generation : Int

def remoteStatus (cluster : ClusterSpec) (generation : Int) (entry : RemoteEntry) :
    RemoteFileStatus :=
  let found := (PathSchema.parseRemote (rootKind cluster entry.rootId) entry.relPath).toOption
  { rootId := entry.rootId
    relPath := entry.relPath
    len := entry.len
    parseOk := found.isSome
    titleId := (found.map fun (id, _) => id.render).getD []
    listGeneration := generation }

namespace Batch

def status (batch : Batch) (entry : RemoteEntry) : RemoteFileStatus :=
  remoteStatus batch.cluster batch.generation entry

-- The row of an entry, over the row that was listed under its name.
def row (batch : Batch) (entry : RemoteEntry) : HomeObject :=
  let obj := HomeObject.new .RemoteFile entry.name .RemoteFile (.RemoteFile (batch.status entry))
  match batch.existing.find? fun old => old.metadata.name = entry.name with
  | some old => { obj with metadata := old.metadata }
  | none => obj

-- The listed rows that the scan did not see again.
def vanished (batch : Batch) : List HomeObject :=
  batch.existing.filter fun old =>
    !(batch.scan.entries.any fun entry => entry.isMedia && entry.name = old.metadata.name)

def holdStatus (batch : Batch) (hold : HoldLiveItem) : HoldStatus where
  listGeneration := batch.generation
  rejectionObserved := false
  reason := hold.reason
  size := hold.size
  release := hold.outputPath.getD []
  remoteRoot := (hold.remote.map Prod.fst).getD []
  remotePath := (hold.remote.map Prod.snd).getD []
  placement := hold.placement
  addedUnix := hold.addedUnix

def keepRejection (before : StatusBody) (after : HoldStatus) : HoldStatus :=
  match before with
  | .Hold before => { after with rejectionObserved := before.rejectionObserved }
  | _ => after

def holdRequest (batch : Batch) (hold : HoldLiveItem) : Option HomeObject → Serve.Request
  | some existing => .Patch .PatchStatus { existing with
      status := .Hold (keepRejection existing.status (batch.holdStatus hold)) }
  | none => .Apply (.new .Hold hold.name
      (.Hold { titleId := hold.titleId.render, releaseId := hold.releaseId, decision := .Empty })
      (.Hold (batch.holdStatus hold)))

-- The Node with the listing committed.
def committed (batch : Batch) (now : Int) (node : HomeObject) : HomeObject :=
  match node.status with
  | .Node status => { node with status := .Node { status with
      ready := true
      lastHeartbeatUnix := now
      listGeneration := batch.generation
      listCompletedUnix := now } }
  | _ => node

end Batch

-- The Hold whose rejection is to be acknowledged, or why the scan ends here. The
-- call to the gateway may fail too; that is a crash like any other.
def acknowledged (hold : HomeObject) : Except Text (Option HomeObject) :=
  match hold.spec, hold.status with
  | .Hold spec, .Hold status =>
      if spec.decision ≠ .Rejected ∨ status.rejectionObserved then pure none
      else do
        let _ ← (TitleId.parse spec.titleId).mapError TitleIdError.display
        if spec.releaseId = [] then throw "empty release_id".toList
        pure (some { hold with status := .Hold { status with rejectionObserved := true } })
  | _, _ => pure none

-- How far `refresh` has come.
inductive Phase where
  | Idle
  | Started (start : ScanStart)
  | Scanned (scan : Scan)
  | Checked (scan : Scan) (previous : Int)
  | Rejecting (scan : Scan) (previous : Int) (pending : List HomeObject)
  | Configured (scan : Scan) (previous : Int) (cluster : ClusterSpec)
  | Listed (scan : Scan) (previous : Int) (cluster : ClusterSpec) (existing : List HomeObject)
  | Publishing (batch : Batch) (pending : List RemoteEntry)
  | Deleting (batch : Batch) (pending : List HomeObject)
  | Dropping (batch : Batch) (name : Text) (resourceVersion : Int) (pending : List HomeObject)
  | Holding (batch : Batch) (pending : List HoldLiveItem)
  | Sending (batch : Batch) (request : Serve.Request) (pending : List HoldLiveItem)
  | Fetching (batch : Batch) (attempt : Nat)
  | Committing (batch : Batch) (node : HomeObject) (attempt : Nat)
  | Committed (batch : Batch)

-- A request of the worker; an error ends the scan.
def call (env : Env) (s : Store) (request : Serve.Request) (phase : Phase) : Phase × Store :=
  match Serve.serve env s s .Inventory request with
  | (.ok (), s) => (phase, s)
  | (.error _, s) => (.Idle, s)

-- `start_scan`: the reply is the Node that the request has written.
def begin (env : Env) (s : Store) : Phase × Store :=
  match Serve.serve env s s .Inventory .BeginInventory with
  | (.ok (), s) =>
      match (getNode s).bind scanStart with
      | some start => (.Started start, s)
      | none => (.Idle, s)
  | (.error _, s) => (.Idle, s)

def commit (env : Env) (s : Store) (batch : Batch) (node : HomeObject) (attempt : Nat) :
    Phase × Store :=
  if scanStart node ≠ some batch.scan.start then (.Idle, s)
  else match Serve.serve env s s .Inventory (.Patch .PatchStatus (batch.committed env.now node)) with
    | (.ok (), s) => (.Committed batch, s)
    | (.error (.Conflict _ _), s) =>
        if attempt < 2 then (.Fetching batch (attempt + 1), s) else (.Idle, s)
    | (.error _, s) => (.Idle, s)

-- The next call of the worker. A started scan waits for the gateway, and what
-- follows a commit writes nothing to the store.
def next (env : Env) (s : Store) : Phase → Phase × Store
  | .Idle => begin env s
  | .Started start => (.Started start, s)
  | .Scanned scan =>
      if scan.start.startedRv = 0 then (.Idle, s)
      else match getNode s with
        | none => (.Idle, s)
        | some node =>
            match node.status with
            | .Node status =>
                if tokenOf status ≠ scan.start then (.Idle, s)
                else (.Checked scan status.listGeneration, s)
            | _ => (.Idle, s)
  | .Checked scan previous => (.Rejecting scan previous (s.list (some .Hold)), s)
  | .Rejecting scan previous [] =>
      match (s.get .Cluster clusterName).map HomeObject.spec with
      | some (.Cluster cluster) => (.Configured scan previous cluster, s)
      | _ => (.Idle, s)
  | .Rejecting scan previous (hold :: rest) =>
      match acknowledged hold with
      | .error _ => (.Idle, s)
      | .ok none => (.Rejecting scan previous rest, s)
      | .ok (some obj) => call env s (.Patch .PatchStatus obj) (.Rejecting scan previous rest)
  | .Configured scan previous cluster =>
      (.Listed scan previous cluster (s.list (some .RemoteFile)), s)
  | .Listed scan previous cluster existing =>
      let generation := nextGeneration existing (s.list (some .Hold)) previous
      if i64Max < generation then (.Idle, s)
      else (.Publishing { scan, cluster, existing, generation } scan.entries, s)
  | .Publishing batch [] => (.Deleting batch batch.vanished, s)
  | .Publishing batch (entry :: rest) =>
      if entry.isMedia then call env s (.Apply (batch.row entry)) (.Publishing batch rest)
      else (.Publishing batch rest, s)
  | .Deleting batch [] => (.Holding batch batch.scan.holds, s)
  | .Deleting batch (old :: rest) =>
      match s.get .RemoteFile old.metadata.name with
      | none => (.Idle, s)
      | some row =>
          (.Dropping batch old.metadata.name row.metadata.resourceVersion rest, s)
  | .Dropping batch name rv rest =>
      call env s (.Delete .RemoteFile name rv) (.Deleting batch rest)
  | .Holding batch [] => (.Fetching batch 0, s)
  | .Holding batch (hold :: rest) =>
      (.Sending batch (batch.holdRequest hold (s.get .Hold hold.name)) rest, s)
  | .Sending batch request rest => call env s request (.Holding batch rest)
  | .Fetching batch attempt =>
      match getNode s with
      | none => (.Idle, s)
      | some node => (.Committing batch node attempt, s)
  | .Committing batch node attempt => commit env s batch node attempt
  | .Committed _ => (.Idle, s)

end

end Mediaops.Inventory
