import Mediaops.Core.PathSchema

namespace Mediaops

-- Home API objects. Signed 64-bit counters and clock readings are integers,
-- byte counts are the source's own 64-bit words.

def homeApiVersion : Text := "mediaops.home.v1"
def clusterName : Text := "home"
def secretName : Text := "seedbox"
def pullMaxAttempts : UInt32 := 3
def nodeNotreadySecs : Int := 30
def maxRangeLen : UInt64 := 64 * 1048576
def i64Max : Int := 9223372036854775807

inductive Kind where
  | Cluster | Secret | Title | Want | Job | Hold | RemoteFile | Node | Event | Sync
  deriving DecidableEq, Repr

namespace Kind

def asStr : Kind → Text
  | Cluster => "Cluster"
  | Secret => "Secret"
  | Title => "Title"
  | Want => "Want"
  | Job => "Job"
  | Hold => "Hold"
  | RemoteFile => "RemoteFile"
  | Node => "Node"
  | Event => "Event"
  | Sync => "Sync"

def storeKey : Kind → Text
  | Cluster => "cluster"
  | Secret => "secret"
  | Title => "title"
  | Want => "want"
  | Job => "job"
  | Hold => "hold"
  | RemoteFile => "remotefile"
  | Node => "node"
  | Event => "event"
  | Sync => "sync"

end Kind

inductive HomeError where
  | NotFound (kind : Kind) (name : Text)
  | AlreadyExists (kind : Kind) (name : Text)
  | Conflict (kind : Kind) (name : Text)
  | Expired (requested oldest : Int)
  | Invalid (message : Text)
  | Denied (message : Text)
  deriving DecidableEq, Repr

def HomeError.display : HomeError → Text
  | NotFound kind name => kind.asStr ++ " `".toList ++ name ++ "` not found".toList
  | AlreadyExists kind name => kind.asStr ++ " `".toList ++ name ++ "` already exists".toList
  | Conflict kind name => kind.asStr ++ " `".toList ++ name ++ "` resourceVersion conflict".toList
  | Expired requested oldest =>
      "watch resourceVersion ".toList ++ Text.decimalInt requested ++
        " expired (oldest retained ".toList ++ Text.decimalInt oldest ++
        "); relist and watch from zero".toList
  | Invalid message => message
  | Denied message => message

namespace Kind

def all : List Kind := [Cluster, Secret, Title, Want, Job, Hold, RemoteFile, Node, Event, Sync]

-- Every kind has two spellings, and one has a third.
def parse (raw : Text) : Except HomeError Kind :=
  match all.find? fun kind => raw = kind.asStr ∨ raw = kind.storeKey with
  | some kind => pure kind
  | none =>
      if raw = "Remote_file".toList then pure RemoteFile
      else throw (.Invalid ("unknown kind `".toList ++ raw ++ "`".toList))

end Kind

inductive Actor where
  | Cli | Import | Controller | Scheduler | Inventory | Pull | Gateway
  deriving DecidableEq, Repr

def Actor.asStr : Actor → Text
  | Cli => "cli"
  | Import => "import"
  | Controller => "controller"
  | Scheduler => "scheduler"
  | Inventory => "inventory"
  | Pull => "pull"
  | Gateway => "gateway"

structure ObjectMeta where
  name : Text
  uid : Text := []
  generation : Int := 0
  resourceVersion : Int := 0
  deriving DecidableEq, Repr

def isLowercaseB3Hex (text : Text) : Bool :=
  text.length == 64 && text.all fun c => c.isDigit || ('a' ≤ c && c ≤ 'f')

-- A digest exists only as 64 lowercase hex characters.
structure Blake3Hex where
  text : Text
  valid : isLowercaseB3Hex text = true
  deriving DecidableEq, Repr

theorem hex_zeros : isLowercaseB3Hex (List.replicate 64 '0') = true := by decide

theorem hex_as : isLowercaseB3Hex (List.replicate 64 'a') = true := by decide

theorem hex_bs : isLowercaseB3Hex (List.replicate 64 'b') = true := by decide

namespace Blake3Hex.Sample

def hexDigits (byte : UInt8) : Text :=
  [Fin.ofNat 16 (byte.toNat / 16), Fin.ofNat 16 byte.toNat].map
    "0123456789abcdef".toList.get

-- Spells the first bytes out, so that short texts are told apart.
def spelled (bytes : List UInt8) : Text :=
  (bytes.flatMap hexDigits ++ List.replicate 64 '0').take 64

theorem hex_spelled (bytes : List UInt8) : isLowercaseB3Hex (spelled bytes) = true := by
  have hdigit : ∀ n : Fin 16, (fun c : Char => c.isDigit || ('a' ≤ c && c ≤ 'f'))
      ("0123456789abcdef".toList.get n) = true := by decide
  rw [isLowercaseB3Hex, Bool.and_eq_true, beq_iff_eq, List.all_eq_true]
  refine ⟨by simp [spelled], fun c hc => ?_⟩
  rcases List.mem_append.mp (List.mem_of_mem_take hc) with hc | hc
  · obtain ⟨byte, -, hc⟩ := List.mem_flatMap.mp hc
    obtain ⟨n, -, rfl⟩ := List.mem_map.mp hc
    exact hdigit n
  · rw [List.eq_of_mem_replicate hc]
    decide

def b3 (bytes : List UInt8) : Blake3Hex := ⟨spelled bytes, hex_spelled bytes⟩

end Blake3Hex.Sample

inductive Grabber where
  | None | Servarr
  deriving DecidableEq, Repr

structure PathRoot where
  id : Text
  path : Text
  kind : Option TitleKind := none
  deriving DecidableEq, Repr

structure ClusterSpec where
  maxCopy : UInt64 := 0
  minFree : UInt64 := 0
  rangeLen : UInt64 := 1048576
  rangeConcurrency : Option UInt32 := none
  grabber : Grabber := .None
  lock : Bool := false
  encodePause : Bool := false
  libraryRoot : Text := []
  roots : List PathRoot := []
  deriving DecidableEq, Repr

structure ClusterStatus where
  acceptedGeneration : Int := 0
  reconcileGeneration : Int := 0
  deriving DecidableEq, Repr

structure SecretSpec where
  seedboxAddress : Text := []
  caSha256 : Text := []
  serverSha256 : Text := []
  clientSha256 : Text := []
  deriving DecidableEq, Repr

structure TitleSpec where
  titleId : Text := []
  desiredPresent : Bool := false
  deriving DecidableEq, Repr

structure TitleFileStatus where
  path : Text
  installB3 : Blake3Hex
  currentB3 : Blake3Hex
  drifted : Bool := false
  deriving DecidableEq, Repr

-- One proof for each placement; the single-file fields are the older form.
structure TitleStatus where
  files : List TitleFileStatus := []
  path : Text := []
  installB3 : Option Blake3Hex := none
  currentB3 : Option Blake3Hex := none
  drifted : Bool := false
  deriving DecidableEq, Repr

-- The older form counts only when it is complete and no listed file has its path.
def TitleStatus.legacyFile (status : TitleStatus) : Option TitleFileStatus :=
  match status.installB3, status.currentB3 with
  | some installB3, some currentB3 =>
      if status.path ≠ [] ∧ ¬status.files.any (fun f => f.path = status.path) then
        some { path := status.path, installB3, currentB3, drifted := status.drifted }
      else none
  | _, _ => none

def TitleStatus.observedFiles (status : TitleStatus) : List TitleFileStatus :=
  status.files ++ status.legacyFile.toList

structure WantSpec where
  titleId : Text := []
  deriving DecidableEq, Repr

inductive WantPhase where
  | Open | Satisfied | Dropped
  deriving DecidableEq, Repr

structure WantStatus where
  phase : WantPhase := .Open
  deriving DecidableEq, Repr

inductive HomeJobKind where
  | Pull
  deriving DecidableEq, Repr

structure JobSpec where
  syncName : Text := []
  holdName : Text := []
  libraryRoot : Text := []
  rangeConcurrency : UInt32 := 0
  kind : HomeJobKind := .Pull
  titleId : Text := []
  remoteRoot : Text := []
  remotePath : Text := []
  destRel : Text := []
  fileLen : UInt64 := 0
  rangeLen : UInt64 := 0
  maxCopy : UInt64 := 0
  minFree : UInt64 := 0
  nodeName : Text := []
  workerKind : Text := []
  deriving DecidableEq, Repr

inductive JobPhase where
  | Pending | Pulling | Verifying | Installed | Refused | Failed
  deriving DecidableEq, Repr

def JobPhase.isTerminal : JobPhase → Bool
  | Installed | Refused | Failed => true
  | _ => false

structure JobStatus where
  startedUnix : Int := 0
  verifiedB3 : Option Blake3Hex := none
  phase : JobPhase := .Pending
  bytesDone : UInt64 := 0
  attempts : UInt32 := 0
  message : Text := []
  deriving DecidableEq, Repr

inductive HoldDecisionSpec where
  | Empty | Approved | Rejected
  deriving DecidableEq, Repr

structure HoldSpec where
  titleId : Text := []
  releaseId : Text := []
  decision : HoldDecisionSpec := .Empty
  deriving DecidableEq, Repr

structure HoldStatus where
  listGeneration : Int := 0
  rejectionObserved : Bool := false
  remoteRoot : Text := []
  remotePath : Text := []
  placement : Option Placement := none
  addedUnix : Int := 0
  reason : Text := []
  size : UInt64 := 0
  release : Text := []
  deriving DecidableEq, Repr

structure RemoteFileStatus where
  rootId : Text := []
  relPath : Text := []
  len : UInt64 := 0
  parseOk : Bool := false
  titleId : Text := []
  listGeneration : Int := 0
  deriving DecidableEq, Repr

inductive WorkerKind where
  | Pull | Scheduler | Inventory
  deriving DecidableEq, Repr

def WorkerKind.asStr : WorkerKind → Text
  | Pull => "pull"
  | Scheduler => "scheduler"
  | Inventory => "inventory"

def WorkerKind.nodeName (worker : WorkerKind) : Text := worker.asStr

structure NodeSpec where
  workerKind : WorkerKind := .Pull
  deriving DecidableEq, Repr

structure NodeStatus where
  listGeneration : Int := 0
  listCompletedUnix : Int := 0
  ready : Bool := false
  lastHeartbeatUnix : Int := 0
  scanStartedRv : Int := 0
  scanClusterGeneration : Int := 0
  scanSecretResourceVersion : Int := 0
  deriving DecidableEq, Repr

structure EventStatus where
  involvedKind : Text := []
  involvedName : Text := []
  reason : Text := []
  message : Text := []
  ts : Int := 0
  deriving DecidableEq, Repr

inductive SyncScope where
  | AllEligibleCompleted
  deriving DecidableEq, Repr

structure SyncSpec where
  scope : SyncScope := .AllEligibleCompleted
  deriving DecidableEq, Repr

inductive SyncPhase where
  | WaitingInventory | Captured | Scheduled | Failed
  deriving DecidableEq, Repr

inductive SyncDisposition where
  | WouldQueue | Queued | AlreadyQueued | Present | Blocked | Ineligible
  deriving DecidableEq, Repr

structure SyncEntry where
  remoteRoot : Text := []
  remotePath : Text := []
  fileLen : UInt64 := 0
  titleId : Text := []
  placement : Option Placement := none
  job : Option JobSpec := none
  disposition : SyncDisposition := .WouldQueue
  reason : Text := []
  jobName : Text := []
  jobUid : Text := []
  deriving DecidableEq, Repr

structure SyncStatus where
  phase : SyncPhase := .WaitingInventory
  acceptedUnix : Int := 0
  deadlineUnix : Int := 0
  baselineGeneration : Int := 0
  acceptanceRv : Int := 0
  listGeneration : Int := 0
  cluster : Option ClusterSpec := none
  clusterGeneration : Int := 0
  secretResourceVersion : Int := 0
  entries : List SyncEntry := []
  message : Text := []
  deriving DecidableEq, Repr

inductive Spec where
  | Cluster (spec : ClusterSpec)
  | Secret (spec : SecretSpec)
  | Title (spec : TitleSpec)
  | Want (spec : WantSpec)
  | Job (spec : JobSpec)
  | Hold (spec : HoldSpec)
  | RemoteFile
  | Node (spec : NodeSpec)
  | Event
  | Sync (spec : SyncSpec)
  deriving DecidableEq, Repr

inductive StatusBody where
  | Cluster (status : ClusterStatus)
  | Secret
  | Title (status : TitleStatus)
  | Want (status : WantStatus)
  | Job (status : JobStatus)
  | Hold (status : HoldStatus)
  | RemoteFile (status : RemoteFileStatus)
  | Node (status : NodeStatus)
  | Event (status : EventStatus)
  | Sync (status : SyncStatus)
  deriving DecidableEq, Repr

namespace Spec

def kind : Spec → Kind
  | Cluster _ => .Cluster
  | Secret _ => .Secret
  | Title _ => .Title
  | Want _ => .Want
  | Job _ => .Job
  | Hold _ => .Hold
  | RemoteFile => .RemoteFile
  | Node _ => .Node
  | Event => .Event
  | Sync _ => .Sync

-- Kinds whose whole payload is status.
def isStatusOnly : Spec → Bool
  | RemoteFile | Event => true
  | _ => false

end Spec

namespace StatusBody

def kind : StatusBody → Kind
  | Cluster _ => .Cluster
  | Secret => .Secret
  | Title _ => .Title
  | Want _ => .Want
  | Job _ => .Job
  | Hold _ => .Hold
  | RemoteFile _ => .RemoteFile
  | Node _ => .Node
  | Event _ => .Event
  | Sync _ => .Sync

def empty : Kind → StatusBody
  | .Cluster => Cluster {}
  | .Secret => Secret
  | .Title => Title {}
  | .Want => Want {}
  | .Job => Job {}
  | .Hold => Hold {}
  | .RemoteFile => RemoteFile {}
  | .Node => Node {}
  | .Event => Event {}
  | .Sync => Sync {}

@[simp] theorem empty_kind (kind : Kind) : (empty kind).kind = kind := by
  cases kind <;> rfl

end StatusBody

structure HomeObject where
  apiVersion : Text := homeApiVersion
  kind : Kind
  metadata : ObjectMeta
  spec : Spec
  status : StatusBody
  deriving DecidableEq, Repr

namespace HomeObject

-- Zero the Secret field that must never appear on a CLI get.
def redact (obj : HomeObject) : HomeObject :=
  match obj.spec with
  | .Secret secret => { obj with spec := .Secret { secret with seedboxAddress := [] } }
  | _ => obj

-- `HomeObject::new`
def new (kind : Kind) (name : Text) (spec : Spec) (status : StatusBody) : HomeObject :=
  { kind, metadata := { name }, spec, status }

-- Both bodies are of the object's kind. Rows are stored as kind and JSON bodies,
-- so only such an object reads back as it was written.
def Agrees (obj : HomeObject) : Prop := obj.spec.kind = obj.kind ∧ obj.status.kind = obj.kind

instance (obj : HomeObject) : Decidable obj.Agrees := inferInstanceAs (Decidable (_ ∧ _))

end HomeObject

-- A readiness flag counts only with a fresh heartbeat. The source's saturating
-- subtraction differs from this one only far beyond the bound.
def nodeIsReady (ready : Bool) (lastHeartbeatUnix nowUnix : Int) : Bool :=
  ready && decide (lastHeartbeatUnix ≤ nowUnix) &&
    decide (nowUnix - lastHeartbeatUnix < nodeNotreadySecs)

def remoteFileName (rootId relPath : Text) : Text := rootId ++ "/".toList ++ relPath

-- `u64::checked_add` and `u64::saturating_add`
def checkedAdd (a b : UInt64) : Option UInt64 :=
  if a.toNat + b.toNat < 2 ^ 64 then some (a + b) else none

def saturatingAdd (a b : UInt64) : UInt64 := (checkedAdd a b).getD (UInt64.ofNat (2 ^ 64 - 1))

-- Whether a pull of `fileLen` fits the budget and the watermark.
def pullFits (free minFree maxCopy alreadyBound fileLen : UInt64) : Bool :=
  match checkedAdd alreadyBound fileLen with
  | none => false
  | some required =>
      if 0 < maxCopy ∧ maxCopy < required then false
      else if required ≤ free then decide (minFree ≤ free - required) else false

namespace RemoteRef

def isContainedRelative (rel : Text) : Bool :=
  !Path.isAbsolute rel &&
    (Path.components rel).all fun c => c ≠ .ParentDir && c ≠ .RootDir

-- `RemoteRef::from_wire_parts`, with the text of its error.
def check (rootId relPath : Text) : Except Text Unit :=
  if rootId = [] then throw "empty allowlist root id".toList
  else if relPath = [] ∨ !isContainedRelative relPath then
    throw ("unknown path `".toList ++ relPath ++ "` is outside the allowlist".toList)
  else pure ()

end RemoteRef

-- A reference to a file under one root of the far side. Paths compare by their
-- components, so two spellings of one path are one reference.
structure RemoteRef where
  rootId : Text
  relPath : Text
  valid : RemoteRef.check rootId relPath = .ok ()
  deriving DecidableEq

def RemoteRef.key (remote : RemoteRef) : Text × List Component :=
  (remote.rootId, Path.components remote.relPath)

def videoExtensions : List Text :=
  ["mkv", "mp4", "m4v", "avi", "ts", "mov", "webm", "wmv"].map String.toList

def audioExtensions : List Text :=
  ["flac", "mp3", "m4a", "ogg", "opus", "wav", "aac", "aiff"].map String.toList

def isMediaFile (relPath : Text) : Bool :=
  let lower := Text.toAsciiLowercase ((Path.fileName relPath).getD [])
  if "sample".toList <:+: lower then false
  else match Text.rsplitOnce '.' lower with
    | none => false
    | some (_, extension) =>
        videoExtensions.contains extension || audioExtensions.contains extension

inductive HomeOp where
  | Get | List | Watch | Apply | PatchSpec | PatchStatus | PatchBind | Delete | Reconcile
  deriving DecidableEq, Repr

def HomeOp.verb : HomeOp → Text
  | Get => "get"
  | List => "list"
  | Watch => "watch"
  | Apply => "apply"
  | PatchSpec => "patch spec of"
  | PatchStatus => "patch status of"
  | PatchBind => "bind"
  | Delete => "delete"
  | Reconcile => "reconcile"

-- Who may write which kind.
def admitted : Actor → HomeOp → Kind → Bool
  | _, .Get, _ | _, .List, _ | _, .Watch, _ => true
  | actor, .Reconcile, .Cluster =>
      actor = .Cli ∨ actor = .Import ∨ actor = .Controller
  | actor, .Apply, .Cluster | actor, .Apply, .Secret | actor, .Apply, .Want
  | actor, .Apply, .Title => actor = .Cli ∨ actor = .Import ∨ actor = .Controller
  | actor, .Apply, .Hold => actor = .Inventory ∨ actor = .Import
  | actor, .Apply, .RemoteFile => actor = .Inventory
  | actor, .Apply, .Node => actor = .Scheduler ∨ actor = .Inventory ∨ actor = .Pull
  | _, .Apply, .Event => true
  | actor, .Apply, .Job => actor = .Controller
  | actor, .PatchSpec, .Hold => actor = .Cli ∨ actor = .Import
  | actor, .PatchSpec, .Want | actor, .PatchSpec, .Title | actor, .PatchSpec, .Cluster
  | actor, .PatchSpec, .Secret => actor = .Cli ∨ actor = .Import
  | actor, .PatchBind, .Job => actor = .Scheduler
  | actor, .PatchStatus, .Job => actor = .Pull ∨ actor = .Controller
  | actor, .PatchStatus, .Title => actor = .Pull ∨ actor = .Controller ∨ actor = .Import
  | actor, .PatchStatus, .Hold | actor, .PatchStatus, .RemoteFile =>
      actor = .Inventory ∨ actor = .Controller
  | actor, .PatchStatus, .Node => actor = .Scheduler ∨ actor = .Inventory ∨ actor = .Pull
  | actor, .PatchStatus, .Want | actor, .PatchStatus, .Cluster => actor = .Controller
  | actor, .Delete, .Want | actor, .Delete, .Job | actor, .Delete, .Hold
  | actor, .Delete, .Event => actor = .Cli ∨ actor = .Import
  | actor, .Delete, .Sync => actor = .Cli
  | actor, .Delete, .RemoteFile => actor = .Inventory
  | actor, .Delete, .Node =>
      actor = .Scheduler ∨ actor = .Inventory ∨ actor = .Pull ∨ actor = .Cli
  | _, _, _ => false

def admitOp (actor : Actor) (op : HomeOp) (kind : Kind) : Except HomeError Unit :=
  if admitted actor op kind then pure ()
  else throw (.Denied (actor.asStr ++ " may not ".toList ++ op.verb ++ " ".toList ++ kind.asStr))

end Mediaops
