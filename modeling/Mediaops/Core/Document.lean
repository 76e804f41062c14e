import Mediaops.Core.Validate
import Mediaops.Core.Words
import Mediaops.Library.Serde
import Mediaops.Library.Text.Utf8

namespace Mediaops

-- Home objects as documents: how each struct is written as JSON and read again, and
-- the reading of a document that was JSON or TOML.

-- `char::to_uppercase`
class UppercaseTable where
  toUppercase : Char → Text
  toUppercase_ascii : ∀ c : Char, c.val < 128 → toUppercase c = [c.toUpper]

abbrev UppercaseTable.ascii : UppercaseTable where
  toUppercase c := [c.toUpper]
  toUppercase_ascii _ _ := rfl

namespace Document

open Serde
open Json (Member keys)

def names (words : List String) : List Text := words.map String.toList

-- The names that the variants of an enumeration have in a document.
def grabberName : Grabber → Text
  | .None => "none"
  | .Servarr => "servarr"

def decisionName : HoldDecisionSpec → Text
  | .Empty => "empty"
  | .Approved => "approved"
  | .Rejected => "rejected"

def ofText : Text → Json := Json.String

def ofDigest (digest : Blake3Hex) : Json := ofText digest.text

def readDigest (value : Json) : Option Blake3Hex :=
  (readText value).bind fun raw => (Blake3Hex.parse raw).toOption

def readKind : Json → Option TitleKind := readVariant [.Movie, .Series, .Album] TitleKind.asStr

def readGrabber : Json → Option Grabber := readVariant [.None, .Servarr] grabberName

def readWantPhase : Json → Option WantPhase :=
  readVariant [.Open, .Satisfied, .Dropped] WantPhase.asStr

def readJobKind : Json → Option HomeJobKind := readVariant [.Pull] HomeJobKind.asStr

def readJobPhase : Json → Option JobPhase :=
  readVariant [.Pending, .Pulling, .Verifying, .Installed, .Refused, .Failed] JobPhase.asStr

def readDecision : Json → Option HoldDecisionSpec :=
  readVariant [.Empty, .Approved, .Rejected] decisionName

def readWorker : Json → Option WorkerKind :=
  readVariant [.Pull, .Scheduler, .Inventory] WorkerKind.asStr

def readScope : Json → Option SyncScope := readVariant [.AllEligibleCompleted] SyncScope.asStr

def readSyncPhase : Json → Option SyncPhase :=
  readVariant [.WaitingInventory, .Captured, .Scheduled, .Failed] SyncPhase.asStr

def readDisposition : Json → Option SyncDisposition :=
  readVariant [.WouldQueue, .Queued, .AlreadyQueued, .Present, .Blocked, .Ineligible]
    SyncDisposition.asStr

-- `skip_serializing_if` of an empty text and of a zero.
def filled (text : Text) : Option Json := unlessSkipped (text = []) (ofText text)

def nonzero (n : Int) : Option Json := unlessSkipped (n = 0) (ofI64 n)

def pathRootNames : List Text := names ["id", "path", "kind"]

def pathRootToJson (root : PathRoot) : Json :=
  record pathRootNames
    [some (ofText root.id), some (ofText root.path),
      some ((root.kind.map fun kind => ofText kind.asStr).getD .Null)]

def pathRootFromJson (value : Json) : Option PathRoot :=
  match fields pathRootNames value with
  | some [id, path, kind] => do
      pure { id := ← required readText id, path := ← required readText path,
             kind := ← optional readKind kind }
  | _ => none

def clusterSpecNames : List Text :=
  names ["maxCopy", "minFree", "rangeLen", "rangeConcurrency", "grabber", "lock", "encodePause",
    "libraryRoot", "roots"]

def clusterSpecToJson (s : ClusterSpec) : Json :=
  record clusterSpecNames
    [some (ofU64 s.maxCopy), some (ofU64 s.minFree), some (ofU64 s.rangeLen),
      s.rangeConcurrency.map ofU32, some (ofText (grabberName s.grabber)), some (.Bool s.lock),
      some (.Bool s.encodePause), some (ofText s.libraryRoot), some (ofList pathRootToJson s.roots)]

def clusterSpecFromJson (value : Json) : Option ClusterSpec :=
  match fields clusterSpecNames value with
  | some [maxCopy, minFree, rangeLen, rangeConcurrency, grabber, lock, encodePause, libraryRoot,
      roots] => do
      pure { maxCopy := ← required readU64 maxCopy
             minFree := ← required readU64 minFree
             rangeLen := ← required readU64 rangeLen
             rangeConcurrency := ← optional readU32 rangeConcurrency
             grabber := ← required readGrabber grabber
             lock := ← defaulted false readBool lock
             encodePause := ← defaulted false readBool encodePause
             libraryRoot := ← defaulted [] readText libraryRoot
             roots := ← defaulted [] (readList pathRootFromJson) roots }
  | _ => none

def clusterStatusNames : List Text := names ["acceptedGeneration", "reconcileGeneration"]

def clusterStatusToJson (s : ClusterStatus) : Json :=
  record clusterStatusNames [some (ofI64 s.acceptedGeneration), some (ofI64 s.reconcileGeneration)]

def clusterStatusFromJson (value : Json) : Option ClusterStatus :=
  match fields clusterStatusNames value with
  | some [acceptedGeneration, reconcileGeneration] => do
      pure { acceptedGeneration := ← defaulted 0 readI64 acceptedGeneration
             reconcileGeneration := ← defaulted 0 readI64 reconcileGeneration }
  | _ => none

def secretSpecNames : List Text :=
  names ["seedboxAddress", "caSha256", "serverSha256", "clientSha256"]

def secretSpecToJson (s : SecretSpec) : Json :=
  record secretSpecNames
    [some (ofText s.seedboxAddress), some (ofText s.caSha256), some (ofText s.serverSha256),
      some (ofText s.clientSha256)]

def secretSpecFromJson (value : Json) : Option SecretSpec :=
  match fields secretSpecNames value with
  | some [seedboxAddress, caSha256, serverSha256, clientSha256] => do
      pure { seedboxAddress := ← required readText seedboxAddress
             caSha256 := ← defaulted [] readText caSha256
             serverSha256 := ← defaulted [] readText serverSha256
             clientSha256 := ← defaulted [] readText clientSha256 }
  | _ => none

def titleSpecNames : List Text := names ["titleId", "desiredPresent"]

def titleSpecToJson (s : TitleSpec) : Json :=
  record titleSpecNames [some (ofText s.titleId), some (.Bool s.desiredPresent)]

def titleSpecFromJson (value : Json) : Option TitleSpec :=
  match fields titleSpecNames value with
  | some [titleId, desiredPresent] => do
      pure { titleId := ← defaulted [] readText titleId
             desiredPresent := ← defaulted false readBool desiredPresent }
  | _ => none

def titleFileNames : List Text := names ["path", "installB3", "currentB3", "drifted"]

def titleFileToJson (s : TitleFileStatus) : Json :=
  record titleFileNames
    [some (ofText s.path), some (ofDigest s.installB3), some (ofDigest s.currentB3),
      some (.Bool s.drifted)]

def titleFileFromJson (value : Json) : Option TitleFileStatus :=
  match fields titleFileNames value with
  | some [path, installB3, currentB3, drifted] => do
      pure { path := ← required readText path
             installB3 := ← required readDigest installB3
             currentB3 := ← required readDigest currentB3
             drifted := ← defaulted false readBool drifted }
  | _ => none

def titleStatusNames : List Text := names ["files", "path", "installB3", "currentB3", "drifted"]

def titleStatusToJson (s : TitleStatus) : Json :=
  record titleStatusNames
    [unlessSkipped s.files.isEmpty (ofList titleFileToJson s.files), some (ofText s.path),
      s.installB3.map ofDigest, s.currentB3.map ofDigest, some (.Bool s.drifted)]

def titleStatusFromJson (value : Json) : Option TitleStatus :=
  match fields titleStatusNames value with
  | some [files, path, installB3, currentB3, drifted] => do
      pure { files := ← defaulted [] (readList titleFileFromJson) files
             path := ← defaulted [] readText path
             installB3 := ← optional readDigest installB3
             currentB3 := ← optional readDigest currentB3
             drifted := ← defaulted false readBool drifted }
  | _ => none

def wantSpecNames : List Text := names ["titleId"]

def wantSpecToJson (s : WantSpec) : Json := record wantSpecNames [some (ofText s.titleId)]

def wantSpecFromJson (value : Json) : Option WantSpec :=
  match fields wantSpecNames value with
  | some [titleId] => do pure { titleId := ← required readText titleId }
  | _ => none

def wantStatusNames : List Text := names ["phase"]

def wantStatusToJson (s : WantStatus) : Json :=
  record wantStatusNames [some (ofText s.phase.asStr)]

def wantStatusFromJson (value : Json) : Option WantStatus :=
  match fields wantStatusNames value with
  | some [phase] => do pure { phase := ← defaulted .Open readWantPhase phase }
  | _ => none

def jobSpecNames : List Text :=
  names ["syncName", "holdName", "libraryRoot", "rangeConcurrency", "kind", "titleId", "remoteRoot",
    "remotePath", "destRel", "fileLen", "rangeLen", "maxCopy", "minFree", "nodeName", "workerKind"]

def jobSpecToJson (s : JobSpec) : Json :=
  record jobSpecNames
    [filled s.syncName, some (ofText s.holdName), some (ofText s.libraryRoot),
      some (ofU32 s.rangeConcurrency), some (ofText s.kind.asStr), some (ofText s.titleId),
      some (ofText s.remoteRoot), some (ofText s.remotePath), some (ofText s.destRel),
      some (ofU64 s.fileLen), some (ofU64 s.rangeLen), some (ofU64 s.maxCopy),
      some (ofU64 s.minFree), some (ofText s.nodeName), some (ofText s.workerKind)]

def jobSpecFromJson (value : Json) : Option JobSpec :=
  match fields jobSpecNames value with
  | some [syncName, holdName, libraryRoot, rangeConcurrency, kind, titleId, remoteRoot, remotePath,
      destRel, fileLen, rangeLen, maxCopy, minFree, nodeName, workerKind] => do
      pure { syncName := ← defaulted [] readText syncName
             holdName := ← defaulted [] readText holdName
             libraryRoot := ← defaulted [] readText libraryRoot
             rangeConcurrency := ← defaulted 1 readU32 rangeConcurrency
             kind := ← required readJobKind kind
             titleId := ← defaulted [] readText titleId
             remoteRoot := ← defaulted [] readText remoteRoot
             remotePath := ← defaulted [] readText remotePath
             destRel := ← defaulted [] readText destRel
             fileLen := ← defaulted 0 readU64 fileLen
             rangeLen := ← defaulted 0 readU64 rangeLen
             maxCopy := ← defaulted 0 readU64 maxCopy
             minFree := ← defaulted 0 readU64 minFree
             nodeName := ← defaulted [] readText nodeName
             workerKind := ← defaulted [] readText workerKind }
  | _ => none

def jobStatusNames : List Text :=
  names ["startedUnix", "verifiedB3", "phase", "bytesDone", "attempts", "message"]

def jobStatusToJson (s : JobStatus) : Json :=
  record jobStatusNames
    [some (ofI64 s.startedUnix), s.verifiedB3.map ofDigest, some (ofText s.phase.asStr),
      some (ofU64 s.bytesDone), some (ofU32 s.attempts), some (ofText s.message)]

def jobStatusFromJson (value : Json) : Option JobStatus :=
  match fields jobStatusNames value with
  | some [startedUnix, verifiedB3, phase, bytesDone, attempts, message] => do
      pure { startedUnix := ← defaulted 0 readI64 startedUnix
             verifiedB3 := ← optional readDigest verifiedB3
             phase := ← required readJobPhase phase
             bytesDone := ← defaulted 0 readU64 bytesDone
             attempts := ← defaulted 0 readU32 attempts
             message := ← defaulted [] readText message }
  | _ => none

def holdSpecNames : List Text := names ["titleId", "releaseId", "decision"]

def holdSpecToJson (s : HoldSpec) : Json :=
  record holdSpecNames
    [some (ofText s.titleId), some (ofText s.releaseId), some (ofText (decisionName s.decision))]

def holdSpecFromJson (value : Json) : Option HoldSpec :=
  match fields holdSpecNames value with
  | some [titleId, releaseId, decision] => do
      pure { titleId := ← defaulted [] readText titleId
             releaseId := ← defaulted [] readText releaseId
             decision := ← defaulted .Empty readDecision decision }
  | _ => none

-- A placement is tagged by its kind; its own names are the source's.
def tag : Text := "kind"

def movieNames : List Text := names ["title", "year", "extension"]

def episodeNames : List Text :=
  names ["title", "year", "season", "episode", "episode_end", "episode_title", "extension"]

def trackNames : List Text :=
  names ["artist", "album", "year", "disc", "track", "title", "extension"]

def placementToJson : Placement → Json
  | .Movie title year extension =>
      record (tag :: movieNames)
        [some (ofText "movie"), some (ofText title), some (ofNat year), some (ofText extension)]
  | .Episode title year season episode episodeEnd episodeTitle extension =>
      record (tag :: episodeNames)
        [some (ofText "episode"), some (ofText title), some (ofNat year), some (ofNat season),
          some (ofNat episode), episodeEnd.map ofNat, episodeTitle.map ofText,
          some (ofText extension)]
  | .Track artist album year disc track title extension =>
      record (tag :: trackNames)
        [some (ofText "track"), some (ofText artist), some (ofText album), some (ofNat year),
          disc.map ofNat, track.map ofNat, some (ofText title), some (ofText extension)]

def movieFromJson (value : Json) : Option Placement :=
  match taggedFields tag movieNames value with
  | some [title, year, extension] => do
      pure (.Movie (← required readText title) (← required (readBelow 65536) year)
        (← required readText extension))
  | _ => none

def episodeFromJson (value : Json) : Option Placement :=
  match taggedFields tag episodeNames value with
  | some [title, year, season, episode, episodeEnd, episodeTitle, extension] => do
      pure (.Episode (← required readText title) (← required (readBelow 65536) year)
        (← required (readBelow 256) season) (← required (readBelow 65536) episode)
        (← optional (readBelow 65536) episodeEnd) (← optional readText episodeTitle)
        (← required readText extension))
  | _ => none

def trackFromJson (value : Json) : Option Placement :=
  match taggedFields tag trackNames value with
  | some [artist, album, year, disc, track, title, extension] => do
      pure (.Track (← defaulted [] readText artist) (← required readText album)
        (← required (readBelow 65536) year) (← optional (readBelow 256) disc)
        (← optional (readBelow 256) track) (← required readText title)
        (← required readText extension))
  | _ => none

def placementFromJson (value : Json) : Option Placement := do
  let kind ← tagOf tag value
  if kind = "movie".toList then movieFromJson value
  else if kind = "episode".toList then episodeFromJson value
  else if kind = "track".toList then trackFromJson value
  else none

def holdStatusNames : List Text :=
  names ["listGeneration", "rejectionObserved", "remoteRoot", "remotePath", "placement", "addedUnix",
    "reason", "size", "release"]

def holdStatusToJson (s : HoldStatus) : Json :=
  record holdStatusNames
    [some (ofI64 s.listGeneration), some (.Bool s.rejectionObserved), some (ofText s.remoteRoot),
      some (ofText s.remotePath), s.placement.map placementToJson, some (ofI64 s.addedUnix),
      some (ofText s.reason), some (ofU64 s.size), some (ofText s.release)]

def holdStatusFromJson (value : Json) : Option HoldStatus :=
  match fields holdStatusNames value with
  | some [listGeneration, rejectionObserved, remoteRoot, remotePath, placement, addedUnix, reason,
      size, release] => do
      pure { listGeneration := ← defaulted 0 readI64 listGeneration
             rejectionObserved := ← defaulted false readBool rejectionObserved
             remoteRoot := ← defaulted [] readText remoteRoot
             remotePath := ← defaulted [] readText remotePath
             placement := ← optional placementFromJson placement
             addedUnix := ← defaulted 0 readI64 addedUnix
             reason := ← defaulted [] readText reason
             size := ← defaulted 0 readU64 size
             release := ← defaulted [] readText release }
  | _ => none

def remoteFileNames : List Text :=
  names ["rootId", "relPath", "len", "parseOk", "titleId", "listGeneration"]

def remoteFileToJson (s : RemoteFileStatus) : Json :=
  record remoteFileNames
    [some (ofText s.rootId), some (ofText s.relPath), some (ofU64 s.len), some (.Bool s.parseOk),
      some (ofText s.titleId), some (ofI64 s.listGeneration)]

def remoteFileFromJson (value : Json) : Option RemoteFileStatus :=
  match fields remoteFileNames value with
  | some [rootId, relPath, len, parseOk, titleId, listGeneration] => do
      pure { rootId := ← defaulted [] readText rootId
             relPath := ← defaulted [] readText relPath
             len := ← defaulted 0 readU64 len
             parseOk := ← defaulted false readBool parseOk
             titleId := ← defaulted [] readText titleId
             listGeneration := ← defaulted 0 readI64 listGeneration }
  | _ => none

def nodeSpecNames : List Text := names ["workerKind"]

def nodeSpecToJson (s : NodeSpec) : Json :=
  record nodeSpecNames [some (ofText s.workerKind.asStr)]

def nodeSpecFromJson (value : Json) : Option NodeSpec :=
  match fields nodeSpecNames value with
  | some [workerKind] => do pure { workerKind := ← required readWorker workerKind }
  | _ => none

def nodeStatusNames : List Text :=
  names ["listGeneration", "listCompletedUnix", "ready", "lastHeartbeatUnix", "scanStartedRv",
    "scanClusterGeneration", "scanSecretResourceVersion"]

def nodeStatusToJson (s : NodeStatus) : Json :=
  record nodeStatusNames
    [some (ofI64 s.listGeneration), some (ofI64 s.listCompletedUnix), some (.Bool s.ready),
      some (ofI64 s.lastHeartbeatUnix), nonzero s.scanStartedRv, nonzero s.scanClusterGeneration,
      nonzero s.scanSecretResourceVersion]

def nodeStatusFromJson (value : Json) : Option NodeStatus :=
  match fields nodeStatusNames value with
  | some [listGeneration, listCompletedUnix, ready, lastHeartbeatUnix, scanStartedRv,
      scanClusterGeneration, scanSecretResourceVersion] => do
      pure { listGeneration := ← defaulted 0 readI64 listGeneration
             listCompletedUnix := ← defaulted 0 readI64 listCompletedUnix
             ready := ← defaulted false readBool ready
             lastHeartbeatUnix := ← defaulted 0 readI64 lastHeartbeatUnix
             scanStartedRv := ← defaulted 0 readI64 scanStartedRv
             scanClusterGeneration := ← defaulted 0 readI64 scanClusterGeneration
             scanSecretResourceVersion := ← defaulted 0 readI64 scanSecretResourceVersion }
  | _ => none

def eventNames : List Text := names ["involvedKind", "involvedName", "reason", "message", "ts"]

def eventToJson (s : EventStatus) : Json :=
  record eventNames
    [some (ofText s.involvedKind), some (ofText s.involvedName), some (ofText s.reason),
      some (ofText s.message), some (ofI64 s.ts)]

def eventFromJson (value : Json) : Option EventStatus :=
  match fields eventNames value with
  | some [involvedKind, involvedName, reason, message, ts] => do
      pure { involvedKind := ← defaulted [] readText involvedKind
             involvedName := ← defaulted [] readText involvedName
             reason := ← defaulted [] readText reason
             message := ← defaulted [] readText message
             ts := ← defaulted 0 readI64 ts }
  | _ => none

def syncSpecNames : List Text := names ["scope"]

def syncSpecToJson (s : SyncSpec) : Json := record syncSpecNames [some (ofText s.scope.asStr)]

def syncSpecFromJson (value : Json) : Option SyncSpec :=
  match fields syncSpecNames value with
  | some [scope] => do pure { scope := ← defaulted .AllEligibleCompleted readScope scope }
  | _ => none

def syncEntryNames : List Text :=
  names ["remoteRoot", "remotePath", "fileLen", "titleId", "placement", "job", "disposition",
    "reason", "jobName", "jobUid"]

def syncEntryToJson (e : SyncEntry) : Json :=
  record syncEntryNames
    [filled e.remoteRoot, filled e.remotePath, unlessSkipped (e.fileLen = 0) (ofU64 e.fileLen),
      filled e.titleId, e.placement.map placementToJson, e.job.map jobSpecToJson,
      some (ofText e.disposition.asStr), filled e.reason, filled e.jobName, filled e.jobUid]

def syncEntryFromJson (value : Json) : Option SyncEntry :=
  match fields syncEntryNames value with
  | some [remoteRoot, remotePath, fileLen, titleId, placement, job, disposition, reason, jobName,
      jobUid] => do
      pure { remoteRoot := ← defaulted [] readText remoteRoot
             remotePath := ← defaulted [] readText remotePath
             fileLen := ← defaulted 0 readU64 fileLen
             titleId := ← defaulted [] readText titleId
             placement := ← optional placementFromJson placement
             job := ← optional jobSpecFromJson job
             disposition := ← defaulted .WouldQueue readDisposition disposition
             reason := ← defaulted [] readText reason
             jobName := ← defaulted [] readText jobName
             jobUid := ← defaulted [] readText jobUid }
  | _ => none

def syncStatusNames : List Text :=
  names ["phase", "acceptedUnix", "deadlineUnix", "baselineGeneration", "acceptanceRv",
    "listGeneration", "cluster", "clusterGeneration", "secretResourceVersion", "entries", "message"]

def syncStatusToJson (s : SyncStatus) : Json :=
  record syncStatusNames
    [some (ofText s.phase.asStr), nonzero s.acceptedUnix, nonzero s.deadlineUnix,
      nonzero s.baselineGeneration, nonzero s.acceptanceRv, nonzero s.listGeneration,
      s.cluster.map clusterSpecToJson, nonzero s.clusterGeneration, nonzero s.secretResourceVersion,
      unlessSkipped s.entries.isEmpty (ofList syncEntryToJson s.entries), filled s.message]

def syncStatusFromJson (value : Json) : Option SyncStatus :=
  match fields syncStatusNames value with
  | some [phase, acceptedUnix, deadlineUnix, baselineGeneration, acceptanceRv, listGeneration,
      cluster, clusterGeneration, secretResourceVersion, entries, message] => do
      pure { phase := ← defaulted .WaitingInventory readSyncPhase phase
             acceptedUnix := ← defaulted 0 readI64 acceptedUnix
             deadlineUnix := ← defaulted 0 readI64 deadlineUnix
             baselineGeneration := ← defaulted 0 readI64 baselineGeneration
             acceptanceRv := ← defaulted 0 readI64 acceptanceRv
             listGeneration := ← defaulted 0 readI64 listGeneration
             cluster := ← optional clusterSpecFromJson cluster
             clusterGeneration := ← defaulted 0 readI64 clusterGeneration
             secretResourceVersion := ← defaulted 0 readI64 secretResourceVersion
             entries := ← defaulted [] (readList syncEntryFromJson) entries
             message := ← defaulted [] readText message }
  | _ => none

-- The bodies are untagged; a body without content is null.
def specToJson : Spec → Json
  | .Cluster s => clusterSpecToJson s
  | .Secret s => secretSpecToJson s
  | .Title s => titleSpecToJson s
  | .Want s => wantSpecToJson s
  | .Job s => jobSpecToJson s
  | .Hold s => holdSpecToJson s
  | .RemoteFile => .Null
  | .Node s => nodeSpecToJson s
  | .Event => .Null
  | .Sync s => syncSpecToJson s

def statusToJson : StatusBody → Json
  | .Cluster s => clusterStatusToJson s
  | .Secret => .Null
  | .Title s => titleStatusToJson s
  | .Want s => wantStatusToJson s
  | .Job s => jobStatusToJson s
  | .Hold s => holdStatusToJson s
  | .RemoteFile s => remoteFileToJson s
  | .Node s => nodeStatusToJson s
  | .Event s => eventToJson s
  | .Sync s => syncStatusToJson s

def metadataNames : List Text := names ["name", "uid", "generation", "resourceVersion"]

def metadataToJson (m : ObjectMeta) : Json :=
  record metadataNames
    [some (ofText m.name), some (ofText m.uid), some (ofI64 m.generation),
      some (ofI64 m.resourceVersion)]

def objectNames : List Text := names ["apiVersion", "kind", "metadata", "spec", "status"]

def toJson (obj : HomeObject) : Json :=
  record objectNames
    [some (ofText obj.apiVersion), some (ofText obj.kind.asStr), some (metadataToJson obj.metadata),
      some (specToJson obj.spec), some (statusToJson obj.status)]

-- What an object is written as.
def document (obj : HomeObject) : Json := withoutNulls (toJson obj)

def rejectUnknown (allowed : List Text) : Json → Except HomeError Unit
  | .Object map =>
      match (keys map).find? fun key => key ∉ allowed with
      | some key => throw (.Invalid ("unknown field `".toList ++ key ++ "`".toList))
      | none => pure ()
  | _ => throw (invalid "object expected")

section Reading

-- What the reader says of a body that does not decode.
variable (specText statusText : Kind → Json → Text)

def specBody (kind : Kind) (value : Json) : Option Spec :=
  match kind with
  | .Cluster => (clusterSpecFromJson value).map .Cluster
  | .Secret => (secretSpecFromJson value).map .Secret
  | .Title => (titleSpecFromJson value).map .Title
  | .Want => (wantSpecFromJson value).map .Want
  | .Job => (jobSpecFromJson value).map .Job
  | .Hold => (holdSpecFromJson value).map .Hold
  | .RemoteFile => some .RemoteFile
  | .Node => (nodeSpecFromJson value).map .Node
  | .Event => some .Event
  | .Sync => (syncSpecFromJson value).map .Sync

def statusBody (kind : Kind) (value : Json) : Option StatusBody :=
  match kind with
  | .Cluster => (clusterStatusFromJson value).map .Cluster
  | .Secret => some .Secret
  | .Title => (titleStatusFromJson value).map .Title
  | .Want => (wantStatusFromJson value).map .Want
  | .Job => (jobStatusFromJson value).map .Job
  | .Hold => (holdStatusFromJson value).map .Hold
  | .RemoteFile => (remoteFileFromJson value).map .RemoteFile
  | .Node => (nodeStatusFromJson value).map .Node
  | .Event => (eventFromJson value).map .Event
  | .Sync => (syncStatusFromJson value).map .Sync

def specFromValue (kind : Kind) (value : Json) : Except HomeError Spec :=
  match specBody kind value with
  | some spec => pure spec
  | none => throw (.Invalid (specText kind value))

def statusFromValue (kind : Kind) (value : Json) : Except HomeError StatusBody :=
  match statusBody kind value with
  | some status => pure status
  | none => throw (.Invalid (statusText kind value))

def fromDocument (value : Json) : Except HomeError HomeObject := do
  rejectUnknown (names ["apiVersion", "api_version", "kind", "metadata", "spec", "status"]) value
  let kind ←
    match (value.get "kind".toList).bind Json.asStr with
    | some raw => Kind.parse raw
    | none => throw (invalid "kind is required")
  let apiVersion :=
    (((value.get "apiVersion".toList).or (value.get "api_version".toList)).bind Json.asStr).getD
      homeApiVersion
  let metadata := (value.get "metadata".toList).getD (.Object [])
  rejectUnknown (names ["name", "uid", "generation", "resourceVersion", "resource_version"]) metadata
  let name := ((metadata.get "name".toList).bind Json.asStr).getD []
  let resourceVersion :=
    (((metadata.get "resourceVersion".toList).or (metadata.get "resource_version".toList)).bind
      readI64).getD 0
  let generation := ((metadata.get "generation".toList).bind readI64).getD 0
  let uid := ((metadata.get "uid".toList).bind Json.asStr).getD []
  let spec ← specFromValue specText kind ((value.get "spec".toList).getD (.Object []))
  let status ← statusFromValue statusText kind ((value.get "status".toList).getD (.Object []))
  pure { apiVersion, kind, metadata := { name, uid, generation, resourceVersion }, spec, status }

variable [UppercaseTable]

-- `upper` holds behind an underscore.
def toCamelFrom : Bool → Text → Text
  | _, [] => []
  | upper, c :: rest =>
      if c = '_' then toCamelFrom true rest
      else if upper then UppercaseTable.toUppercase c ++ toCamelFrom false rest
      else c :: toCamelFrom false rest

def toCamel (key : Text) : Text := toCamelFrom false key

def snakeKeysToCamel (value : Json) : Json := renameKeys toCamel value

-- The parsers of the two formats are those of their libraries, with the texts of their
-- errors; a TOML value has its JSON value with it.
variable (parseJson parseToml : Text → Except Text Json)

end Reading

end Document

end Mediaops
