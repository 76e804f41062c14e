import Mediaops.Core.Validate
import Mediaops.Core.Words

namespace Mediaops

-- The messages of the Home API and the two conversions of an object. A message
-- field may be missing; a scalar that is missing is its zero.

namespace Wire

structure MoviePlacement where
  title : Text := []
  year : Option UInt32 := none
  extension : Text := []
  deriving DecidableEq, Repr

structure EpisodePlacement where
  title : Text := []
  year : Option UInt32 := none
  season : Option UInt32 := none
  episode : Option UInt32 := none
  extension : Text := []
  episodeEnd : Option UInt32 := none
  episodeTitle : Option Text := none
  deriving DecidableEq, Repr

structure TrackPlacement where
  album : Text := []
  year : Option UInt32 := none
  track : Option UInt32 := none
  title : Text := []
  extension : Text := []
  artist : Text := []
  disc : Option UInt32 := none
  deriving DecidableEq, Repr

inductive PlacementKind where
  | Movie (movie : MoviePlacement)
  | Episode (episode : EpisodePlacement)
  | Track (track : TrackPlacement)
  deriving DecidableEq, Repr

structure Placement where
  kind : Option PlacementKind := none
  deriving DecidableEq, Repr

structure Metadata where
  name : Text := []
  uid : Text := []
  generation : Int := 0
  resourceVersion : Int := 0
  deriving DecidableEq, Repr

structure PathRoot where
  id : Text := []
  path : Text := []
  kind : Text := []
  deriving DecidableEq, Repr

structure ClusterSpec where
  maxCopy : UInt64 := 0
  minFree : UInt64 := 0
  rangeLen : UInt64 := 0
  rangeConcurrency : UInt32 := 0
  grabber : Text := []
  lock : Bool := false
  encodePause : Bool := false
  libraryRoot : Text := []
  roots : List PathRoot := []
  deriving DecidableEq, Repr

structure ClusterStatus where
  acceptedGeneration : Int := 0
  reconcileGeneration : Int := 0
  deriving DecidableEq, Repr

structure SecretSpec where
  seedboxAddress : Text := []
  caSha256 : Text := []
  serverSha256 : Text := []
  clientSha256 : Text := []
  deriving DecidableEq, Repr

structure TitleSpec where
  titleId : Text := []
  desiredPresent : Bool := false
  deriving DecidableEq, Repr

structure TitleFileStatus where
  path : Text := []
  installB3 : Text := []
  currentB3 : Text := []
  drifted : Bool := false
  deriving DecidableEq, Repr

structure TitleStatus where
  path : Text := []
  installB3 : Text := []
  currentB3 : Text := []
  drifted : Bool := false
  files : List TitleFileStatus := []
  deriving DecidableEq, Repr

structure WantSpec where
  titleId : Text := []
  deriving DecidableEq, Repr

structure WantStatus where
  phase : Text := []
  deriving DecidableEq, Repr

structure JobSpec where
  kind : Text := []
  titleId : Text := []
  remoteRoot : Text := []
  remotePath : Text := []
  destRel : Text := []
  fileLen : UInt64 := 0
  rangeLen : UInt64 := 0
  maxCopy : UInt64 := 0
  minFree : UInt64 := 0
  nodeName : Text := []
  workerKind : Text := []
  libraryRoot : Text := []
  rangeConcurrency : UInt32 := 0
  holdName : Text := []
  syncName : Text := []
  deriving DecidableEq, Repr

structure JobStatus where
  phase : Text := []
  bytesDone : UInt64 := 0
  attempts : UInt32 := 0
  message : Text := []
  startedUnix : Int := 0
  verifiedB3 : Text := []
  deriving DecidableEq, Repr

structure HoldSpec where
  titleId : Text := []
  releaseId : Text := []
  decision : Text := []
  deriving DecidableEq, Repr

structure HoldStatus where
  reason : Text := []
  size : UInt64 := 0
  release : Text := []
  remoteRoot : Text := []
  remotePath : Text := []
  placement : Option Placement := none
  addedUnix : Int := 0
  rejectionObserved : Bool := false
  listGeneration : Int := 0
  deriving DecidableEq, Repr

structure RemoteFileStatus where
  rootId : Text := []
  relPath : Text := []
  len : UInt64 := 0
  parseOk : Bool := false
  titleId : Text := []
  listGeneration : Int := 0
  deriving DecidableEq, Repr

structure NodeSpec where
  workerKind : Text := []
  deriving DecidableEq, Repr

structure NodeStatus where
  ready : Bool := false
  lastHeartbeatUnix : Int := 0
  listGeneration : Int := 0
  listCompletedUnix : Int := 0
  scanStartedRv : Int := 0
  scanClusterGeneration : Int := 0
  scanSecretResourceVersion : Int := 0
  deriving DecidableEq, Repr

structure EventStatus where
  involvedKind : Text := []
  involvedName : Text := []
  reason : Text := []
  message : Text := []
  ts : Int := 0
  deriving DecidableEq, Repr

structure SyncSpec where
  scope : Text := []
  deriving DecidableEq, Repr

structure SyncEntry where
  remoteRoot : Text := []
  remotePath : Text := []
  fileLen : UInt64 := 0
  titleId : Text := []
  placement : Option Placement := none
  job : Option JobSpec := none
  disposition : Text := []
  reason : Text := []
  jobName : Text := []
  jobUid : Text := []
  deriving DecidableEq, Repr

structure SyncStatus where
  phase : Text := []
  acceptedUnix : Int := 0
  deadlineUnix : Int := 0
  baselineGeneration : Int := 0
  acceptanceRv : Int := 0
  listGeneration : Int := 0
  cluster : Option ClusterSpec := none
  clusterGeneration : Int := 0
  secretResourceVersion : Int := 0
  entries : List SyncEntry := []
  message : Text := []
  deriving DecidableEq, Repr

-- The payload of a kind: two messages, or one.
inductive Body where
  | Cluster (spec : Option ClusterSpec) (status : Option ClusterStatus)
  | Secret (spec : Option SecretSpec)
  | Title (spec : Option TitleSpec) (status : Option TitleStatus)
  | Want (spec : Option WantSpec) (status : Option WantStatus)
  | Job (spec : Option JobSpec) (status : Option JobStatus)
  | Hold (spec : Option HoldSpec) (status : Option HoldStatus)
  | RemoteFile (status : Option RemoteFileStatus)
  | Node (spec : Option NodeSpec) (status : Option NodeStatus)
  | Event (status : Option EventStatus)
  | Sync (spec : Option SyncSpec) (status : Option SyncStatus)
  deriving DecidableEq, Repr

structure Object where
  apiVersion : Text := []
  kind : Text := []
  metadata : Option Metadata := none
  body : Option Body := none
  deriving DecidableEq, Repr

end Wire

namespace Proto

inductive ConvertError where
  | MissingField (field : Text)
  | InvalidPlacement (field : Text)
  deriving DecidableEq, Repr

def ConvertError.display : ConvertError → Text
  | MissingField field => "missing nested field `".toList ++ field ++ "`".toList
  | InvalidPlacement field => "invalid placement field `".toList ++ field ++ "`".toList

-- A number that must fit a smaller word: `fit_u16` and `fit_u8`.
def fit (bound : Nat) (n : UInt32) (field : String) : Except ConvertError Nat :=
  if n.toNat < bound then pure n.toNat else throw (.InvalidPlacement field.toList)

def fitU16 : UInt32 → String → Except ConvertError Nat := fit 65536

def fitU8 : UInt32 → String → Except ConvertError Nat := fit 256

def placementToWire : Placement → Wire.Placement
  | .Movie title year extension =>
      { kind := some (.Movie { title, year := some (UInt32.ofNat year), extension }) }
  | .Episode title year season episode episodeEnd episodeTitle extension =>
      { kind := some (.Episode
          { title
            year := some (UInt32.ofNat year)
            season := some (UInt32.ofNat season)
            episode := some (UInt32.ofNat episode)
            extension
            episodeEnd := episodeEnd.map UInt32.ofNat
            episodeTitle }) }
  | .Track artist album year disc track title extension =>
      { kind := some (.Track
          { album
            year := some (UInt32.ofNat year)
            track := track.map UInt32.ofNat
            title
            extension
            artist
            disc := disc.map UInt32.ofNat }) }

def placementFromWire (value : Wire.Placement) : Except ConvertError Placement :=
  match value.kind with
  | some (.Movie movie) => do
      let year ← fitU16 (movie.year.getD 0) "year"
      pure (.Movie movie.title year movie.extension)
  | some (.Episode ep) => do
      let year ← fitU16 (ep.year.getD 0) "year"
      let season ← fitU8 (ep.season.getD 0) "season"
      let episode ← fitU16 (ep.episode.getD 0) "episode"
      let episodeEnd ← ep.episodeEnd.mapM fun n => fitU16 n "episode_end"
      pure (.Episode ep.title year season episode episodeEnd (ep.episodeTitle.filter (· ≠ []))
        ep.extension)
  | some (.Track track) => do
      let year ← fitU16 (track.year.getD 0) "year"
      let disc ← track.disc.mapM fun n => fitU8 n "disc"
      let number ← track.track.mapM fun n => fitU8 n "track"
      pure (.Track track.artist track.album year disc number track.title track.extension)
  | none => throw (.MissingField "placement.kind".toList)

-- The placement of a status, with the error of a Home request.
def optPlacement (value : Option Wire.Placement) : Except HomeError (Option Placement) :=
  value.mapM fun placement => (placementFromWire placement).mapError fun e => .Invalid e.display

def requireKind (got want : Kind) : Except HomeError Unit :=
  if got = want then pure ()
  else throw (.Invalid ("kind ".toList ++ got.asStr ++ " does not match body ".toList ++ want.asStr))

def grabberWire : Grabber → Text
  | .None => "none"
  | .Servarr => "servarr"

def parseGrabber (raw : Text) : Except HomeError Grabber :=
  parseWordOr .None "grabber" [.None, .Servarr] grabberWire raw

def parseTitleKind (raw : Text) : Except HomeError TitleKind :=
  parseWord "TitleKind" [.Movie, .Series, .Album] TitleKind.asStr raw

def parseDigest (raw : Text) : Except HomeError Blake3Hex :=
  (Blake3Hex.parse raw).mapError .Invalid

def parseDigestOpt (raw : Text) : Except HomeError (Option Blake3Hex) :=
  Codec.readOr [] parseDigest raw

def digestOptToWire (digest : Option Blake3Hex) : Text := Codec.sendOr [] Blake3Hex.text digest

def pathRootToWire (root : PathRoot) : Wire.PathRoot where
  id := root.id
  path := root.path
  kind := Codec.sendOr [] TitleKind.asStr root.kind

def pathRootFromWire (root : Wire.PathRoot) : Except HomeError PathRoot := do
  let kind ← Codec.readOr [] parseTitleKind root.kind
  pure { id := root.id, path := root.path, kind }

def clusterSpecToWire (spec : ClusterSpec) : Wire.ClusterSpec where
  maxCopy := spec.maxCopy
  minFree := spec.minFree
  rangeLen := spec.rangeLen
  rangeConcurrency := spec.rangeConcurrency.getD 0
  grabber := grabberWire spec.grabber
  lock := spec.lock
  encodePause := spec.encodePause
  libraryRoot := spec.libraryRoot
  roots := spec.roots.map pathRootToWire

def clusterSpecFromWire (spec : Wire.ClusterSpec) : Except HomeError ClusterSpec := do
  let grabber ← parseGrabber spec.grabber
  let roots ← spec.roots.mapM pathRootFromWire
  pure
    { maxCopy := spec.maxCopy
      minFree := spec.minFree
      rangeLen := spec.rangeLen
      rangeConcurrency := if spec.rangeConcurrency = 0 then none else some spec.rangeConcurrency
      grabber
      lock := spec.lock
      encodePause := spec.encodePause
      libraryRoot := spec.libraryRoot
      roots }

def titleFileToWire (file : TitleFileStatus) : Wire.TitleFileStatus where
  path := file.path
  installB3 := file.installB3.text
  currentB3 := file.currentB3.text
  drifted := file.drifted

def titleFileFromWire (file : Wire.TitleFileStatus) : Except HomeError TitleFileStatus := do
  let installB3 ← parseDigest file.installB3
  let currentB3 ← parseDigest file.currentB3
  pure { path := file.path, installB3, currentB3, drifted := file.drifted }

def jobSpecToWire (spec : JobSpec) : Wire.JobSpec where
  holdName := spec.holdName
  syncName := spec.syncName
  libraryRoot := spec.libraryRoot
  rangeConcurrency := spec.rangeConcurrency
  kind := spec.kind.asStr
  titleId := spec.titleId
  remoteRoot := spec.remoteRoot
  remotePath := spec.remotePath
  destRel := spec.destRel
  fileLen := spec.fileLen
  rangeLen := spec.rangeLen
  maxCopy := spec.maxCopy
  minFree := spec.minFree
  nodeName := spec.nodeName
  workerKind := spec.workerKind

def jobSpecFromWire (spec : Wire.JobSpec) : Except HomeError JobSpec := do
  let kind ← parseOr .Pull HomeJobKind.parse spec.kind
  pure
    { holdName := spec.holdName
      syncName := spec.syncName
      libraryRoot := spec.libraryRoot
      rangeConcurrency := spec.rangeConcurrency
      kind
      titleId := spec.titleId
      remoteRoot := spec.remoteRoot
      remotePath := spec.remotePath
      destRel := spec.destRel
      fileLen := spec.fileLen
      rangeLen := spec.rangeLen
      maxCopy := spec.maxCopy
      minFree := spec.minFree
      nodeName := spec.nodeName
      workerKind := spec.workerKind }

def nodeStatusToWire (status : NodeStatus) : Wire.NodeStatus where
  listGeneration := status.listGeneration
  listCompletedUnix := status.listCompletedUnix
  ready := status.ready
  lastHeartbeatUnix := status.lastHeartbeatUnix
  scanStartedRv := status.scanStartedRv
  scanClusterGeneration := status.scanClusterGeneration
  scanSecretResourceVersion := status.scanSecretResourceVersion

def nodeStatusFromWire (status : Wire.NodeStatus) : NodeStatus where
  listGeneration := status.listGeneration
  listCompletedUnix := status.listCompletedUnix
  ready := status.ready
  lastHeartbeatUnix := status.lastHeartbeatUnix
  scanStartedRv := status.scanStartedRv
  scanClusterGeneration := status.scanClusterGeneration
  scanSecretResourceVersion := status.scanSecretResourceVersion

def syncEntryToWire (entry : SyncEntry) : Wire.SyncEntry where
  remoteRoot := entry.remoteRoot
  remotePath := entry.remotePath
  fileLen := entry.fileLen
  titleId := entry.titleId
  placement := entry.placement.map placementToWire
  job := entry.job.map jobSpecToWire
  disposition := entry.disposition.asStr
  reason := entry.reason
  jobName := entry.jobName
  jobUid := entry.jobUid

def syncEntryFromWire (entry : Wire.SyncEntry) : Except HomeError SyncEntry := do
  let placement ← optPlacement entry.placement
  let job ← entry.job.mapM jobSpecFromWire
  let disposition ← parseOr .WouldQueue SyncDisposition.parse entry.disposition
  pure
    { remoteRoot := entry.remoteRoot
      remotePath := entry.remotePath
      fileLen := entry.fileLen
      titleId := entry.titleId
      placement
      job
      disposition
      reason := entry.reason
      jobName := entry.jobName
      jobUid := entry.jobUid }

def syncStatusToWire (status : SyncStatus) : Wire.SyncStatus where
  phase := status.phase.asStr
  acceptedUnix := status.acceptedUnix
  deadlineUnix := status.deadlineUnix
  baselineGeneration := status.baselineGeneration
  acceptanceRv := status.acceptanceRv
  listGeneration := status.listGeneration
  cluster := status.cluster.map clusterSpecToWire
  clusterGeneration := status.clusterGeneration
  secretResourceVersion := status.secretResourceVersion
  entries := status.entries.map syncEntryToWire
  message := status.message

def syncStatusFromWire (status : Wire.SyncStatus) : Except HomeError SyncStatus := do
  let phase ← parseOr .WaitingInventory SyncPhase.parse status.phase
  let cluster ← status.cluster.mapM clusterSpecFromWire
  let entries ← status.entries.mapM syncEntryFromWire
  pure
    { phase
      acceptedUnix := status.acceptedUnix
      deadlineUnix := status.deadlineUnix
      baselineGeneration := status.baselineGeneration
      acceptanceRv := status.acceptanceRv
      listGeneration := status.listGeneration
      cluster
      clusterGeneration := status.clusterGeneration
      secretResourceVersion := status.secretResourceVersion
      entries
      message := status.message }

-- Bodies that do not belong together have no message.
def bodyToWire : Spec → StatusBody → Option Wire.Body
  | .Cluster spec, .Cluster status =>
      some (.Cluster (some (clusterSpecToWire spec))
        (some { acceptedGeneration := status.acceptedGeneration
                reconcileGeneration := status.reconcileGeneration }))
  | .Secret spec, _ =>
      some (.Secret (some
        { seedboxAddress := spec.seedboxAddress
          caSha256 := spec.caSha256
          serverSha256 := spec.serverSha256
          clientSha256 := spec.clientSha256 }))
  | .Title spec, .Title status =>
      some (.Title (some { titleId := spec.titleId, desiredPresent := spec.desiredPresent })
        (some { files := status.files.map titleFileToWire
                path := status.path
                installB3 := digestOptToWire status.installB3
                currentB3 := digestOptToWire status.currentB3
                drifted := status.drifted }))
  | .Want spec, .Want status =>
      some (.Want (some { titleId := spec.titleId }) (some { phase := status.phase.asStr }))
  | .Job spec, .Job status =>
      some (.Job (some (jobSpecToWire spec))
        (some { startedUnix := status.startedUnix
                verifiedB3 := digestOptToWire status.verifiedB3
                phase := status.phase.asStr
                bytesDone := status.bytesDone
                attempts := status.attempts
                message := status.message }))
  | .Hold spec, .Hold status =>
      some (.Hold
        (some { titleId := spec.titleId
                releaseId := spec.releaseId
                decision := spec.decision.asStr })
        (some { listGeneration := status.listGeneration
                rejectionObserved := status.rejectionObserved
                remoteRoot := status.remoteRoot
                remotePath := status.remotePath
                placement := status.placement.map placementToWire
                addedUnix := status.addedUnix
                reason := status.reason
                size := status.size
                release := status.release }))
  | .RemoteFile, .RemoteFile status =>
      some (.RemoteFile (some
        { rootId := status.rootId
          relPath := status.relPath
          len := status.len
          parseOk := status.parseOk
          titleId := status.titleId
          listGeneration := status.listGeneration }))
  | .Node spec, .Node status =>
      some (.Node (some { workerKind := spec.workerKind.asStr }) (some (nodeStatusToWire status)))
  | .Sync spec, .Sync status =>
      some (.Sync (some { scope := spec.scope.asStr }) (some (syncStatusToWire status)))
  | .Event, .Event status =>
      some (.Event (some
        { involvedKind := status.involvedKind
          involvedName := status.involvedName
          reason := status.reason
          message := status.message
          ts := status.ts }))
  | _, _ => none

def homeObjectToWire (obj : HomeObject) : Wire.Object where
  apiVersion := obj.apiVersion
  kind := obj.kind.asStr
  metadata := some
    { name := obj.metadata.name
      uid := obj.metadata.uid
      generation := obj.metadata.generation
      resourceVersion := obj.metadata.resourceVersion }
  body := bodyToWire obj.spec obj.status

def defaultName : Kind → Spec → Text
  | .Cluster, _ => clusterName
  | .Secret, _ => secretName
  | .Want, .Want want => want.titleId
  | .Title, .Title title => title.titleId
  | .Node, .Node node => node.workerKind.nodeName
  | _, _ => []

variable [UnicodeTables]

-- Defaulting an empty body would let an apply silently reset a stored object.
def bodyFromWire (kind : Kind) : Option Wire.Body → Except HomeError (Spec × StatusBody)
  | some (.Cluster spec status) => do
      requireKind kind .Cluster
      let status := status.getD {}
      let spec ← clusterSpecFromWire (spec.getD {})
      pure (.Cluster spec, .Cluster
        { acceptedGeneration := status.acceptedGeneration
          reconcileGeneration := status.reconcileGeneration })
  | some (.Secret spec) => do
      requireKind kind .Secret
      let spec := spec.getD {}
      pure (.Secret
        { seedboxAddress := spec.seedboxAddress
          caSha256 := spec.caSha256
          serverSha256 := spec.serverSha256
          clientSha256 := spec.clientSha256 }, .Secret)
  | some (.Title spec status) => do
      requireKind kind .Title
      let spec := spec.getD {}
      let status := status.getD {}
      if spec.titleId ≠ [] then let _ ← validateTitleId spec.titleId
      let files ← status.files.mapM titleFileFromWire
      let installB3 ← parseDigestOpt status.installB3
      let currentB3 ← parseDigestOpt status.currentB3
      pure (.Title { titleId := spec.titleId, desiredPresent := spec.desiredPresent },
        .Title { files, path := status.path, installB3, currentB3, drifted := status.drifted })
  | some (.Want spec status) => do
      requireKind kind .Want
      let spec := spec.getD {}
      let status := status.getD {}
      if spec.titleId = [] then throw (invalid "Want.spec.title_id is required")
      let _ ← validateTitleId spec.titleId
      let phase ← parseOr .Open WantPhase.parse status.phase
      pure (.Want { titleId := spec.titleId }, .Want { phase })
  | some (.Job spec status) => do
      requireKind kind .Job
      let status := status.getD {}
      let spec ← jobSpecFromWire (spec.getD {})
      let verifiedB3 ← parseDigestOpt status.verifiedB3
      let phase ← parseOr .Pending JobPhase.parse status.phase
      pure (.Job spec, .Job
        { startedUnix := status.startedUnix
          verifiedB3
          phase
          bytesDone := status.bytesDone
          attempts := status.attempts
          message := status.message })
  | some (.Hold spec status) => do
      requireKind kind .Hold
      let spec := spec.getD {}
      let status := status.getD {}
      let decision ← HoldDecisionSpec.parse spec.decision
      let placement ← optPlacement status.placement
      pure (.Hold { titleId := spec.titleId, releaseId := spec.releaseId, decision }, .Hold
        { listGeneration := status.listGeneration
          rejectionObserved := status.rejectionObserved
          remoteRoot := status.remoteRoot
          remotePath := status.remotePath
          placement
          addedUnix := status.addedUnix
          reason := status.reason
          size := status.size
          release := status.release })
  | some (.RemoteFile status) => do
      requireKind kind .RemoteFile
      let status := status.getD {}
      pure (.RemoteFile, .RemoteFile
        { rootId := status.rootId
          relPath := status.relPath
          len := status.len
          parseOk := status.parseOk
          titleId := status.titleId
          listGeneration := status.listGeneration })
  | some (.Node spec status) => do
      requireKind kind .Node
      let workerKind ← WorkerKind.parse (spec.getD {}).workerKind
      pure (.Node { workerKind }, .Node (nodeStatusFromWire (status.getD {})))
  | some (.Sync spec status) => do
      requireKind kind .Sync
      let scope ← SyncScope.parse (spec.getD {}).scope
      let status ← syncStatusFromWire (status.getD {})
      pure (.Sync { scope }, .Sync status)
  | some (.Event status) => do
      requireKind kind .Event
      let status := status.getD {}
      pure (.Event, .Event
        { involvedKind := status.involvedKind
          involvedName := status.involvedName
          reason := status.reason
          message := status.message
          ts := status.ts })
  | none => throw (.Invalid (kind.asStr ++ " object has no body".toList))

def homeObjectFromWire (obj : Wire.Object) : Except HomeError HomeObject := do
  let kind ← Kind.parse obj.kind
  let metadata := obj.metadata.getD {}
  let (spec, status) ← bodyFromWire kind obj.body
  pure
    { apiVersion := if obj.apiVersion = [] then homeApiVersion else obj.apiVersion
      kind
      metadata :=
        { name := if metadata.name = [] then defaultName kind spec else metadata.name
          uid := metadata.uid
          generation := metadata.generation
          resourceVersion := metadata.resourceVersion }
      spec
      status }

end Proto

end Mediaops
