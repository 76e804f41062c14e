import Mediaops.Api.SyncPlan
import Mediaops.Store

namespace Mediaops.Controllers

-- The in-process Want, Hold, drift and Job controllers. A pass makes many writes,
-- each a transaction of its own: an error ends the pass and keeps what was written.

abbrev Outcome := Except StoreError Unit × Store

def failWith (message : Text) : StoreError := .Sqlite message

-- Run the next part of a pass unless an error ended it.
def andThen (first : Outcome) (next : Store → Outcome) : Outcome :=
  match first with
  | (.ok (), s) => next s
  | (.error e, s) => (.error e, s)

-- A write of the pass; the pass only needs to know whether it failed.
def wrote {α : Type} (result : Except StoreError α × Store) : Outcome :=
  (result.1.map fun _ => (), result.2)

-- A vanished file is flagged and stays flagged.
def driftFile (disk : Disk) (root : Text) (file : TitleFileStatus) : TitleFileStatus :=
  if disk.isFile (Path.join root file.path) then file else { file with drifted := true }

def driftStatus (disk : Disk) (root : Text) (status : TitleStatus) : TitleStatus :=
  let files := status.files.map (driftFile disk root)
  let legacy := status.drifted ||
    (status.installB3.isSome &&
      (status.path = [] || !disk.isFile (Path.join root status.path)))
  { status with files, drifted := legacy || files.any fun file => file.drifted }

def flagDriftOne (disk : Disk) (s : Store) (root : Text) (title : HomeObject) : Outcome :=
  match title.spec, title.status with
  | .Title spec, .Title status =>
      if !spec.desiredPresent then (.ok (), s)
      else
        let next := driftStatus disk root status
        if next = status then (.ok (), s)
        else wrote (s.patchStatus .Title title.metadata.name (.Title next)
          title.metadata.resourceVersion)
  | _, _ => (.ok (), s)

def flagDrift (disk : Disk) (root : Text) : Store → List HomeObject → Outcome
  | s, [] => (.ok (), s)
  | s, title :: rest => andThen (flagDriftOne disk s root title) fun s => flagDrift disk root s rest

-- The same row, untouched between two snapshots.
def unchangedSince (snapshot current : List HomeObject) (kind : Kind) (name : Text) : Bool :=
  match findObject snapshot kind name, findObject current kind name with
  | some before, some now => before.metadata.resourceVersion = now.metadata.resourceVersion
  | _, _ => false

section

variable [UnicodeTables]

def pullJob (cluster : ClusterSpec) (id : TitleId) (remote : RemoteFileStatus)
    (authority : HomeObject) (destRel : Text) : JobSpec :=
  SyncPlan.pullSpec cluster remote []
    (if authority.kind = .Hold then authority.metadata.name else []) id.render destRel

def newTitle (titleId : Text) : HomeObject :=
  .new .Title titleId (.Title { titleId, desiredPresent := true }) (StatusBody.empty .Title)

-- The Title a Job belongs to, unless there is one already.
def openTitle (s : Store) (titleId : Text) : Outcome :=
  if (s.get .Title titleId).isNone then wrote (s.apply (newTitle titleId)) else (.ok (), s)

def queueJob (s : Store) (name : Text) (spec : JobSpec) : Outcome :=
  let job := HomeObject.new .Job name (.Job spec) (StatusBody.empty .Job)
  match job.validate with
  | .error e => (.error (.Home e), s)
  | .ok () => wrote (s.apply job)

-- `create_pull_job`, under the mutation lock: `snapshot` is the pass's own.
def createPullJob (env : Env) (s : Store) (cluster : ClusterSpec) (id : TitleId)
    (remote : RemoteFileStatus) (placement : Placement) (snapshot : List HomeObject)
    (authority : HomeObject) : Outcome :=
  if (s.get .Cluster clusterName).map HomeObject.spec ≠ some (.Cluster cluster) ∨ cluster.lock then
    (.ok (), s)
  else
    let current := (s.snapshot none).1
    let remoteName := remoteFileName remote.rootId remote.relPath
    if !([(authority.kind, authority.metadata.name),
          (Kind.Node, WorkerKind.Inventory.nodeName),
          (Kind.RemoteFile, remoteName)].all fun (kind, name) =>
            unchangedSince snapshot current kind name) then (.ok (), s)
    else match PathSchema.render id placement with
      | .error e => (.error (failWith e.display), s)
      | .ok destRel =>
          let name := SyncPlan.jobName id placement
          if (s.get .Job name).isSome then (.ok (), s)
          else
            let spec := pullJob cluster id remote authority destRel
            if (authorizationRefusal current spec env.now).isSome then (.ok (), s)
            else andThen (openTitle s id.render) fun s => queueJob s name spec

-- Why a queued Job is no longer authorized.
def revocation (objects : List HomeObject) (job : HomeObject) (now : Int) : Option Text :=
  match job.spec, job.status with
  | .Job spec, .Job status =>
      if spec.nodeName ≠ [] ∨ status.phase ≠ .Pending then none
      else if spec.syncName ≠ [] then
        match identityRefusal objects job with
        | some reason => some reason
        | none =>
            if (inventoryGeneration objects now).isNone then none
            else authorizationRefusal objects spec now
      else if spec.holdName = [] then
        if objects.any (liveWant spec.titleId) then none
        else some "Job Want is absent or dropped".toList
      else if objects.any (fun obj => obj.kind = .Hold && obj.metadata.name = spec.holdName &&
          match obj.spec with
          | .Hold hold => hold.decision = .Approved
          | _ => false) then none
      else some "authorizing Hold was revoked or deleted".toList
  | _, _ => none

def refuseJob (s : Store) (objects : List HomeObject) (job : HomeObject) (now : Int) : Outcome :=
  match revocation objects job now, job.status with
  | some message, .Job status =>
      wrote (s.patchStatus .Job job.metadata.name (.Job { status with phase := .Refused, message })
        job.metadata.resourceVersion)
  | _, _ => (.ok (), s)

def refuseJobs (objects : List HomeObject) (now : Int) : Store → List HomeObject → Outcome
  | s, [] => (.ok (), s)
  | s, job :: rest => andThen (refuseJob s objects job now) fun s => refuseJobs objects now s rest

def refuseRevokedJobs (s : Store) (now : Int) : Outcome :=
  let objects := (s.snapshot none).1
  refuseJobs objects now s (objects.filter fun obj => obj.kind = .Job)

def remotesAt (generation : Int) (objects : List HomeObject) : List RemoteFileStatus :=
  objects.filterMap fun obj =>
    match obj.status with
    | .RemoteFile status =>
        if obj.kind = .RemoteFile ∧ status.listGeneration = generation then some status else none
    | _ => none

def holdsAt (generation : Int) (objects : List HomeObject) : List HomeObject :=
  objects.filter fun obj => obj.kind = .Hold && holdAt generation obj

-- What one pass reads once and then keeps.
structure Pass where
  env : Env
  objects : List HomeObject
  titles : List HomeObject
  cluster : ClusterSpec
  remotes : List RemoteFileStatus
  holds : List HomeObject

-- One listed file against one Want: whether it counts, and whether it is all there.
def wantRemote (pass : Pass) (want : HomeObject) (titleId : Text) (id : TitleId) (s : Store)
    (remote : RemoteFileStatus) : Outcome × Option Bool :=
  if !remote.parseOk ∨ remote.titleId ≠ titleId ∨ remote.len = 0 then ((.ok (), s), none)
  else match PathSchema.parseRemote (some id.kind) remote.relPath with
    | .error _ => ((.ok (), s), none)
    | .ok (_, placement) =>
        let installed := hasPlacement pass.titles titleId placement.fileKey
        let complete := installed && healthyPlacement pass.titles titleId placement.fileKey
        if installed ∨ heldRemote pass.holds remote titleId then ((.ok (), s), some complete)
        else (createPullJob pass.env s pass.cluster id remote placement pass.objects want,
          some complete)

def wantRemotes (pass : Pass) (want : HomeObject) (titleId : Text) (id : TitleId) :
    Store → Bool × Bool → List RemoteFileStatus → Outcome × (Bool × Bool)
  | s, acc, [] => ((.ok (), s), acc)
  | s, (found, complete), remote :: rest =>
      match wantRemote pass want titleId id s remote with
      | ((.error e, s), _) => ((.error e, s), (found, complete))
      | ((.ok (), s), none) => wantRemotes pass want titleId id s (found, complete) rest
      | ((.ok (), s), some here) =>
          wantRemotes pass want titleId id s (true, complete && here) rest

-- The phase a Want has after its listed files were looked at.
def settleWant (s : Store) (want : HomeObject) (found complete : Bool) : Outcome :=
  match want.status with
  | .Want status =>
      let phase : WantPhase := if found && complete then .Satisfied else .Open
      if phase = status.phase then (.ok (), s)
      else wrote (s.patchStatus .Want want.metadata.name (.Want { phase })
        want.metadata.resourceVersion)
  | _ => (.ok (), s)

def reconcileWant (pass : Pass) (s : Store) (want : HomeObject) : Outcome :=
  match want.spec, want.status with
  | .Want spec, .Want status =>
      if status.phase = .Dropped then (.ok (), s)
      else match TitleId.parse spec.titleId with
        | .error e => (.error (failWith e.display), s)
        | .ok id =>
            match wantRemotes pass want spec.titleId id s (false, true) pass.remotes with
            | ((.error e, s), _) => (.error e, s)
            | ((.ok (), s), (found, complete)) => settleWant s want found complete
  | _, _ => (.ok (), s)

def reconcileWants (pass : Pass) : Store → List HomeObject → Outcome
  | s, [] => (.ok (), s)
  | s, want :: rest => andThen (reconcileWant pass s want) fun s => reconcileWants pass s rest

def reconcileHold (pass : Pass) (s : Store) (hold : HomeObject) : Outcome :=
  match hold.spec, hold.status with
  | .Hold spec, .Hold status =>
      if spec.decision ≠ .Approved then (.ok (), s)
      else match status.placement with
        | none => (.ok (), s)
        | some placement =>
            match pass.remotes.find? fun remote =>
                remote.rootId = status.remoteRoot && remote.relPath = status.remotePath with
            | none => (.ok (), s)
            | some remote =>
                match TitleId.parse spec.titleId with
                | .error e => (.error (failWith e.display), s)
                | .ok authority =>
                    match PathSchema.preflightApprovePlacement authority placement with
                    | .error e => (.error (failWith e.display), s)
                    | .ok placement =>
                        match PathSchema.render authority placement with
                        | .error e => (.error (failWith e.display), s)
                        | .ok canonical =>
                            match PathSchema.parse canonical with
                            | .error e => (.error (failWith e.display), s)
                            | .ok id =>
                                if hasPlacement pass.titles id.render placement.fileKey then
                                  (.ok (), s)
                                else createPullJob pass.env s pass.cluster id remote placement
                                  pass.objects hold
  | _, _ => (.ok (), s)

def reconcileHolds (pass : Pass) : Store → List HomeObject → Outcome
  | s, [] => (.ok (), s)
  | s, hold :: rest => andThen (reconcileHold pass s hold) fun s => reconcileHolds pass s rest

def acceptCluster (s : Store) (cluster : HomeObject) : Outcome :=
  match cluster.status with
  | .Cluster status =>
      if status.acceptedGeneration = cluster.metadata.generation then (.ok (), s)
      else wrote (s.patchStatus .Cluster clusterName
        (.Cluster { status with acceptedGeneration := cluster.metadata.generation })
        cluster.metadata.resourceVersion)
  | _ => (.ok (), s)

-- The Want and Hold part of a pass, once the Cluster and the listing allow it.
def pullListed (pass : Pass) (s : Store) (cluster : HomeObject) : Outcome :=
  andThen (reconcileWants pass s (pass.objects.filter fun obj => obj.kind = .Want)) fun s =>
    andThen (reconcileHolds pass s pass.holds) fun s => acceptCluster s cluster

def inventoryNode (objects : List HomeObject) : Option NodeStatus :=
  match (findObject objects .Node WorkerKind.Inventory.nodeName).map HomeObject.status with
  | some (.Node status) => some status
  | _ => none

-- `reconcile_once` after the Sync controller has run: revocation, drift, then the
-- listed files of every Want and approved Hold.
def reconcileJobs (env : Env) (s : Store) : Outcome :=
  andThen (refuseRevokedJobs s env.now) fun s =>
    let objects := (s.snapshot none).1
    let cluster := findObject objects .Cluster clusterName
    let root := match cluster.map HomeObject.spec with
      | some (.Cluster config) => config.libraryRoot
      | _ => []
    andThen (flagDrift env.disk root s (objects.filter fun obj => obj.kind = .Title)) fun s =>
      match cluster with
      | none => (.ok (), s)
      | some cluster =>
          match cluster.spec with
          | .Cluster config =>
              if config.lock ∨ config.libraryRoot = [] then (.ok (), s)
              else match inventoryNode objects with
                | none => (.ok (), s)
                | some inventory =>
                    if !freshListing inventory env.now then (.ok (), s)
                    else
                      let pass : Pass := {
                        env, objects, titles := s.list (some .Title), cluster := config
                        remotes := remotesAt inventory.listGeneration objects
                        holds := holdsAt inventory.listGeneration objects }
                      pullListed pass s cluster
          | _ => (.ok (), s)

end

end Mediaops.Controllers
