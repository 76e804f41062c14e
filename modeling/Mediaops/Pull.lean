import Mediaops.Install
import Mediaops.Scheduler

namespace Mediaops.Pull

-- The pull worker: one pass takes the first bound Job that is not over and carries
-- it on from the phase it is in.

open Transfer (Volume Mounted look step stat openFile)
open Install (Paths)

def pullDeadlineSecs : Nat := 30 * 60

def phaseText : JobPhase → Text
  | .Pending => "pending"
  | .Pulling => "pulling"
  | .Verifying => "verifying"
  | .Installed => "installed"
  | .Refused => "refused"
  | .Failed => "failed"

-- A status write as it was sent, with the API's answer.
structure Write where
  object : HomeObject
  answer : Except HomeError Unit

-- The library volume, the API's store, and the worker's writes so far.
structure World where
  volume : Volume
  store : Store
  sent : List Write := []

instance : Mounted World where
  volume := World.volume
  mount volume w := { w with volume }
  volume_mount _ _ := rfl
  mount_volume _ := rfl

-- The volume as the API sees it. A status patch reads neither the free space nor
-- the allocated blocks.
def diskOf (b3 : Bytes → Blake3Hex) (v : Volume) : Disk where
  symlinkMetadata path :=
    match v.files.node path with
    | none => .NotFound
    | some .Other => .Found { isFile := false, isDir := false, len := 0, blocks := 0 }
    | some (.File i) => .Found {
        isFile := true, isDir := false, len := UInt64.ofNat (v.files.data i).length, blocks := 0 }
  digest path :=
    match v.files.content path with
    | some bytes => .ok (b3 bytes)
    | none => .error "No such file or directory".toList
  freeBytes _ := .error "not read".toList
  installFits _ := .error "not read".toList

def remainingTime (status : JobStatus) (now : Int) : Nat :=
  if status.startedUnix = 0 then pullDeadlineSecs
  else pullDeadlineSecs - (now - status.startedUnix).toNat

def jobStatus (job : HomeObject) : JobStatus :=
  match job.status with
  | .Job status => status
  | _ => {}

-- The Title's status with the Job's file in it. An entry at the same path must be
-- the very same proof.
def withInstalledFile (status : TitleStatus) (path : Text) (digest : Blake3Hex) :
    Except PullError TitleStatus := do
  let observed := status.observedFiles
  let files ← match observed.find? fun file => file.path = path with
    | some file =>
        if file.installB3 ≠ digest ∨ file.currentB3 ≠ digest ∨ file.drifted then
          throw (.bail "existing Title proof differs from the installed file")
        else pure observed
    | none => pure (observed ++ [{ path, installB3 := digest, currentB3 := digest }])
  let files := files.insertionSort fun a b => a.path ≤ b.path
  match files with
  | [] => throw (.bail "no files")
  | first :: _ =>
      pure {
        files
        path := first.path
        installB3 := some first.installB3
        currentB3 := some first.currentB3
        drifted := files.any TitleFileStatus.drifted }

def isConflict : PullError → Bool
  | .Api (.Conflict _ _) | .Api (.AlreadyExists _ _) => true
  | _ => false

def unavailable : PullError := .bail "api unavailable"

def unixNow : Prog World PullError Int := do pure (← Prog.pick : Nat)

section

variable [UnicodeTables] (b3 : Bytes → Blake3Hex)

def servePatch (obj : HomeObject) (w : World) : Except HomeError HomeObject × World :=
  let env : Env := { now := 0, disk := diskOf b3 w.volume }
  let (answer, store) := Serve.patch env w.store w.store .Pull .PatchStatus obj
  (answer.map fun _ => (store.get obj.kind obj.metadata.name).getD obj,
    { w with store, sent := w.sent ++ [{ object := obj, answer }] })

-- A write may be served and its answer lost.
def patchStatus (obj : HomeObject) : Prog World PullError HomeObject := do
  let answer ← Prog.perform {
    run := fun _ w => pure (servePatch b3 obj w)
    partly := fun part w => if part = 0 then w else (servePatch b3 obj w).2
    fault := unavailable }
  Prog.lift (answer.mapError .Api)

def getTitle (name : Text) : Prog World PullError HomeObject :=
  Prog.perform {
    run := fun _ w =>
      match w.store.get .Title name with
      | some title => pure (title, w)
      | none => throw (.Api (.NotFound .Title name))
    fault := unavailable }

def eventOf (job : HomeObject) (now : Int) : HomeObject :=
  let status := jobStatus job
  HomeObject.new .Event
    (job.metadata.uid ++ "-".toList ++ Text.decimalInt job.metadata.resourceVersion) .Event
    (.Event {
      involvedKind := Kind.Job.asStr
      involvedName := job.metadata.name
      reason := phaseText status.phase
      message := status.message
      ts := now })

def serveEvent (job : HomeObject) (now : Int) (w : World) : World :=
  let env : Env := { now := 0, disk := diskOf b3 w.volume }
  { w with store := (Serve.apply env w.store w.store .Pull (eventOf job now)).2 }

-- The event of a phase change is recorded if it can be.
def event (job : HomeObject) : Prog World PullError Unit := do
  let now ← unixNow
  let _ ← Prog.attempt <| Prog.perform {
    run := fun _ w => pure ((), serveEvent b3 job now w)
    partly := fun part w => if part = 0 then w else serveEvent b3 job now w
    fault := unavailable }

def saveJob (job : HomeObject) (status : JobStatus) : Prog World PullError HomeObject := do
  let saved ← patchStatus b3 { job with status := .Job status }
  if (jobStatus job).phase ≠ (jobStatus saved).phase then event b3 saved
  pure saved

def setFailure (job : HomeObject) (phase : JobPhase) (message : Text) :
    Prog World PullError Unit := do
  let _ ← saveJob b3 job { jobStatus job with phase, message }

-- A conflict is tried again, from a fresh read.
def recordTitle (spec : JobSpec) (digest : Blake3Hex) : Nat → Prog World PullError Unit
  | 0 => pure ()
  | retries + 1 => do
      let title ← getTitle spec.titleId
      match title.status with
      | .Title status =>
          let next ← Prog.lift (withInstalledFile status spec.destRel digest)
          if next = status then pure ()
          else
            match ← (patchStatus b3 { title with status := .Title next }).attempt with
            | .ok _ => pure ()
            | .error e =>
                if isConflict e ∧ retries ≠ 0 then recordTitle spec digest retries else throw e
      | _ => throw (.bail "Title status missing")

variable (identity : Text → Text → Bytes)

def placeJob (spec : JobSpec) (expected : Blake3Hex) : Prog World PullError Unit := do
  let paths ← Prog.lift (Install.pathsOf b3 identity spec)
  let pull ← Prog.lift (Install.pullSpec spec)
  Install.placeVerified b3 paths pull expected

def finishVerifying (job : HomeObject) (spec : JobSpec) : Prog World PullError Unit := do
  match (jobStatus job).verifiedB3 with
  | none => throw (.bail "verifying Job has no digest")
  | some expected =>
      match ← (placeJob b3 identity spec expected).attempt with
      | .error (.Retryable message) => throw (.Retryable message)
      | .error (.Refusal message) => setFailure b3 job .Refused message
      | .error e => setFailure b3 job .Failed e.display
      | .ok () =>
          recordTitle b3 spec expected 3
          let _ ← saveJob b3 job { jobStatus job with
            phase := .Installed, bytesDone := spec.fileLen, message := [] }

-- Whether a check of the disk or of the clock goes one way or the other.
def chance (fault : PullError) : Prog World PullError Bool :=
  Transfer.onVolume { run := fun pick v => pure (pick = 0, v), fault }

-- What must hold before bytes are copied.
def checkRoom (paths : Paths) (spec : JobSpec) : Prog World PullError Unit := do
  match ← stat (PullError.install (.Io paths.dest)) paths.dest with
  | some _ => throw (.refusal "destination already exists")
  | none =>
      (Install.cleanupInstallTemporary paths).mapError .install
      let room ← chance (.install (.Io paths.dest))
      if (0 < spec.maxCopy ∧ spec.maxCopy < spec.fileLen) ∨ !room then
        throw (.refusal "watermark or copy budget")

def prepareCopy (spec : JobSpec) : Prog World PullError (Paths × Transfer.PullSpec) := do
  let paths ← Prog.lift (Install.pathsOf b3 identity spec)
  let pull ← Prog.lift (Install.pullSpec spec)
  checkRoom paths spec
  pure (paths, pull)

-- Progress is saved while the bytes come in. The copy touches only the volume and
-- these writes only the store, so they may as well come first.
def saveProgress (spec : JobSpec) : Nat → HomeObject →
    Prog World PullError (HomeObject × Except PullError Unit)
  | 0, job => pure (job, .ok ())
  | ticks + 1, job => do
      let bytes := min (UInt64.ofNat (← Prog.pick)) spec.fileLen
      if bytes = (jobStatus job).bytesDone then saveProgress spec ticks job
      else
        match ← (saveJob b3 job { jobStatus job with bytesDone := bytes }).attempt with
        | .ok job => saveProgress spec ticks job
        | .error e => pure (job, .error e)

def hashFile (path : Text) (expectedLen : Nat) : Prog World PullError Blake3Hex := do
  let io := PullError.install (.Io path)
  let i ← openFile io path
  let bytes ← look io fun v => pure (v.files.data i)
  if bytes.length ≠ expectedLen then
    throw (.Other ("file has unexpected type or length: ".toList ++ path))
  pure (b3 bytes)

variable (remote : Text × List Component → Bytes)

def copyFile (paths : Paths) (pull : Transfer.PullSpec) : Prog World PullError Blake3Hex := do
  let _ ← (Transfer.pullFile (fun bytes => (b3 bytes).text) remote pull).mapError
    fun e => PullError.Other e.display
  hashFile b3 paths.staging.staged pull.fileLen

-- The Job as it was last saved, with the digest or the error.
def copyAndHash (spec : JobSpec) (job : HomeObject) :
    Prog World PullError (HomeObject × Except PullError Blake3Hex) := do
  match ← (prepareCopy b3 identity spec).attempt with
  | .error e => pure (job, .error e)
  | .ok (paths, pull) =>
      let ticks ← Prog.pick
      let (job, saved) ← saveProgress b3 spec ticks job
      match saved with
      | .error e => pure (job, .error e)
      | .ok () => pure (job, ← (copyFile b3 remote paths pull).attempt)

-- The phase a failed copy leaves the Job in.
def failedPhase (status : JobStatus) (now : Int) (expired : Bool) : PullError → JobPhase
  | .Refusal _ => .Refused
  | _ =>
      if pullMaxAttempts ≤ status.attempts ∨ remainingTime status now = 0 ∨ expired then .Failed
      else .Pending

def pullAndVerify (spec : JobSpec) (job : HomeObject) : Prog World PullError Unit := do
  let (job, result) ← copyAndHash b3 identity remote spec job
  match result with
  | .error e =>
      let now ← unixNow
      let expired ← Prog.pick
      setFailure b3 job (failedPhase (jobStatus job) now (expired ≠ 0) e) e.display
  | .ok digest =>
      -- The digest is durable before the library changes.
      let job ← saveJob b3 job { jobStatus job with
        phase := .Verifying, bytesDone := spec.fileLen, verifiedB3 := some digest }
      finishVerifying b3 identity job spec

-- A new attempt of a Pending Job; the first one also starts the clock.
def startJob (job : HomeObject) : Prog World PullError HomeObject := do
  let status := jobStatus job
  if status.phase = .Pending then
    let started ← if status.startedUnix = 0 then unixNow else pure status.startedUnix
    saveJob b3 job { status with
      phase := .Pulling, attempts := status.attempts + 1, startedUnix := started, message := [] }
  else pure job

def runJob (job : HomeObject) : Prog World PullError Unit :=
  match job.spec, job.status with
  | .Job spec, .Job status => do
      if status.phase.isTerminal then pure ()
      else
        if status.phase = .Verifying then finishVerifying b3 identity job spec
        else
          let now ← unixNow
          if remainingTime status now = 0 ∨
              (status.phase = .Pending ∧ pullMaxAttempts ≤ status.attempts) then
            setFailure b3 job .Failed "pull retry limit or deadline reached"
          else
            let job ← startJob b3 job
            pullAndVerify b3 identity remote spec job
  | _, _ => throw (.bail "Pull requires a Job spec and status")

def claimOrder (a b : HomeObject) : Prop :=
  priorityOf a < priorityOf b ∨ (priorityOf a = priorityOf b ∧ a.metadata.name ≤ b.metadata.name)
where
  priorityOf (job : HomeObject) : Nat :=
    match job.spec with
    | .Job spec =>
        match TitleId.parse spec.titleId with
        | .ok id => Scheduler.bindPriority id.kind
        | .error _ => 255
    | _ => 255

instance : DecidableRel claimOrder := fun _ _ => inferInstanceAs (Decidable (_ ∨ _))

-- A Job of this worker that is not over.
def isClaimed (job : HomeObject) : Bool :=
  match job.spec, job.status with
  | .Job spec, .Job status => spec.nodeName = WorkerKind.Pull.nodeName && !status.phase.isTerminal
  | _, _ => false

def headJob (s : Store) : Option HomeObject :=
  ((s.list (some .Job)).insertionSort claimOrder).find? isClaimed

def claimAndRun : Prog World PullError Unit := do
  let head ← Prog.perform {
    run := fun _ w => pure (headJob w.store, w)
    fault := unavailable }
  match head with
  | none => pure ()
  | some job => runJob b3 identity remote job

end

end Mediaops.Pull
