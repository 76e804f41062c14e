import Mathlib.Logic.Equiv.List
import Mediaops.Arr
import Mediaops.Core.JobMachine
import Mediaops.Install
import Mediaops.Plan

namespace Mediaops

namespace Apply

-- The execution of a plan, action by action. A copy that fails does not end it.

open Jobs
open JobMachine (JobEvent JobError)
open Transfer (Volume Mounted StagingLayout PullSpec)
open Install (Paths)

inductive ApplyError where
  | SnapshotMismatch
  | Plan (message : Text)
  | PathSchema (e : PathSchemaError)
  | Install (e : InstallError)
  | Jobs (message : Text)
  | Titles (message : Text)
  | Transfer (message : Text)
  | Control (message : Text)

def ApplyError.display : ApplyError → Text
  | SnapshotMismatch => "plan snapshot does not match active desired-state bytes".toList
  | Plan message => message
  | PathSchema e => e.display
  | Install e => e.display
  | Jobs message => "jobs: ".toList ++ message
  | Titles message => "title-index: ".toList ++ message
  | Transfer message => "transfer: ".toList ++ message
  | Control message => "control: ".toList ++ message

-- A small file that is read and written whole.
inductive TextFile where
  | Absent
  | NotFile
  | Garbled
  | Saved (text : Text)
  deriving DecidableEq, Repr

section

variable [UnicodeTables]

-- A row of the jobs table.
structure Row where
  id : Nat
  job : Job
  parent : Option Nat

-- The library volume with the pull intents on it, the rows of the jobs table in the
-- order of their ids, and what the title index was told.
structure World where
  volume : Volume
  texts : Text → TextFile
  jobs : List Row
  recorded : List (TitleId × Blake3Hex × Text) := []

instance : Mounted World where
  volume := World.volume
  mount volume w := { w with volume }
  volume_mount _ _ := rfl
  mount_volume _ := rfl

inductive Action where
  | Copy (copy : Plan.Copy)
  | Skip (titleId : Option TitleId) (reason : Text)
  | Review (remote : Option RemoteRef) (reason : Text)
  | Unmonitor (titleId : TitleId)
  | DeleteRemote (remote : RemoteRef)
  | Encode (titleId : TitleId)
  | Reclaim
  | EdgeApply
  | GrabApply

-- What the execution reads of the desired state.
structure DesiredState where
  lock : Bool
  rangeLen : Nat

-- A plan with the digest of the desired state it was made for.
structure Artifact where
  desiredStateB3 : Blake3Hex
  desiredState : Except Text DesiredState
  actions : List Action

structure InstalledCopy where
  titleId : TitleId
  path : Text
  pullJobId : Nat
  placement : Placement
  deriving DecidableEq

structure UnmonitorFailure where
  titleId : TitleId
  error : Text
  deriving DecidableEq

structure CopyFailure where
  titleId : TitleId
  remote : RemoteRef
  error : Text
  deriving DecidableEq

structure ApplyReport where
  copies : Nat := 0
  skips : Nat := 0
  reviews : Nat := 0
  installed : List InstalledCopy := []
  copyFailed : List CopyFailure := []
  unmonitorFailed : List UnmonitorFailure := []
  deleted : Nat := 0
  skippedSeeding : Nat := 0
  qbitUnavailable : Nat := 0
  deriving DecidableEq

structure ApplyCtx where
  libraryRoot : Text
  concurrency : Nat
  control : Bool

section Rows

-- A transaction: it is committed or it is not, and its answer may be lost.
def onJobs {α : Type} (f : List Row → Except Text (α × List Row)) : Prog World ApplyError α :=
  Prog.perform {
    run := fun _ w =>
      match f w.jobs with
      | .ok (a, jobs) => pure (a, { w with jobs })
      | .error message => throw (.Jobs message)
    partly := fun part w =>
      match f w.jobs with
      | .ok (_, jobs) => if part = 0 then w else { w with jobs }
      | .error _ => w
    fault := .Jobs "sqlite".toList }

def listByTitle (titleId : TitleId) : Prog World ApplyError (List Row) :=
  onJobs fun rows => pure (rows.filter fun row => row.job.titleId = titleId, rows)

def nextId (rows : List Row) : Nat := (rows.map Row.id).foldl max 0 + 1

def create (titleId : TitleId) (parent : Option Nat) : Prog World ApplyError Row :=
  onJobs fun rows =>
    let row : Row := { id := nextId rows, job := { titleId, state := .Pull .Queued }, parent }
    pure (row, rows ++ [row])

def Row.enter (row : Row) (state : JobState) : Row := { row with job := { row.job with state } }

def advance (id : Nat) (event : JobEvent) : Prog World ApplyError Row :=
  onJobs fun rows =>
    match rows.find? fun row => row.id = id with
    | none => throw ("job ".toList ++ Text.decimal id ++ " not found".toList)
    | some row => do
        let state ← (JobMachine.advance row.job.state event).mapError JobError.display
        pure (row.enter state, rows.map fun other => if other.id = id then row.enter state else other)

end Rows

section Intents

def stagingDir (root : Text) (titleId : TitleId) : Text :=
  Path.join (Path.join root "_incoming") titleId.stagingToken

def pullIntentPath (root : Text) (titleId : TitleId) : Text :=
  Path.join (stagingDir root titleId) "pull-intent.json"

-- Whether a path lies in a directory, however deep.
def under (dir path : Text) : Bool := (dir ++ "/".toList).isPrefixOf path

def World.sweep (w : World) (gone : Text → Bool) : World :=
  { w with
    volume := {
      files := w.volume.files.sweep gone
      sidecars := fun path => if gone path then .Absent else w.volume.sidecars path }
    texts := fun path => if gone path then .Absent else w.texts path }

-- A removal that was cut short got some of the paths.
def picked (part : Nat) (path : Text) : Bool :=
  part.testBit (Encodable.encode (path.map Char.toNat))

-- Everything staged for the title goes: the partial files, the sidecars, and the
-- intent.
def discardStaleStaging (root : Text) (titleId : TitleId) : Prog World ApplyError Unit :=
  let dir := stagingDir root titleId
  Prog.perform {
    run := fun _ w => pure ((), w.sweep (under dir))
    partly := fun part w => w.sweep fun path => under dir path && picked part path
    fault := .Jobs ("discard stale staging ".toList ++ dir) }

structure PullIntent where
  rootId : Text
  relPath : Text
  fileLen : Nat
  finalName : Text
  deriving DecidableEq, Repr

def PullIntent.text (intent : PullIntent) : Text :=
  intent.rootId ++ '\n' :: intent.relPath ++ '\n' :: Text.decimal intent.fileLen ++
    '\n' :: intent.finalName ++ "\n".toList

-- `fs::write` truncates the file before it writes.
def writePullIntent (root : Text) (titleId : TitleId) (intent : PullIntent) :
    Prog World ApplyError Unit := do
  let path := pullIntentPath root titleId
  -- The directory.
  Transfer.step (.Jobs path)
  Prog.perform {
    run := fun _ w =>
      if w.texts path = .NotFile then throw (.Jobs path)
      else pure ((), { w with texts := Function.update w.texts path (.Saved intent.text) })
    partly := fun part w =>
      if part = 0 ∨ w.texts path = .NotFile then w
      else { w with
        texts := Function.update w.texts path (.Saved (intent.text.take (part - 1))) }
    fault := .Jobs path }

-- `str::lines`: a line may end in a carriage return, and nothing follows the last
-- line feed.
def lines (text : Text) : List Text :=
  let pieces := Text.split (· == '\n') text
  let ended := pieces.dropLast.map fun line =>
    if line.getLast? = some '\r' then line.dropLast else line
  ended ++ pieces.getLast?.toList.filter (· ≠ [])

def PullIntent.read (text : Text) : Except Text PullIntent := do
  let line := fun n => ((lines text)[n]?).getD []
  match Arr.parseUnsigned Arr.u64Bound (line 2) with
  | none => throw "invalid digit found in string".toList
  | some fileLen =>
      pure { rootId := line 0, relPath := line 1, fileLen, finalName := line 3 }

def readPullIntent (root : Text) (titleId : TitleId) : Prog World ApplyError (Option PullIntent) :=
  let path := pullIntentPath root titleId
  Prog.perform {
    run := fun _ w =>
      match w.texts path with
      | .Absent => pure (none, w)
      | .Saved text =>
          match PullIntent.read text with
          | .ok intent => pure (some intent, w)
          | .error message => throw (.Jobs message)
      | _ => throw (.Jobs path)
    fault := .Jobs path }

def PullIntent.same (found wanted : PullIntent) : Bool :=
  found.rootId = wanted.rootId && Path.equal found.relPath wanted.relPath &&
    found.fileLen = wanted.fileLen && found.finalName = wanted.finalName

-- Without an intent nothing speaks against the pull.
def matchesIntent (found : Option PullIntent) (wanted : PullIntent) : Bool :=
  found.all fun intent => intent.same wanted

def pullMatches (root : Text) (titleId : TitleId) (wanted : PullIntent) :
    Prog World ApplyError Bool := do
  pure (matchesIntent (← readPullIntent root titleId) wanted)

def intentOf (copy : Plan.Copy) (finalName : Text) : PullIntent where
  rootId := copy.remote.rootId
  relPath := copy.remote.relPath
  fileLen := copy.fileLen.toNat
  finalName

end Intents

section Copies

def isOpenWant (row : Row) : Bool := row.job.state = .Want .Open

-- A pull of the title that is not over.
def isInflight (row : Row) : Bool :=
  row.job.state.kind = .Pull && row.job.state ≠ .Pull .Installed

variable (ctx : ApplyCtx) (copy : Plan.Copy)

-- A remote that is gone or has changed takes its staging with it.
def selectPull (finalName : Text) (existing : List Row) : Prog World ApplyError Row :=
  match existing.find? isInflight with
  | some row => do
      if ← pullMatches ctx.libraryRoot copy.titleId (intentOf copy finalName) then pure row
      else
        discardStaleStaging ctx.libraryRoot copy.titleId
        pure row
  | none => create copy.titleId ((existing.find? isOpenWant).map Row.id)

def startPull (finalName : Text) (pull : Row) : Prog World ApplyError Row := do
  if pull.job.state = .Pull .Queued then
    writePullIntent ctx.libraryRoot copy.titleId (intentOf copy finalName)
    advance pull.id (.Pull .Start)
  else pure pull

def pullSpec (rangeLen : Nat) (finalName : Text) : PullSpec where
  libraryRoot := ctx.libraryRoot
  titleId := copy.titleId
  finalName
  remote := copy.remote
  fileLen := copy.fileLen.toNat
  rangeLen
  concurrency := max ctx.concurrency 1

variable (b3 : Bytes → Blake3Hex) (identity : Text → Text → Bytes)
  (remote : Text × List Component → Bytes)

def transferPull (rangeLen : Nat) (finalName : Text) (pull : Row) : Prog World ApplyError Row := do
  if pull.job.state = .Pull .Pulling then
    writePullIntent ctx.libraryRoot copy.titleId (intentOf copy finalName)
    let _ ← (Transfer.pullFile (fun bytes => (b3 bytes).text) remote
      (pullSpec ctx copy rangeLen finalName)).mapError fun e => ApplyError.Transfer e.display
    advance pull.id (.Pull .FinishRanges)
  else pure pull

def recordInstall (titleId : TitleId) (digest : Blake3Hex) (path : Text) :
    Prog World ApplyError Unit :=
  Prog.perform {
    run := fun _ w => pure ((), { w with recorded := w.recorded ++ [(titleId, digest, path)] })
    partly := fun part w =>
      if part = 0 then w else { w with recorded := w.recorded ++ [(titleId, digest, path)] }
    fault := .Titles "sqlite".toList }

def removePullIntent (root : Text) (titleId : TitleId) : Prog World ApplyError Unit :=
  let path := pullIntentPath root titleId
  Prog.perform {
    run := fun _ w =>
      match w.texts path with
      | .Absent | .NotFile => throw (.Jobs path)
      | _ => pure ((), { w with texts := Function.update w.texts path .Absent })
    fault := .Jobs path }

def installPaths (destRel finalName : Text) : Except ApplyError Paths := do
  let rel ← (PathSchema.stagingPath copy.titleId finalName).mapError .PathSchema
  let staging := StagingLayout.fromStaged (Path.join ctx.libraryRoot rel)
  let dest := Path.join ctx.libraryRoot destRel
  pure { staging, dest, data := Install.slotData b3 identity staging.staged dest }

-- The checks of the handle on the path itself hold of any path made this way.
def verifyStaging (destRel : Text) (paths : Paths) : Prog World ApplyError Unit := do
  Prog.lift ((Install.checkTitle copy.titleId destRel).mapError .Install)
  (Install.verifyStaged paths).mapError .Install

def settleWant (existing : List Row) : Prog World ApplyError Unit :=
  match existing.find? isOpenWant with
  | some want => do let _ ← advance want.id (.Want .Satisfy)
  | none => pure ()

-- The intent file was the only thing that kept the title's directory alive. Only
-- directories with nothing in them are pruned.
def clearStaging : Prog World ApplyError Unit := do
  let _ ← (removePullIntent ctx.libraryRoot copy.titleId).attempt
  let _ ← (Transfer.step (.Jobs ctx.libraryRoot) : Prog World ApplyError Unit).attempt

def installPull (destRel finalName : Text) (existing : List Row) (pull : Row) :
    Prog World ApplyError InstalledCopy := do
  if pull.job.state = .Pull .Verifying then
    let paths ← Prog.lift (installPaths ctx copy b3 identity destRel finalName)
    verifyStaging copy destRel paths
    let digest ← (Install.install b3 paths).mapError ApplyError.Install
    let pull ← advance pull.id (.Pull .Install)
    recordInstall copy.titleId digest destRel
    settleWant existing
    clearStaging ctx copy
    pure { titleId := copy.titleId, path := paths.dest, pullJobId := pull.id,
           placement := copy.placement }
  else throw (.Jobs ("pull job ".toList ++ Text.decimal pull.id ++ " in unexpected state ".toList ++
    pull.job.state.display))

def applyCopy (rangeLen : Nat) : Prog World ApplyError InstalledCopy := do
  let destRel ← Prog.lift ((PathSchema.render copy.titleId copy.placement).mapError .PathSchema)
  match Path.fileName destRel with
  | none => throw (.Jobs "destination file name is not utf-8".toList)
  | some finalName =>
      let existing ← listByTitle copy.titleId
      let pull ← selectPull ctx copy finalName existing
      let pull ← startPull ctx copy finalName pull
      let pull ← transferPull ctx copy b3 remote rangeLen finalName pull
      installPull ctx copy b3 identity destRel finalName existing pull

end Copies

section Actions

-- A request to the machines around the library.
def ask {α : Type} (answer : Nat → α) : Prog World ApplyError α :=
  Prog.perform { run := fun pick w => pure (answer pick, w), fault := .Control "unavailable".toList }

def satisfyWants : List Row → Prog World ApplyError Unit
  | [] => pure ()
  | want :: rest => do
      let _ ← advance want.id (.Want .Satisfy)
      satisfyWants rest

def satisfyOpenWant (titleId : TitleId) : Prog World ApplyError Unit := do
  let existing ← listByTitle titleId
  satisfyWants (existing.filter isOpenWant)

inductive DeleteRemoteOutcome where
  | Deleted | SkippedSeeding | QbitUnavailable
  deriving DecidableEq, Repr

def DeleteRemoteOutcome.ofPick (pick : Nat) : DeleteRemoteOutcome :=
  if pick = 0 then .Deleted else if pick = 1 then .SkippedSeeding else .QbitUnavailable

def ApplyReport.deletion (report : ApplyReport) : DeleteRemoteOutcome → ApplyReport
  | .Deleted => { report with deleted := report.deleted + 1 }
  | .SkippedSeeding => { report with skippedSeeding := report.skippedSeeding + 1 }
  | .QbitUnavailable => { report with qbitUnavailable := report.qbitUnavailable + 1 }

def ApplyReport.skip (report : ApplyReport) : ApplyReport := { report with skips := report.skips + 1 }

def ApplyReport.copied (report : ApplyReport) (copy : Plan.Copy) :
    Except ApplyError InstalledCopy → ApplyReport
  | .ok installed => { report with
      copies := report.copies + 1
      installed := report.installed ++ [installed] }
  | .error e => { report with
      copyFailed := report.copyFailed ++
        [{ titleId := copy.titleId, remote := copy.remote, error := e.display }] }

-- What the machines answered, without the mark of their port.
def ApplyError.message : ApplyError → Text
  | .Control message => message
  | e => e.display

def ApplyReport.refused (report : ApplyReport) (titleId : TitleId) :
    Except ApplyError Unit → ApplyReport
  | .ok () => report
  | .error e => { report with
      unmonitorFailed := report.unmonitorFailed ++ [{ titleId, error := e.message }] }

variable (ctx : ApplyCtx) (b3 : Bytes → Blake3Hex) (identity : Text → Text → Bytes)
  (remote : Text × List Component → Bytes)

-- Without a control port nothing is asked.
def controlled (answer : ApplyReport → Prog World ApplyError ApplyReport) (report : ApplyReport) :
    Prog World ApplyError ApplyReport :=
  if ctx.control then answer report else pure report

def applyAction (ds : DesiredState) (report : ApplyReport) :
    Action → Prog World ApplyError ApplyReport
  | .Copy copy => do
      if ds.lock then pure report.skip
      else
        match ← (applyCopy ctx copy b3 identity remote ds.rangeLen).attempt with
        | .error .SnapshotMismatch => throw .SnapshotMismatch
        | result => pure (report.copied copy result)
  | .Skip titleId reason => do
      match titleId with
      | some id => if reason = Plan.skipUpgradeNever then satisfyOpenWant id
      | none => pure ()
      pure report.skip
  | .Review _ _ => pure { report with reviews := report.reviews + 1 }
  | .GrabApply => controlled ctx (fun report => do ask fun _ => (); pure report) report
  | .EdgeApply => controlled ctx (fun report => do ask fun _ => (); pure report) report
  | .Unmonitor titleId => controlled ctx (fun report => do
      let answer ← (ask fun _ => ()).attempt
      pure (report.refused titleId answer)) report
  | .DeleteRemote _ => controlled ctx (fun report => do
      pure (report.deletion (← ask .ofPick))) report
  | .Encode _ => pure report
  | .Reclaim => pure report

def applyActions (ds : DesiredState) : List Action → ApplyReport →
    Prog World ApplyError ApplyReport
  | [], report => pure report
  | action :: rest, report => do
      let report ← applyAction ctx b3 identity remote ds report action
      applyActions ds rest report

-- `active` is the digest of the desired state in force.
def apply (plan : Artifact) (active : Blake3Hex) : Prog World ApplyError ApplyReport := do
  if active ≠ plan.desiredStateB3 then throw .SnapshotMismatch
  let ds ← Prog.lift (plan.desiredState.mapError .Plan)
  applyActions ctx b3 identity remote ds plan.actions {}

end Actions

end

end Apply

end Mediaops
