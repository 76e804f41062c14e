import Mediaops.Api.Env
import Mediaops.Core.Jobs
import Mediaops.Library.Budget
import Mediaops.Reclaim

namespace Mediaops.Plan

-- The planner: which remote files are copied, and why the others are not.
-- Identity is per file: a second episode of a show, or the rest of an album,
-- still copies.

open Jobs Reclaim Walker

def skipUpgradeNever : Text := "upgrade_never".toList
def skipWatermark : Text := "watermark".toList
def skipMaxCopy : Text := "max_copy".toList
def skipLock : Text := "lock".toList
def skipDuplicateTitle : Text := "duplicate_title".toList

def reviewUnparseable : Text := "unparseable".toList
def reviewNeedsYear : Text := "needs-year".toList
def reviewNeedsSplit : Text := "needs-split".toList

def reviewReason : PathSchemaError → Text
  | .RejectBin .NeedsYear => reviewNeedsYear
  | .RejectBin .NeedsSplit => reviewNeedsSplit
  | _ => reviewUnparseable

inductive Grabber where
  | None | Servarr
  deriving DecidableEq, Repr

-- What the planner reads of the desired state.
structure DesiredState where
  maxCopy : UInt64
  minFree : UInt64
  lock : Bool
  grabber : Grabber
  deriving DecidableEq, Repr

section

variable [UnicodeTables]

abbrev Identity := TitleId × FileKey

instance : LawfulBEq Identity := inferInstance

structure Copy where
  titleId : TitleId
  remote : RemoteRef
  fileLen : UInt64
  placement : Placement

def Copy.identity (copy : Copy) : Identity := (copy.titleId, copy.placement.fileKey)

-- The actions the planner emits.
inductive Action where
  | Copy (copy : Copy)
  | Skip (titleId : Option TitleId) (reason : Text)
  | Review (remote : Option RemoteRef) (reason : Text)
  | Unmonitor (titleId : TitleId)
  | EdgeApply
  | GrabApply

def Action.copied : Action → Option Plan.Copy
  | Copy copy => some copy
  | _ => none

structure HoldKey where
  titleId : TitleId
  releaseId : Text
  deriving DecidableEq

structure HoldLiveItem where
  key : HoldKey
  size : UInt64
  remote : Option RemoteRef
  placement : Option Placement

structure PlanRequest where
  listings : List RemoteEntry
  rootKinds : RootKinds
  titleIndex : List TitleIndexEntry
  onDisk : List InstalledFile
  openWants : List Job
  desired : DesiredState
  freeBytes : UInt64
  edgeFrozen : Bool
  -- Every live import-blocked item.
  holds : List HoldLiveItem
  approved : List HoldLiveItem
  wantedMissing : List TitleId

structure Planned where
  actions : List Action
  firstCandidateBreaches : Bool

structure Candidate where
  copy : Copy
  listingIndex : Nat
  kind : TitleKind
  wanted : Bool

def InstalledFile.identity (file : InstalledFile) : Identity := (file.titleId, file.fileKey)

-- The file a row of the index proves, when its path parses.
def TitleIndexEntry.installedFile (row : TitleIndexEntry) : Option InstalledFile :=
  if row.path = [] then none else (Reclaim.InstalledFile.fromRelPath row.path).toOption

namespace PlanRequest

variable (req : PlanRequest)

def diskIdentities : List Identity := req.onDisk.map InstalledFile.identity

def indexIdentities : List Identity :=
  (req.titleIndex.filterMap TitleIndexEntry.installedFile).map InstalledFile.identity

def installed : List Identity := req.diskIdentities ++ req.indexIdentities

def wants : List TitleId :=
  (req.openWants.filter fun job => job.state = .Want .Open).map Job.titleId

def held (remote : RemoteRef) : Bool :=
  req.holds.any fun hold => hold.remote.any fun own => own.key = remote.key

end PlanRequest

-- The piles a file is sorted into.
structure Gather where
  upgradeNever : List Action := []
  duplicates : List Action := []
  reviews : List Action := []
  candidates : List Candidate := []
  plannedFiles : List Identity := []
  skippedFiles : List Identity := []

namespace Gather

def skip (gather : Gather) (identity : Identity) : Gather :=
  if identity ∈ gather.skippedFiles then
    { gather with
      duplicates := gather.duplicates ++ [.Skip (some identity.1) skipDuplicateTitle] }
  else
    { gather with
      skippedFiles := identity :: gather.skippedFiles
      upgradeNever := gather.upgradeNever ++ [.Skip (some identity.1) skipUpgradeNever] }

def duplicate (gather : Gather) (identity : Identity) : Gather :=
  { gather with duplicates := gather.duplicates ++ [.Skip (some identity.1) skipDuplicateTitle] }

def planned (gather : Gather) (identity : Identity) : Gather :=
  { gather with plannedFiles := identity :: gather.plannedFiles }

def review (gather : Gather) (remote : RemoteRef) (err : PathSchemaError) : Gather :=
  { gather with reviews := gather.reviews ++ [.Review (some remote) (reviewReason err)] }

def push (gather : Gather) (candidate : Candidate) : Gather :=
  { gather with candidates := gather.candidates ++ [candidate] }

end Gather

variable (req : PlanRequest)

-- One entry of the listings.
def listEntry (gather : Gather) (indexed : RemoteEntry × Nat) : Gather :=
  let (entry, listingIndex) := indexed
  if entry.len = 0 ∨ !isMediaFile entry.ref.relPath then gather
  else if req.held entry.ref then gather
  else match classifyRemote req.rootKinds entry with
    | .error err => gather.review entry.ref err
    | .ok (titleId, placement) =>
        let identity := (titleId, placement.fileKey)
        if identity ∈ req.installed then gather.skip identity
        else if identity ∈ gather.plannedFiles then gather.duplicate identity
        else (gather.planned identity).push {
          copy := { titleId, remote := entry.ref, fileLen := entry.len, placement }
          listingIndex
          kind := titleId.kind
          wanted := req.wants.contains titleId }

-- The length the listing gives, or else the hold.
def approvedLen (item : HoldLiveItem) (remote : RemoteRef) : UInt64 :=
  match req.listings.find? fun entry => entry.ref.key = remote.key with
  | some entry => entry.len
  | none => item.size

-- One approved hold. Its library identity is the key its placement names; its
-- own id stays the key of the inbox.
def approveItem (gather : Gather) (indexed : HoldLiveItem × Nat) : Gather :=
  let (item, offset) := indexed
  match item.remote, item.placement with
  | some remote, some raw =>
      let placement := PathSchema.normalizePlacement raw
      match PathSchema.renderPlacement placement, placement.keyTitleId with
      | .ok _, .ok titleId =>
          let identity := (titleId, placement.fileKey)
          if identity ∈ req.installed then gather.skip identity
          else if identity ∈ gather.plannedFiles then gather.duplicate identity
          else if approvedLen req item remote = 0 then gather.planned identity
          else (gather.planned identity).push {
            copy := { titleId, remote, fileLen := approvedLen req item remote, placement }
            listingIndex := req.listings.length + offset
            kind := titleId.kind
            wanted := req.wants.contains titleId || req.wants.contains item.key.titleId }
      | _, _ => gather
  | _, _ => gather

def gathered : Gather :=
  req.approved.zipIdx.foldl (approveItem req) (req.listings.zipIdx.foldl (listEntry req) {})

omit [UnicodeTables] in
def kindRank : TitleKind → Nat
  | .Album => 0
  | .Movie => 1
  | .Series => 2

def Candidate.rank (candidate : Candidate) : Nat ×ₗ Nat ×ₗ Nat :=
  toLex (kindRank candidate.kind, toLex ((if candidate.wanted then 0 else 1),
    candidate.listingIndex))

def candidates : List Candidate :=
  (gathered req).candidates.insertionSort fun a b => a.rank ≤ b.rank

-- The two running budgets, and why the rest of the kind is blocked.
structure Pass where
  remainingCopy : UInt64
  remainingFree : UInt64
  blocked : Option Text := none
  actions : List Action := []

def breachesFree (minFree remainingFree fileLen : UInt64) : Bool :=
  fileLen > remainingFree || saturatingSub remainingFree fileLen < minFree

def refusal (minFree : UInt64) (pass : Pass) (fileLen : UInt64) : Option Text :=
  if fileLen > pass.remainingCopy then some skipMaxCopy
  else if breachesFree minFree pass.remainingFree fileLen then some skipWatermark
  else none

def Pass.skip (pass : Pass) (candidate : Candidate) (reason : Text) : Pass :=
  { pass with
    blocked := some reason
    actions := pass.actions ++ [.Skip (some candidate.copy.titleId) reason] }

def Pass.take (pass : Pass) (candidate : Candidate) : Pass :=
  { pass with
    remainingCopy := saturatingSub pass.remainingCopy candidate.copy.fileLen
    remainingFree := saturatingSub pass.remainingFree candidate.copy.fileLen
    actions := pass.actions ++ [.Copy candidate.copy] }

-- The first candidate of a kind that does not fit blocks the rest of its kind.
def offer (minFree : UInt64) (pass : Pass) (candidate : Candidate) : Pass :=
  match pass.blocked with
  | some reason => pass.skip candidate reason
  | none =>
      match refusal minFree pass candidate.copy.fileLen with
      | some reason => pass.skip candidate reason
      | none => pass.take candidate

def kindPass (minFree : UInt64) (all : List Candidate) (pass : Pass) (kind : TitleKind) : Pass :=
  (all.filter fun c => c.kind = kind).foldl (offer minFree) { pass with blocked := none }

def budgetPass (all : List Candidate) : Pass :=
  [TitleKind.Album, .Movie, .Series].foldl (kindPass req.desired.minFree all)
    { remainingCopy := req.desired.maxCopy, remainingFree := req.freeBytes }

def firstCandidateBreaches (all : List Candidate) : Bool :=
  match all with
  | first :: _ =>
      !req.desired.lock && (first.copy.fileLen > req.desired.maxCopy ||
        breachesFree req.desired.minFree req.freeBytes first.copy.fileLen)
  | [] => false

-- One row of the index; a series is never unmonitored.
def unmonitorRow (out : List TitleId) (row : TitleIndexEntry) : List TitleId :=
  if row.titleId.kind = .Series then out
  else if row.titleId ∈ req.wantedMissing ∧ row.titleId ∈ req.onDisk.map InstalledFile.titleId ∧
      row.titleId ∉ out then out ++ [row.titleId]
  else out

def unmonitorActions : List Action :=
  if req.desired.grabber ≠ .Servarr then []
  else (req.titleIndex.foldl (unmonitorRow req) []).map .Unmonitor

-- Under the lock every candidate is skipped.
def copyActions : List Action :=
  if req.desired.lock then
    (candidates req).map fun c => .Skip (some c.copy.titleId) skipLock
  else (budgetPass req (candidates req)).actions

def planActions : Planned :=
  let found := gathered req
  { actions :=
      (if req.edgeFrozen then [.EdgeApply] else []) ++
        (if req.desired.grabber = .Servarr then [.GrabApply] else []) ++
        copyActions req ++ found.upgradeNever ++ found.duplicates ++ found.reviews ++
        unmonitorActions req
    firstCandidateBreaches :=
      firstCandidateBreaches req (candidates req) }

end

end Mediaops.Plan
