import Mediaops.Api.Serve

namespace Mediaops.Scheduler

-- The scheduler: one pass reads the Jobs once and then binds those that fit.

structure Attempt where
  state : Store
  job : HomeObject

-- What a pass did: the binds it tried, each with the state it was tried in, and
-- how it ended.
structure Outcome where
  attempts : List Attempt
  result : Except Text Unit
  state : Store

-- `bind_priority`
def bindPriority : TitleKind → Nat
  | .Album => 0
  | .Movie => 1
  | .Series => 2

-- Errors of a bind that only skip the Job.
def isSkipped : HomeError → Bool
  | .Denied _ | .Conflict _ _ | .NotFound _ _ => true
  | _ => false

def boundTo (worker : WorkerKind) (job : HomeObject) : HomeObject :=
  match job.spec with
  | .Job spec => { job with
      spec := .Job { spec with nodeName := worker.nodeName, workerKind := worker.asStr } }
  | _ => job

def isPending (job : HomeObject) : Option JobSpec :=
  match job.spec, job.status with
  | .Job spec, .Job status =>
      if status.phase ≠ .Pending ∨ spec.nodeName ≠ [] then none else some spec
  | _, _ => none

def clusterOpen (cluster : HomeObject) : Bool :=
  match cluster.spec with
  | .Cluster config => !config.lock
  | _ => false

section

variable [UnicodeTables]

def priorityOf (job : HomeObject) : Nat :=
  match job.spec with
  | .Job spec =>
      match TitleId.parse spec.titleId with
      | .ok id => bindPriority id.kind
      | .error _ => 9
  | _ => 9

def bindOrder (a b : HomeObject) : Prop :=
  priorityOf a < priorityOf b ∨ (priorityOf a = priorityOf b ∧ a.metadata.name ≤ b.metadata.name)

instance : DecidableRel bindOrder := fun _ _ => inferInstanceAs (Decidable (_ ∨ _))

-- The staged part of every bound Job counts against the disk.
def reservedDisk (disk : Disk) : UInt64 → List JobSpec → Except Text UInt64
  | sum, [] => pure sum
  | sum, spec :: rest => do
      let remaining ← pullRemainingBytes disk spec
      reservedDisk disk (saturatingAdd sum remaining) rest

def fits (disk : Disk) (bound onDisk : UInt64) (spec : JobSpec) :
    Except Text (Option UInt64) := do
  let free ← disk.freeBytes spec.libraryRoot
  let remaining ← pullRemainingBytes disk spec
  if !pullFits (UInt64.ofNat (2 ^ 64 - 1)) 0 spec.maxCopy bound spec.fileLen ||
      !pullFits free spec.minFree 0 onDisk remaining then pure none
  else if !(← disk.installFits spec) then pure none
  else pure (some remaining)

variable (disk : Disk) (patch : Store → HomeObject → Serve.Reply)

-- The loop over the Jobs. `patch` is the API's answer to a bind.
def bindJobs : UInt64 → UInt64 → Store → List HomeObject → Outcome
  | _, _, s, [] => ⟨[], .ok (), s⟩
  | bound, onDisk, s, job :: rest =>
      match isPending job with
      | none => bindJobs bound onDisk s rest
      | some spec =>
          match fits disk bound onDisk spec with
          | .error message => ⟨[], .error message, s⟩
          | .ok none => bindJobs bound onDisk s rest
          | .ok (some remaining) =>
              let attempt : Attempt := ⟨s, job⟩
              match patch s (boundTo .Pull job) with
              | (.ok (), s) =>
                  let after := bindJobs (saturatingAdd bound spec.fileLen)
                    (saturatingAdd onDisk remaining) s rest
                  { after with attempts := attempt :: after.attempts }
              | (.error e, s) =>
                  if isSkipped e then
                    let after := bindJobs bound onDisk s rest
                    { after with attempts := attempt :: after.attempts }
                  else ⟨[attempt], .error e.display, s⟩

-- `bind_pending`
def bindPending (now : Int) (s : Store) : Outcome :=
  if !Admission.nodeReady now ((s.get .Node WorkerKind.Pull.nodeName).map HomeObject.status) then
    ⟨[], .ok (), s⟩
  else match s.get .Cluster clusterName with
    | none => ⟨[], .error (HomeError.NotFound .Cluster clusterName).display, s⟩
    | some cluster =>
        if !clusterOpen cluster then ⟨[], .ok (), s⟩
        else
          let jobs := (s.list (some .Job)).insertionSort bindOrder
          let held := jobs.filterMap Admission.reservation
          let bound := (held.map JobSpec.fileLen).foldl saturatingAdd 0
          match reservedDisk disk 0 held with
          | .error message => ⟨[], .error message, s⟩
          | .ok onDisk => bindJobs disk patch bound onDisk s jobs

end

end Mediaops.Scheduler
