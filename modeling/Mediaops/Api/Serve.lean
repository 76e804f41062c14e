import Mediaops.Api.Admission
import Mediaops.Api.Sync

namespace Mediaops.Serve

-- The mutating requests of the Home API. Each runs under the mutation lock from
-- its admission to its write; reads and reply bodies are not modelled. Only the
-- disk proof of an imported Title is checked before the lock is taken, on `view`.

inductive Request where
  | Apply (obj : HomeObject)
  | Patch (op : HomeOp) (obj : HomeObject)
  | Delete (kind : Kind) (name : Text) (resourceVersion : Int)
  | Reconcile
  | Sync (requestId : Text)
  | BeginInventory
  deriving DecidableEq, Repr

abbrev Reply := Except HomeError Unit × Store

-- `map_store` keeps Home errors and reports everything else as internal.
def mapStore : StoreError → HomeError
  | .Home e => e
  | e => .Invalid e.display

def reply {α : Type} (result : Except StoreError α × Store) : Reply :=
  ((result.1.map fun _ => ()).mapError mapStore, result.2)

def clusterSpecOf (s : Store) : Option Spec := (s.get .Cluster clusterName).map HomeObject.spec

-- Hashing happens outside the lock, so the Cluster must not have changed since.
def importProof (view s : Store) (check : Except HomeError Unit) : Except HomeError Unit := do
  check
  if clusterSpecOf view ≠ clusterSpecOf s then throw (.Conflict .Cluster clusterName)

section

variable [UnicodeTables]

def admitApply (env : Env) (view s : Store) (actor : Actor) (obj : HomeObject) :
    Except HomeError Unit := do
  admitOp actor .Apply obj.kind
  if actor = .Import ∧ obj.kind = .Title then
    importProof view s (Admission.validateApply env.disk view actor obj true)
  Admission.validateApply env.disk s actor obj false

def apply (env : Env) (view s : Store) (actor : Actor) (obj : HomeObject) : Reply :=
  match admitApply env view s actor obj with
  | .error e => (.error e, s)
  | .ok () => reply (s.apply obj)

-- A bind takes only the worker from the request and keeps the stored spec.
def bindSpec (s : Store) (obj : HomeObject) : Except HomeError Spec :=
  match obj.spec, (s.get .Job obj.metadata.name).map HomeObject.spec with
  | .Job patch, some (.Job spec) =>
      pure (.Job { spec with nodeName := patch.nodeName, workerKind := patch.workerKind })
  | .Job _, some _ => throw (invalid "stored Job has no Job body")
  | .Job _, none => throw (.NotFound .Job obj.metadata.name)
  | _, _ => throw (invalid "bind requires a Job body")

def patchWrite (s : Store) (op : HomeOp) (obj : HomeObject) : Reply :=
  let expected := obj.metadata.resourceVersion
  match op with
  | .PatchStatus => reply (s.patchStatus obj.kind obj.metadata.name obj.status expected)
  | .PatchBind =>
      if obj.kind ≠ .Job then (.error (invalid "bind is only valid on Job"), s)
      else match bindSpec s obj with
        | .error e => (.error e, s)
        | .ok spec => reply (s.patchSpec .Job obj.metadata.name spec expected)
  | _ => reply (s.patchSpec obj.kind obj.metadata.name obj.spec expected)

def admitPatch (env : Env) (view s : Store) (actor : Actor) (op : HomeOp) (obj : HomeObject) :
    Except HomeError Unit := do
  admitOp actor op obj.kind
  if actor = .Import ∧ obj.kind = .Title ∧ op = .PatchStatus then
    importProof view s (Admission.validatePatch env view actor op obj true)
  Admission.validatePatch env s actor op obj false

def patch (env : Env) (view s : Store) (actor : Actor) (op : HomeOp) (obj : HomeObject) : Reply :=
  match admitPatch env view s actor op obj with
  | .error e => (.error e, s)
  | .ok () => patchWrite s op obj

def admitDelete (s : Store) (actor : Actor) (kind : Kind) (name : Text) : Except HomeError Unit := do
  admitOp actor .Delete kind
  Admission.validateDelete s kind name

def delete (s : Store) (actor : Actor) (kind : Kind) (name : Text) (rv : Int) : Reply :=
  match admitDelete s actor kind name with
  | .error e => (.error e, s)
  | .ok () => reply (s.delete kind name rv)

-- Bumps the counter the controllers wake on.
def reconcile (s : Store) (actor : Actor) : Reply :=
  match admitOp actor .Reconcile .Cluster with
  | .error e => (.error e, s)
  | .ok () =>
      match s.get .Cluster clusterName with
      | none => (.error (.NotFound .Cluster clusterName), s)
      | some cluster =>
          match cluster.status with
          | .Cluster status => reply (s.patchStatus .Cluster clusterName
              (.Cluster { status with reconcileGeneration := status.reconcileGeneration + 1 })
              cluster.metadata.resourceVersion)
          | _ => (.error (invalid "Cluster status missing"), s)

def sync (env : Env) (s : Store) (actor : Actor) (requestId : Text) : Reply :=
  if actor ≠ .Cli then
    (.error (.Denied "only CLI clients may request one-shot sync".toList), s)
  else
    let (result, s) := Sync.start env s requestId
    (result.map fun _ => (), s)

def beginInventory (env : Env) (s : Store) (actor : Actor) : Reply :=
  if actor ≠ .Inventory then (.error (.Denied "only inventory may begin a scan".toList), s)
  else reply (Sync.beginInventory env s)

-- The request up to its first write. A patched or deleted Hold and a deleted Want
-- are followed by `refuse_revoked_jobs` before the lock is released.
def serve (env : Env) (view s : Store) (actor : Actor) : Request → Reply
  | .Apply obj => apply env view s actor obj
  | .Patch op obj => patch env view s actor op obj
  | .Delete kind name rv => delete s actor kind name rv
  | .Reconcile => reconcile s actor
  | .Sync requestId => sync env s actor requestId
  | .BeginInventory => beginInventory env s actor

end

end Mediaops.Serve
