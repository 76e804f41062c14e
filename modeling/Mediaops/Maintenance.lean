import Mediaops.Api.Run

namespace Mediaops.Maintenance

-- `begin_maintenance` of the command line client: it locks the Cluster, looks for
-- bound Jobs and backs out when there is one. Every call to the API is a step of its
-- own; anything may happen between two of them.

inductive AppError where
  | Runtime (message : Text)
  | Policy (message : Text)
  deriving DecidableEq, Repr

def AppError.display : AppError → Text
  | Runtime message | Policy message => message

def maintenanceFailure (err : AppError) : AppError :=
  let message := err.display ++
    "; Cluster remains locked; resolve the error and clear Cluster.spec.lock to resume copying".toList
  match err with
  | .Runtime _ => .Runtime message
  | .Policy _ => .Policy message

def refusal : AppError := .Policy "wait for bound Pull Jobs to finish before library maintenance"

-- What `set_lock` is called for: to begin, or to put the old value back.
inductive Goal where
  | Begin
  | Restore (previous : Bool)
  deriving DecidableEq, Repr

def Goal.lock : Goal → Bool
  | Begin => true
  | Restore previous => previous

inductive Phase where
  | Reading (goal : Goal) (attempt : Nat)
  | Patching (goal : Goal) (attempt : Nat) (cluster : HomeObject) (previous : Bool)
  | Listing (previous : Bool)
  | Done (result : Except AppError Bool)

def isConflict : HomeError → Bool
  | .Conflict _ _ | .AlreadyExists _ _ => true
  | _ => false

-- An error of `set_lock`, as `begin_maintenance` passes it on.
def failed (goal : Goal) (err : AppError) : Phase :=
  match goal with
  | .Begin => .Done (.error err)
  | .Restore _ => .Done (.error (maintenanceFailure err))

def isActive (job : HomeObject) : Bool :=
  match job.spec, job.status with
  | .Job spec, .Job status => spec.nodeName ≠ [] && !status.phase.isTerminal
  | _, _ => false

def read (s : Store) (goal : Goal) (attempt : Nat) : Phase :=
  match s.get .Cluster clusterName with
  | none => failed goal (.Runtime (HomeError.NotFound .Cluster clusterName).display)
  | some cluster =>
      match cluster.spec with
      | .Cluster spec =>
          .Patching goal attempt { cluster with spec := .Cluster { spec with lock := goal.lock } }
            spec.lock
      | _ => failed goal (.Runtime "invalid Cluster")

-- What follows a lock that was set.
def locked (goal : Goal) (previous : Bool) : Phase :=
  match goal with
  | .Begin => .Listing previous
  | .Restore _ => .Done (.error refusal)

section

variable [UnicodeTables]

def write (env : Env) (s : Store) (goal : Goal) (attempt : Nat) (cluster : HomeObject)
    (previous : Bool) : Phase × Store :=
  match Serve.serve env s s .Import (.Patch .PatchSpec cluster) with
  | (.ok (), s) => (locked goal previous, s)
  | (.error e, s) =>
      if isConflict e ∧ attempt < 4 then (.Reading goal (attempt + 1), s)
      else (failed goal (.Runtime e.display), s)

-- The next call of the client. After the fifth conflict `attempt` stops the loop.
def next (env : Env) (s : Store) : Phase → Phase × Store
  | .Reading goal attempt => (read s goal attempt, s)
  | .Patching goal attempt cluster previous => write env s goal attempt cluster previous
  | .Listing previous =>
      if (s.list (some .Job)).any isActive then (.Reading (.Restore previous) 0, s)
      else (.Done (.ok previous), s)
  | .Done result => (.Done result, s)

-- `past`, `before`, `since` and `returned` are the history: the states, the one the
-- lock was set in, those since then, and the one the client returned in.
structure World where
  store : Store
  past : List Store
  phase : Phase
  before : Option Store
  since : List Store
  returned : Option Store

namespace World

def trace (w : World) : List Store := w.store :: w.past

def begin (store : Store) (past : List Store) : World where
  store := store
  past := past
  phase := .Reading .Begin 0
  before := none
  since := []
  returned := none

-- A step of somebody else.
def moved (w : World) (s' : Store) : World :=
  { w with store := s', past := w.trace, since := if w.since = [] then [] else s' :: w.since }

def isDone : Phase → Bool
  | .Done _ => true
  | _ => false

-- The call that sets the lock.
def opens : Phase → Phase → Bool
  | .Patching .Begin _ _ _, .Listing _ => true
  | _, _ => false

def call (env : Env) (w : World) : World :=
  let (phase, s') := next env w.store w.phase
  { store := s'
    past := w.trace
    phase
    before := if opens w.phase phase then some w.store else w.before
    since := if opens w.phase phase then [s'] else if w.since = [] then [] else s' :: w.since
    returned := if isDone phase && !isDone w.phase then some s' else w.returned }

end World

-- A client that starts in any reachable state. The transport may fail at any call,
-- before or after the server has acted on it.
inductive Reachable : World → Prop where
  | Start {s : Store} {past : List Store} (run : Api.Run (s :: past)) : Reachable (.begin s past)
  | Other {w : World} {s' : Store} (h : Reachable w) (step : Api.Step w.trace w.store s') :
      Reachable (w.moved s')
  | Call {w : World} (h : Reachable w) (env : Env) (hcall : World.isDone w.phase = false) :
      Reachable (w.call env)
  | Lost {w : World} (h : Reachable w) (message : Text) (hcall : World.isDone w.phase = false) :
      Reachable { w with
        phase := .Done (.error (.Runtime message)), returned := some w.store }

end

end Mediaops.Maintenance
