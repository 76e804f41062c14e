import Mediaops.Core.Jobs

namespace Mediaops.JobMachine

-- A job of the local store and the events that move it, of all four kinds.

open Jobs (WantState PullState EncodeState HoldState JobState JobKind)

inductive WantEvent where
  | Satisfy | Drop
  deriving DecidableEq, Repr

inductive PullEvent where
  | Start | FinishRanges | Install
  deriving DecidableEq, Repr

inductive EncodeEvent where
  | Start | FinishEncode | Replace
  deriving DecidableEq, Repr

inductive HoldEvent where
  | Approve | Reject
  deriving DecidableEq, Repr

inductive JobEvent where
  | Want (event : WantEvent)
  | Pull (event : PullEvent)
  | Encode (event : EncodeEvent)
  | Hold (event : HoldEvent)
  deriving DecidableEq, Repr

def JobEvent.kind : JobEvent → JobKind
  | Want _ => .Want
  | Pull _ => .Pull
  | Encode _ => .Encode
  | Hold _ => .Hold

def JobEvent.asStr : JobEvent → Text
  | Want .Satisfy => "satisfy".toList
  | Want .Drop => "drop".toList
  | Pull .Start => "start".toList
  | Pull .FinishRanges => "finish_ranges".toList
  | Pull .Install => "install".toList
  | Encode .Start => "start".toList
  | Encode .FinishEncode => "finish_encode".toList
  | Encode .Replace => "replace".toList
  | Hold .Approve => "approve".toList
  | Hold .Reject => "reject".toList

-- The id of a row.
structure JobId where
  raw : Int
  positive : 0 < raw
  deriving DecidableEq

inductive JobError where
  | InvalidId (raw : Int)
  | SelfParent (id : JobId)
  | UnexpectedParent (kind : JobKind)
  | ParentKindMismatch (parent : JobId) (expected actual : JobKind)
  | UnknownKind (text : Text)
  | UnknownState (kind : JobKind) (state : Text)
  | KindMismatch (state event : JobKind)
  | IllegalTransition (kind : JobKind) (start event : Text)
  deriving DecidableEq

def JobError.display : JobError → Text
  | InvalidId raw => "job id must be a positive integer, got ".toList ++ Text.decimalInt raw
  | SelfParent id => "job ".toList ++ Text.decimalInt id.raw ++ " cannot be its own parent".toList
  | UnexpectedParent kind => kind.asStr ++ " job cannot have a parent".toList
  | ParentKindMismatch parent expected actual => "parent job ".toList ++ Text.decimalInt parent.raw ++
      " is ".toList ++ actual.asStr ++ ", expected ".toList ++ expected.asStr
  | UnknownKind text => "unknown job kind \x60".toList ++ text ++ "\x60".toList
  | UnknownState kind state => "unknown job state \x60".toList ++ state ++ "\x60 for kind ".toList ++
      kind.asStr
  | KindMismatch state event => "job event kind ".toList ++ event.asStr ++
      " does not match state kind ".toList ++ state.asStr
  | IllegalTransition kind start event => "illegal ".toList ++ kind.asStr ++
      " transition from ".toList ++ start ++ " via ".toList ++ event

def JobId.new (raw : Int) : Except JobError JobId :=
  if h : 0 < raw then pure ⟨raw, h⟩ else throw (.InvalidId raw)

def JobKind.parse (raw : Text) : Except JobError JobKind :=
  if raw = "want".toList then pure .Want
  else if raw = "pull".toList then pure .Pull
  else if raw = "encode".toList then pure .Encode
  else if raw = "hold".toList then pure .Hold
  else throw (.UnknownKind raw)

-- The kind of the parent, of a job that may have one.
def JobKind.requiredParentKind : JobKind → Option JobKind
  | .Pull => some .Want
  | .Encode => some .Pull
  | .Want | .Hold => none

def JobState.initial : JobKind → JobState
  | .Want => .Want .Open
  | .Pull => .Pull .Queued
  | .Encode => .Encode .Queued
  | .Hold => .Hold .Open

def JobState.parse (kind : JobKind) (raw : Text) : Except JobError JobState :=
  match kind with
  | .Want =>
      if raw = "open".toList then pure (.Want .Open)
      else if raw = "satisfied".toList then pure (.Want .Satisfied)
      else if raw = "dropped".toList then pure (.Want .Dropped)
      else throw (.UnknownState kind raw)
  | .Pull =>
      if raw = "queued".toList then pure (.Pull .Queued)
      else if raw = "pulling".toList then pure (.Pull .Pulling)
      else if raw = "verifying".toList then pure (.Pull .Verifying)
      else if raw = "installed".toList then pure (.Pull .Installed)
      else throw (.UnknownState kind raw)
  | .Encode =>
      if raw = "queued".toList then pure (.Encode .Queued)
      else if raw = "encoding".toList then pure (.Encode .Encoding)
      else if raw = "replacing".toList then pure (.Encode .Replacing)
      else if raw = "done".toList then pure (.Encode .Done)
      else throw (.UnknownState kind raw)
  | .Hold =>
      if raw = "open".toList then pure (.Hold .Open)
      else if raw = "approved".toList then pure (.Hold .Approved)
      else if raw = "rejected".toList then pure (.Hold .Rejected)
      else throw (.UnknownState kind raw)

section Advance

def illegal (state : JobState) (event : JobEvent) : JobError :=
  .IllegalTransition state.kind state.asStr event.asStr

def advanceWant (state : WantState) (event : WantEvent) : Except JobError JobState :=
  match state, event with
  | .Open, .Satisfy => pure (.Want .Satisfied)
  | .Open, .Drop => pure (.Want .Dropped)
  | _, _ => throw (illegal (.Want state) (.Want event))

def advancePull (state : PullState) (event : PullEvent) : Except JobError JobState :=
  match state, event with
  | .Queued, .Start => pure (.Pull .Pulling)
  | .Pulling, .FinishRanges => pure (.Pull .Verifying)
  | .Verifying, .Install => pure (.Pull .Installed)
  | _, _ => throw (illegal (.Pull state) (.Pull event))

def advanceEncode (state : EncodeState) (event : EncodeEvent) : Except JobError JobState :=
  match state, event with
  | .Queued, .Start => pure (.Encode .Encoding)
  | .Encoding, .FinishEncode => pure (.Encode .Replacing)
  | .Replacing, .Replace => pure (.Encode .Done)
  | _, _ => throw (illegal (.Encode state) (.Encode event))

def advanceHold (state : HoldState) (event : HoldEvent) : Except JobError JobState :=
  match state, event with
  | .Open, .Approve => pure (.Hold .Approved)
  | .Open, .Reject => pure (.Hold .Rejected)
  | _, _ => throw (illegal (.Hold state) (.Hold event))

def advance (state : JobState) (event : JobEvent) : Except JobError JobState :=
  match state, event with
  | .Want state, .Want event => advanceWant state event
  | .Pull state, .Pull event => advancePull state event
  | .Encode state, .Encode event => advanceEncode state event
  | .Hold state, .Hold event => advanceHold state event
  | state, event => throw (.KindMismatch state.kind event.kind)

-- How far along a state is.
def stage : JobState → Nat
  | .Want .Open | .Pull .Queued | .Encode .Queued | .Hold .Open => 0
  | .Want _ | .Hold _ | .Pull .Pulling | .Encode .Encoding => 1
  | .Pull .Verifying | .Encode .Replacing => 2
  | .Pull .Installed | .Encode .Done => 3

def terminal : JobState → Bool
  | .Want .Open | .Hold .Open => false
  | .Want _ | .Hold _ => true
  | .Pull state => state = .Installed
  | .Encode state => state = .Done

theorem advance_ok {state next : JobState} {event : JobEvent} (h : advance state event = .ok next) :
    next.kind = state.kind ∧ next.kind = event.kind ∧ stage next = stage state + 1 ∧
      terminal state = false := by
  cases state with
  | Want state =>
      cases event <;> simp only [advance] at h <;> try cases h
      case Want event =>
        cases state <;> cases event <;> cases h <;> exact ⟨rfl, rfl, rfl, rfl⟩
  | Pull state =>
      cases event <;> simp only [advance] at h <;> try cases h
      case Pull event =>
        cases state <;> cases event <;> cases h <;> exact ⟨rfl, rfl, rfl, rfl⟩
  | Encode state =>
      cases event <;> simp only [advance] at h <;> try cases h
      case Encode event =>
        cases state <;> cases event <;> cases h <;> exact ⟨rfl, rfl, rfl, rfl⟩
  | Hold state =>
      cases event <;> simp only [advance] at h <;> try cases h
      case Hold event =>
        cases state <;> cases event <;> cases h <;> exact ⟨rfl, rfl, rfl, rfl⟩

theorem kind_advance {state next : JobState} {event : JobEvent} (h : advance state event = .ok next) :
    next.kind = state.kind := (advance_ok h).1

end Advance

section Texts

theorem parse_kind (kind : JobKind) : JobKind.parse kind.asStr = .ok kind := by
  cases kind <;> decide

theorem parse_state (state : JobState) : JobState.parse state.kind state.asStr = .ok state := by
  cases state with
  | Want state => cases state <;> decide
  | Pull state => cases state <;> decide
  | Encode state => cases state <;> decide
  | Hold state => cases state <;> decide

theorem asStr_injective {state state' : JobState} (hkind : state.kind = state'.kind)
    (h : state.asStr = state'.asStr) : state = state' := by
  have hread := parse_state state
  rw [hkind, h, parse_state state'] at hread
  cases hread
  rfl

theorem kindStr_injective {kind kind' : JobKind} (h : kind.asStr = kind'.asStr) : kind = kind' := by
  have hread := parse_kind kind
  rw [h, parse_kind kind'] at hread
  cases hread
  rfl

end Texts

variable [UnicodeTables]

-- One row: its subject, where it is, and the job it waits on.
structure Job where
  id : JobId
  titleId : TitleId
  state : JobState
  parentJobId : Option JobId
  apart : parentJobId ≠ some id
  rootless : state.kind = .Want ∨ state.kind = .Hold → parentJobId = none
  deriving DecidableEq

def Job.new (id : JobId) (titleId : TitleId) (state : JobState) (parentJobId : Option JobId) :
    Except JobError Job :=
  if hself : parentJobId = some id then throw (.SelfParent id)
  else if hroot : (state.kind = .Want ∨ state.kind = .Hold) ∧ parentJobId ≠ none then
    throw (.UnexpectedParent state.kind)
  else
    pure { id, titleId, state, parentJobId
           apart := hself
           rootless := fun hkind => Decidable.of_not_not fun hsome => hroot ⟨hkind, hsome⟩ }

def Job.kind (job : Job) : JobKind := job.state.kind

def Job.enter (job : Job) (state : JobState) (h : state.kind = job.state.kind) : Job :=
  { job with state, rootless := fun hkind => job.rootless (h ▸ hkind) }

def Job.advance (job : Job) (event : JobEvent) : Except JobError Job :=
  match h : JobMachine.advance job.state event with
  | .ok state => pure (job.enter state (kind_advance h))
  | .error e => throw e

-- An encode is ready when it is still queued and its parent copy is installed, or when
-- it has no parent and its title is in the index.
def encodeReady (job : Job) (parent : Option Job) (titleIndexed : Bool) : Bool :=
  if job.state = .Encode .Queued then
    match job.parentJobId with
    | some parentId =>
        match parent with
        | some parent => parent.id = parentId && parent.state = .Pull .Installed
        | none => false
    | none => parent.isNone && titleIndexed
  else false

theorem Job.new_self (job : Job) : Job.new job.id job.titleId job.state job.parentJobId = .ok job := by
  rw [Job.new, dif_neg job.apart, dif_neg]
  · rfl
  · rintro ⟨hkind, hsome⟩
    exact hsome (job.rootless hkind)

theorem Job.new_ok {id : JobId} {titleId : TitleId} {state : JobState} {parentJobId : Option JobId}
    {job : Job} (h : Job.new id titleId state parentJobId = .ok job) :
    job.id = id ∧ job.titleId = titleId ∧ job.state = state ∧ job.parentJobId = parentJobId := by
  unfold Job.new at h
  split at h
  · cases h
  · split at h
    · cases h
    · cases h
      exact ⟨rfl, rfl, rfl, rfl⟩

theorem Job.advance_ok {job next : Job} {event : JobEvent} (h : job.advance event = .ok next) :
    ∃ hkind, JobMachine.advance job.state event = .ok next.state ∧ next = job.enter next.state hkind := by
  unfold Job.advance at h
  split at h
  · next state hstate =>
      cases h
      exact ⟨kind_advance hstate, hstate, rfl⟩
  · cases h

end Mediaops.JobMachine
