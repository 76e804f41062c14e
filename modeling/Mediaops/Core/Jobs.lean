import Mediaops.Core.TitleId

namespace Mediaops.Jobs

-- The states a row of the jobs table can be in, kind by kind.

inductive WantState where
  | Open | Satisfied | Dropped
  deriving DecidableEq, Repr

inductive PullState where
  | Queued | Pulling | Verifying | Installed
  deriving DecidableEq, Repr

inductive EncodeState where
  | Queued | Encoding | Replacing | Done
  deriving DecidableEq, Repr

inductive HoldState where
  | Open | Approved | Rejected
  deriving DecidableEq, Repr

inductive JobState where
  | Want (state : WantState)
  | Pull (state : PullState)
  | Encode (state : EncodeState)
  | Hold (state : HoldState)
  deriving DecidableEq, Repr

inductive JobKind where
  | Want | Pull | Encode | Hold
  deriving DecidableEq, Repr

def JobKind.asStr : JobKind → Text
  | Want => "want".toList
  | Pull => "pull".toList
  | Encode => "encode".toList
  | Hold => "hold".toList

def JobState.kind : JobState → JobKind
  | Want _ => .Want
  | Pull _ => .Pull
  | Encode _ => .Encode
  | Hold _ => .Hold

def JobState.asStr : JobState → Text
  | Want .Open => "open".toList
  | Want .Satisfied => "satisfied".toList
  | Want .Dropped => "dropped".toList
  | Pull .Queued => "queued".toList
  | Pull .Pulling => "pulling".toList
  | Pull .Verifying => "verifying".toList
  | Pull .Installed => "installed".toList
  | Encode .Queued => "queued".toList
  | Encode .Encoding => "encoding".toList
  | Encode .Replacing => "replacing".toList
  | Encode .Done => "done".toList
  | Hold .Open => "open".toList
  | Hold .Approved => "approved".toList
  | Hold .Rejected => "rejected".toList

def JobState.display (state : JobState) : Text := state.kind.asStr ++ ":".toList ++ state.asStr

structure Job [UnicodeTables] where
  titleId : TitleId
  state : JobState
  deriving DecidableEq

end Mediaops.Jobs
