import Mediaops.Core.Home
import Mediaops.Library.Codec

namespace Mediaops

-- How the enumerations of the Home API are spelled. Some read an empty word as
-- their first value.

def unknownWord (what : String) (raw : Text) : HomeError :=
  .Invalid ("unknown ".toList ++ what.toList ++ " `".toList ++ raw ++ "`".toList)

def parseWord {α : Type} (what : String) (all : List α) (asStr : α → Text) (raw : Text) :
    Except HomeError α :=
  match Codec.word all asStr raw with
  | some value => pure value
  | none => throw (unknownWord what raw)

def parseOr {α : Type} (empty : α) (parse : Text → Except HomeError α) (raw : Text) :
    Except HomeError α :=
  if raw = [] then pure empty else parse raw

def parseWordOr {α : Type} (empty : α) (what : String) (all : List α) (asStr : α → Text)
    (raw : Text) : Except HomeError α := parseOr empty (parseWord what all asStr) raw

namespace WantPhase

def asStr : WantPhase → Text
  | Open => "open"
  | Satisfied => "satisfied"
  | Dropped => "dropped"

def parse (raw : Text) : Except HomeError WantPhase :=
  parseWord "Want phase" [Open, Satisfied, Dropped] asStr raw

end WantPhase

namespace HomeJobKind

def asStr : HomeJobKind → Text
  | Pull => "pull"

def parse (raw : Text) : Except HomeError HomeJobKind := parseWord "Job kind" [Pull] asStr raw

end HomeJobKind

namespace JobPhase

def asStr : JobPhase → Text
  | Pending => "pending"
  | Pulling => "pulling"
  | Verifying => "verifying"
  | Installed => "installed"
  | Refused => "refused"
  | Failed => "failed"

def parse (raw : Text) : Except HomeError JobPhase :=
  parseWord "Job phase" [Pending, Pulling, Verifying, Installed, Refused, Failed] asStr raw

end JobPhase

namespace HoldDecisionSpec

def asStr : HoldDecisionSpec → Text
  | Empty => []
  | Approved => "approved"
  | Rejected => "rejected"

-- The empty decision can also be spelled out.
def parse (raw : Text) : Except HomeError HoldDecisionSpec :=
  if raw = "empty".toList then pure Empty
  else parseWordOr Empty "Hold decision" [Approved, Rejected] asStr raw

end HoldDecisionSpec

def WorkerKind.parse (raw : Text) : Except HomeError WorkerKind :=
  parseWord "workerKind" [.Pull, .Scheduler, .Inventory] WorkerKind.asStr raw

namespace SyncScope

def asStr : SyncScope → Text
  | AllEligibleCompleted => "allEligibleCompleted"

def parse (raw : Text) : Except HomeError SyncScope :=
  parseWordOr AllEligibleCompleted "Sync scope" [AllEligibleCompleted] asStr raw

end SyncScope

namespace SyncPhase

def asStr : SyncPhase → Text
  | WaitingInventory => "waitingInventory"
  | Captured => "captured"
  | Scheduled => "scheduled"
  | Failed => "failed"

def parse (raw : Text) : Except HomeError SyncPhase :=
  parseWordOr WaitingInventory "Sync phase" [WaitingInventory, Captured, Scheduled, Failed] asStr raw

end SyncPhase

namespace SyncDisposition

def asStr : SyncDisposition → Text
  | WouldQueue => "wouldQueue"
  | Queued => "queued"
  | AlreadyQueued => "alreadyQueued"
  | Present => "present"
  | Blocked => "blocked"
  | Ineligible => "ineligible"

def parse (raw : Text) : Except HomeError SyncDisposition :=
  parseWordOr WouldQueue "Sync disposition"
    [WouldQueue, Queued, AlreadyQueued, Present, Blocked, Ineligible] asStr raw

end SyncDisposition

-- `Blake3Hex::parse`
def Blake3Hex.parse (raw : Text) : Except Text Blake3Hex :=
  if h : isLowercaseB3Hex raw = true then pure ⟨raw, h⟩
  else throw "digest must be 64 lowercase hex characters".toList

end Mediaops
