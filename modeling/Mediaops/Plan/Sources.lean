import Mediaops.Plan.Theorems
import Mathlib.Data.List.Forall2

namespace Mediaops.Plan

-- Where the actions of a plan come from: every listing and every approved hold is
-- a source, and each step of the two loops settles one.

open Reclaim Walker

variable [UnicodeTables]

inductive Source where
  | Listed (entry : RemoteEntry)
  | Approved (item : HoldLiveItem)

def sources (req : PlanRequest) : List Source :=
  req.listings.map .Listed ++ req.approved.map .Approved

section Named

variable (req : PlanRequest)

-- A listing the planner looks at.
def Counted (entry : RemoteEntry) : Prop :=
  ¬(entry.len = 0 ∨ (!isMediaFile entry.ref.relPath) = true) ∧ req.held entry.ref = false

instance (entry : RemoteEntry) : Decidable (Counted req entry) := inferInstanceAs (Decidable (_ ∧ _))

-- The file a source names, or why a listing names none.
def Source.named : Source → Option (Except (RemoteRef × PathSchemaError) Copy)
  | .Listed entry =>
      if Counted req entry then
        match classifyRemote req.rootKinds entry with
        | .error err => some (.error (entry.ref, err))
        | .ok (titleId, placement) =>
            some (.ok { titleId, remote := entry.ref, fileLen := entry.len, placement })
      else none
  | .Approved item =>
      match item.remote, item.placement with
      | some remote, some raw =>
          let placement := PathSchema.normalizePlacement raw
          match PathSchema.renderPlacement placement, placement.keyTitleId with
          | .ok _, .ok titleId =>
              some (.ok { titleId, remote, fileLen := approvedLen req item remote, placement })
          | _, _ => none
      | _, _ => none

def Source.wanted (titleId : TitleId) : Source → Bool
  | .Listed _ => req.wants.contains titleId
  | .Approved item => req.wants.contains titleId || req.wants.contains item.key.titleId

end Named

-- How one step ends.
inductive Outcome where
  | Ignored
  | Refused (remote : RemoteRef) (err : PathSchemaError)
  | Installed (identity : Identity)
  | Duplicate (identity : Identity)
  | Emptied (identity : Identity)
  | Taken (candidate : Candidate)

namespace Outcome

def record (gather : Gather) : Outcome → Gather
  | Ignored => gather
  | Refused remote err => gather.review remote err
  | Installed identity => gather.skip identity
  | Duplicate identity => gather.duplicate identity
  | Emptied identity => gather.planned identity
  | Taken candidate => (gather.planned candidate.copy.identity).push candidate

-- What the step itself reports.
def note (gather : Gather) : Outcome → List Action
  | Refused remote err => [.Review (some remote) (reviewReason err)]
  | Installed identity =>
      [.Skip (some identity.1)
        (if identity ∈ gather.skippedFiles then skipDuplicateTitle else skipUpgradeNever)]
  | Duplicate identity => [.Skip (some identity.1) skipDuplicateTitle]
  | _ => []

end Outcome

section Settle

variable (req : PlanRequest)

def candidateOf (source : Source) (copy : Copy) (place : Nat) : Candidate where
  copy := copy
  listingIndex := place
  kind := copy.titleId.kind
  wanted := source.wanted req copy.titleId

def settle (gather : Gather) (source : Source) (place : Nat) : Outcome :=
  match source.named req with
  | none => .Ignored
  | some (.error (remote, err)) => .Refused remote err
  | some (.ok copy) =>
      if copy.identity ∈ req.installed then .Installed copy.identity
      else if copy.identity ∈ gather.plannedFiles then .Duplicate copy.identity
      else if copy.fileLen = 0 then .Emptied copy.identity
      else .Taken (candidateOf req source copy place)

def step (gather : Gather) (indexed : Source × Nat) : Gather :=
  (settle req gather indexed.1 indexed.2).record gather

variable {req} {gather : Gather} {source : Source} {place : Nat} {copy : Copy}

theorem settle_ignored (h : source.named req = none) : settle req gather source place = .Ignored := by
  rw [settle, h]

theorem settle_refused {remote : RemoteRef} {err : PathSchemaError}
    (h : source.named req = some (.error (remote, err))) :
    settle req gather source place = .Refused remote err := by
  rw [settle, h]

section Ok

variable (h : source.named req = some (.ok copy))

include h

theorem settle_installed (hinstalled : copy.identity ∈ req.installed) :
    settle req gather source place = .Installed copy.identity := by
  rw [settle, h]
  exact if_pos hinstalled

theorem settle_duplicate (hfresh : copy.identity ∉ req.installed)
    (hplanned : copy.identity ∈ gather.plannedFiles) :
    settle req gather source place = .Duplicate copy.identity := by
  rw [settle, h]
  exact (if_neg hfresh).trans (if_pos hplanned)

theorem settle_emptied (hfresh : copy.identity ∉ req.installed)
    (hnew : copy.identity ∉ gather.plannedFiles) (hlen : copy.fileLen = 0) :
    settle req gather source place = .Emptied copy.identity := by
  rw [settle, h]
  exact (if_neg hfresh).trans ((if_neg hnew).trans (if_pos hlen))

theorem settle_taken (hfresh : copy.identity ∉ req.installed)
    (hnew : copy.identity ∉ gather.plannedFiles) (hlen : copy.fileLen ≠ 0) :
    settle req gather source place = .Taken (candidateOf req source copy place) := by
  rw [settle, h]
  exact (if_neg hfresh).trans ((if_neg hnew).trans (if_neg hlen))

end Ok

theorem named_listed {entry : RemoteEntry} (hcounted : Counted req entry) {titleId : TitleId}
    {placement : Placement} (h : classifyRemote req.rootKinds entry = .ok (titleId, placement)) :
    (Source.Listed entry).named req =
      some (.ok { titleId, remote := entry.ref, fileLen := entry.len, placement }) := by
  rw [Source.named, if_pos hcounted, h]

theorem named_approved {item : HoldLiveItem} {remote : RemoteRef} {raw : Placement} {path : Text}
    {titleId : TitleId} (hremote : item.remote = some remote) (hraw : item.placement = some raw)
    (hpath : PathSchema.renderPlacement (PathSchema.normalizePlacement raw) = .ok path)
    (htitle : (PathSchema.normalizePlacement raw).keyTitleId = .ok titleId) :
    (Source.Approved item).named req =
      some (.ok { titleId, remote, fileLen := approvedLen req item remote
                  placement := PathSchema.normalizePlacement raw }) := by
  rw [Source.named, hremote, hraw]
  dsimp only
  rw [hpath, htitle]

theorem listEntry_eq (gather : Gather) (entry : RemoteEntry) (place : Nat) :
    listEntry req gather (entry, place) = step req gather (.Listed entry, place) := by
  unfold listEntry step
  dsimp only
  by_cases hmedia : entry.len = 0 ∨ (!isMediaFile entry.ref.relPath) = true
  · have hout : ¬Counted req entry := fun h => h.1 hmedia
    rw [if_pos hmedia, settle_ignored (by rw [Source.named, if_neg hout])]
    rfl
  rw [if_neg hmedia]
  by_cases hheld : req.held entry.ref = true
  · have hout : ¬Counted req entry := fun h => absurd hheld (by simp [h.2])
    rw [if_pos hheld, settle_ignored (by rw [Source.named, if_neg hout])]
    rfl
  have hcounted : Counted req entry := ⟨hmedia, by simpa using hheld⟩
  rw [if_neg hheld]
  cases hclass : classifyRemote req.rootKinds entry with
  | error err =>
      rw [settle_refused (by rw [Source.named, if_pos hcounted, hclass])]
      rfl
  | ok parsed =>
      obtain ⟨titleId, placement⟩ := parsed
      have hnamed := named_listed hcounted hclass
      have hlen : entry.len ≠ 0 := fun hzero => hmedia (.inl hzero)
      dsimp only
      by_cases hinstalled : (titleId, placement.fileKey) ∈ req.installed
      · rw [if_pos hinstalled, settle_installed hnamed hinstalled]
        rfl
      rw [if_neg hinstalled]
      by_cases hplanned : (titleId, placement.fileKey) ∈ gather.plannedFiles
      · rw [if_pos hplanned, settle_duplicate hnamed hinstalled hplanned]
        rfl
      rw [if_neg hplanned, settle_taken hnamed hinstalled hplanned hlen]
      rfl

theorem approveItem_eq (gather : Gather) (item : HoldLiveItem) (offset : Nat) :
    approveItem req gather (item, offset) =
      step req gather (.Approved item, req.listings.length + offset) := by
  unfold approveItem step
  dsimp only
  cases hremote : item.remote with
  | none =>
      rw [settle_ignored (by rw [Source.named, hremote])]
      rfl
  | some remote =>
      cases hraw : item.placement with
      | none =>
          rw [settle_ignored (by rw [Source.named, hremote, hraw])]
          rfl
      | some raw =>
          dsimp only
          cases hpath : PathSchema.renderPlacement (PathSchema.normalizePlacement raw) with
          | error err =>
              rw [settle_ignored (by rw [Source.named, hremote, hraw]; dsimp only; rw [hpath])]
              rfl
          | ok path =>
              cases htitle : (PathSchema.normalizePlacement raw).keyTitleId with
              | error err =>
                  rw [settle_ignored
                    (by rw [Source.named, hremote, hraw]; dsimp only; rw [hpath, htitle])]
                  rfl
              | ok titleId =>
                  have hnamed : (Source.Approved item).named req = _ :=
                    named_approved hremote hraw hpath htitle
                  dsimp only
                  generalize PathSchema.normalizePlacement raw = placement at hnamed ⊢
                  by_cases hinstalled : (titleId, placement.fileKey) ∈ req.installed
                  · rw [if_pos hinstalled, settle_installed hnamed hinstalled]
                    rfl
                  rw [if_neg hinstalled]
                  by_cases hplanned : (titleId, placement.fileKey) ∈ gather.plannedFiles
                  · rw [if_pos hplanned, settle_duplicate hnamed hinstalled hplanned]
                    rfl
                  rw [if_neg hplanned]
                  by_cases hlen : approvedLen req item remote = 0
                  · rw [if_pos hlen, settle_emptied hnamed hinstalled hplanned hlen]
                    rfl
                  rw [if_neg hlen, settle_taken hnamed hinstalled hplanned hlen]
                  rfl

end Settle

-- The gathering, one source after the other.
def gatherTo (req : PlanRequest) (k : Nat) : Gather :=
  ((sources req).zipIdx.take k).foldl (step req) {}

theorem gathered_eq (req : PlanRequest) : gathered req = gatherTo req (sources req).length := by
  have hlisted : ∀ (entries : List RemoteEntry) (gather : Gather) (from_ : Nat),
      (entries.zipIdx from_).foldl (listEntry req) gather =
        ((entries.map Source.Listed).zipIdx from_).foldl (step req) gather := by
    intro entries
    induction entries with
    | nil => intro gather from_; rfl
    | cons entry rest ih =>
        intro gather from_
        simp only [List.zipIdx_cons, List.foldl_cons, List.map_cons, listEntry_eq, ih]
  have happroved : ∀ (items : List HoldLiveItem) (gather : Gather) (offset : Nat),
      (items.zipIdx offset).foldl (approveItem req) gather =
        ((items.map Source.Approved).zipIdx (req.listings.length + offset)).foldl (step req)
          gather := by
    intro items
    induction items with
    | nil => intro gather offset; rfl
    | cons item rest ih =>
        intro gather offset
        simp only [List.zipIdx_cons, List.foldl_cons, List.map_cons, approveItem_eq, ih,
          Nat.add_assoc]
  unfold gathered gatherTo
  rw [hlisted, happroved, List.take_of_length_le (by simp), sources, List.zipIdx_append,
    List.foldl_append]
  simp

theorem gatherTo_succ {req : PlanRequest} {k : Nat} {source : Source}
    (h : (sources req)[k]? = some source) :
    gatherTo req (k + 1) = step req (gatherTo req k) (source, k) := by
  have hindexed : (sources req).zipIdx[k]? = some (source, k) := by simp [h]
  rw [gatherTo, List.take_add_one, hindexed, Option.toList_some, List.foldl_append]
  rfl

end Mediaops.Plan
