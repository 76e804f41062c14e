import Mediaops.Api.Budget
import Mediaops.Plan.Theorems

namespace Mediaops.Plan

-- One copy budget and one watermark, checked on two sides: by the planner, and
-- by the bind of a Job that the Cluster of the same desired state is copied into.

open Api

-- What `cluster_from_config` reads of the desired state.
structure ConfigState extends DesiredState where
  rangeLen : UInt64
  rangeConcurrency : Option UInt32
  paths : List PathRoot

def Grabber.home : Grabber → Mediaops.Grabber
  | .None => .None
  | .Servarr => .Servarr

def clusterFromConfig (ds : ConfigState) (root : Text) : ClusterSpec where
  maxCopy := ds.maxCopy
  minFree := ds.minFree
  rangeLen := ds.rangeLen
  rangeConcurrency := ds.rangeConcurrency
  grabber := ds.grabber.home
  lock := ds.lock
  libraryRoot := root
  roots := ds.paths

section

variable [UnicodeTables]

section Planner

variable {req : PlanRequest} {candidate : Candidate}

-- A single candidate meets both budgets untouched, whatever its kind.
theorem budgetPass_single (req : PlanRequest) (candidate : Candidate) :
    (budgetPass req [candidate]).actions =
      (offer req.desired.minFree
        { remainingCopy := req.desired.maxCopy, remainingFree := req.freeBytes }
        candidate).actions := by
  unfold budgetPass kindPass
  cases hkind : candidate.kind <;> simp [hkind]

theorem copied_single (hsingle : candidates req = [candidate]) (hlock : req.desired.lock = false) :
    candidate.copy ∈ copies (planActions req).actions ↔
      candidate.copy.fileLen.toNat ≤ req.desired.maxCopy.toNat ∧
        req.desired.minFree.toNat + candidate.copy.fileLen.toNat ≤ req.freeBytes.toNat := by
  rw [copies_planActions, copyActions, hlock, if_neg Bool.false_ne_true, hsingle,
    budgetPass_single, ← @refusal_eq_none _ _
      { remainingCopy := req.desired.maxCopy, remainingFree := req.freeBytes }]
  unfold offer
  dsimp only
  split
  · next hrefused => simp [Pass.skip, copies, Action.copied, hrefused]
  · next hfits => simp [Pass.take, copies, Action.copied, hfits]

end Planner

section Bind

variable {disk : Disk} {jobs : List HomeObject} {spec : JobSpec} {free : UInt64}

-- With no bytes bound and none staged, both checks of a bind are about the whole
-- length. A copy budget of zero is no budget there.
theorem bindBudget_alone (hshares : shares jobs = [])
    (hfree : disk.freeBytes spec.libraryRoot = .ok free)
    (hstaged : pullRemainingBytes disk spec = .ok spec.fileLen)
    (hsame : disk.installFits spec = .ok true) :
    Admission.bindBudget disk jobs spec = .ok () ↔
      (0 < spec.maxCopy.toNat → spec.fileLen.toNat ≤ spec.maxCopy.toNat) ∧
        spec.minFree.toNat + spec.fileLen.toNat ≤ free.toNat := by
  have hlen := spec.fileLen.toNat_lt
  have hbudget : pullFits 18446744073709551615 0 spec.maxCopy 0 spec.fileLen = true ↔
      (0 < spec.maxCopy.toNat → spec.fileLen.toNat ≤ spec.maxCopy.toNat) := by
    rw [pullFits_iff]
    have hmax : (18446744073709551615 : UInt64).toNat = 2 ^ 64 - 1 := rfl
    simp only [UInt64.toNat_zero, Nat.zero_add, Nat.add_zero, hmax]
    omega
  have hwatermark : pullFits free spec.minFree 0 0 spec.fileLen = true ↔
      spec.minFree.toNat + spec.fileLen.toNat ≤ free.toNat := by
    rw [pullFits_iff]
    simp only [UInt64.toNat_zero, Nat.zero_add]
    omega
  rw [← hbudget, ← hwatermark]
  have hheld : jobs.filterMap Admission.reservation = [] := hshares
  unfold Admission.bindBudget
  simp only [hheld, List.map_nil, Admission.sumChecked, Admission.reservedDisk, hfree, hstaged,
    hsame]
  cases hcap : pullFits 18446744073709551615 0 spec.maxCopy 0 spec.fileLen <;>
    cases hroom : pullFits free spec.minFree 0 0 spec.fileLen <;>
      simp [bind, Except.bind, pure, Except.pure, Except.mapError, throw, throwThe,
        MonadExceptOf.throw, hcap, hroom]

end Bind

-- A Job for the file of the candidate, the only one on its way, with the limits
-- of the Cluster that the desired state of the request is copied into.
structure BindsAlone (req : PlanRequest) (ds : ConfigState) (fileLen : UInt64) (disk : Disk)
    (jobs : List HomeObject) (spec : JobSpec) : Prop where
  desired : req.desired = ds.toDesiredState
  length : spec.fileLen = fileLen
  maxCopy : spec.maxCopy = (clusterFromConfig ds spec.libraryRoot).maxCopy
  minFree : spec.minFree = (clusterFromConfig ds spec.libraryRoot).minFree
  free : disk.freeBytes spec.libraryRoot = .ok req.freeBytes
  unreserved : shares jobs = []
  unstaged : pullRemainingBytes disk spec = .ok spec.fileLen
  sameDisk : disk.installFits spec = .ok true

-- The planner takes a copy budget of zero to the letter, the bind takes it for
-- none: there, and nowhere else, a file that fits the disk divides them.
theorem plan_agrees_bind {req : PlanRequest} {ds : ConfigState} {candidate : Candidate}
    {disk : Disk} {jobs : List HomeObject} {spec : JobSpec}
    (hsingle : candidates req = [candidate]) (hlock : ds.lock = false)
    (hlen : 0 < candidate.copy.fileLen.toNat)
    (halone : BindsAlone req ds candidate.copy.fileLen disk jobs spec) :
    (candidate.copy ∈ copies (planActions req).actions ↔
        Admission.bindBudget disk jobs spec = .ok ()) ↔
      ¬(ds.maxCopy = 0 ∧
        ds.minFree.toNat + candidate.copy.fileLen.toNat ≤ req.freeBytes.toNat) := by
  have hunlocked : req.desired.lock = false := by rw [halone.desired, hlock]
  rw [copied_single hsingle hunlocked,
    bindBudget_alone halone.unreserved halone.free halone.unstaged halone.sameDisk,
    halone.length, halone.maxCopy, halone.minFree, halone.desired]
  simp only [clusterFromConfig]
  have hzero : ds.maxCopy = 0 ↔ ds.maxCopy.toNat = 0 := by
    rw [← UInt64.toNat_inj, UInt64.toNat_zero]
  rw [hzero]
  omega

end

namespace Sample

-- The request for one movie, under another copy budget.
def budgetReq (maxCopy : UInt64) : @PlanRequest UnicodeTables.ascii :=
  @PlanRequest.mk UnicodeTables.ascii (@PlanRequest.listings UnicodeTables.ascii req)
    (fun _ => some .Movie) [] [] [] { maxCopy, minFree := 20, lock := false, grabber := .None }
    30 false [] [] []

def budgetState (maxCopy : UInt64) : ConfigState :=
  { maxCopy, minFree := 20, lock := false, grabber := .None, rangeLen := 1
    rangeConcurrency := none, paths := [] }

def freeDisk : Disk :=
  { Disk.empty with freeBytes := fun _ => .ok 30, installFits := fun _ => .ok true }

def pullSpec (maxCopy : UInt64) : JobSpec where
  titleId := "movie:tmdb:1".toList
  libraryRoot := "/lib".toList
  destRel := "movies/A.(2000)/A.(2000).mkv".toList
  fileLen := 5
  maxCopy := maxCopy
  minFree := 20

end Sample

-- The file fits a budget of ten, and both sides take it.
theorem plan_agrees_bind_ten :
    let := UnicodeTables.ascii
    ∃ candidate, candidates (Sample.budgetReq 10) = [candidate] ∧
      (candidate.copy ∈ copies (planActions (Sample.budgetReq 10)).actions ↔
        Admission.bindBudget Sample.freeDisk [] (Sample.pullSpec 10) = .ok ()) := by
  intro _
  have hlength : (candidates (Sample.budgetReq 10)).map (fun c => c.copy.fileLen) = [5] := by
    decide +kernel
  obtain ⟨candidate, hsingle, hlen⟩ := List.map_eq_singleton_iff.mp hlength
  have hstaged : pullRemainingBytes Sample.freeDisk (Sample.pullSpec 10) = .ok 5 := by
    decide +kernel
  have hpositive : 0 < candidate.copy.fileLen.toNat := by
    rw [hlen]
    decide
  have halone : BindsAlone (Sample.budgetReq 10) (Sample.budgetState 10) candidate.copy.fileLen
      Sample.freeDisk [] (Sample.pullSpec 10) :=
    ⟨rfl, hlen.symm, rfl, rfl, rfl, rfl, hstaged, rfl⟩
  refine ⟨candidate, hsingle, (plan_agrees_bind hsingle rfl hpositive halone).mpr fun hzero => ?_⟩
  exact absurd hzero.1 (by decide)

-- With a budget of zero the planner skips the file, and a Job for it is bound.
theorem plan_budget_zero :
    let := UnicodeTables.ascii
    ∃ candidate, candidates (Sample.budgetReq 0) = [candidate] ∧
      BindsAlone (Sample.budgetReq 0) (Sample.budgetState 0) candidate.copy.fileLen
        Sample.freeDisk [] (Sample.pullSpec 0) ∧
      candidate.copy ∉ copies (planActions (Sample.budgetReq 0)).actions ∧
      Admission.bindBudget Sample.freeDisk [] (Sample.pullSpec 0) = .ok () := by
  intro _
  have hlength : (candidates (Sample.budgetReq 0)).map (fun c => c.copy.fileLen) = [5] := by
    decide +kernel
  obtain ⟨candidate, hsingle, hlen⟩ := List.map_eq_singleton_iff.mp hlength
  have hstaged : pullRemainingBytes Sample.freeDisk (Sample.pullSpec 0) = .ok 5 := by
    decide +kernel
  refine ⟨candidate, hsingle, ⟨rfl, hlen.symm, rfl, rfl, rfl, rfl, hstaged, rfl⟩, ?_, ?_⟩
  · rw [copied_single hsingle rfl, hlen]
    exact fun h => absurd h.1 (by decide)
  · rw [bindBudget_alone rfl rfl hstaged rfl]
    decide

end Mediaops.Plan
