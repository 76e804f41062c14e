import Mediaops.Api.Admission
import Mediaops.Library.Checks

namespace Mediaops

-- What a request that was admitted is known to satisfy.

variable [UnicodeTables]

structure HomeObject.Valid (obj : HomeObject) : Prop where
  version : obj.apiVersion = homeApiVersion
  agrees : obj.Agrees
  name : obj.metadata.name ≠ []
  spec : validateSpec obj.metadata.name obj.spec = .ok ()
  status : validateStatus obj.spec obj.status = .ok ()

theorem HomeObject.validate_ok {obj : HomeObject} (h : obj.validate = .ok ()) : obj.Valid := by
  unfold HomeObject.validate at h
  obtain ⟨hbody, h₁⟩ := Checks.guard_ok h
  obtain ⟨hmeta, h₂⟩ := Checks.guard_ok h₁
  obtain ⟨hspec, hstatus⟩ := Checks.seq_ok h₂
  push Not at hbody hmeta
  exact ⟨hbody.1, ⟨hbody.2.1, hbody.2.2⟩, hmeta.1, hspec, hstatus⟩

-- What a bind leaves of the rules for a Job.
structure JobSpec.Valid (spec : JobSpec) : Prop where
  placement : ∃ id, TitleId.parse spec.titleId = .ok id ∧ validatePlacement id spec.destRel = .ok ()
  root : absolutePath spec.libraryRoot = .ok ()
  nonempty : spec.fileLen ≠ 0

theorem validateJob_ok {spec : JobSpec} (h : validateJob spec = .ok ()) : spec.Valid := by
  obtain ⟨id, hid, h₁⟩ := Checks.bind_ok h
  obtain ⟨-, h₂⟩ := Checks.seq_ok h₁
  obtain ⟨hroot, h₃⟩ := Checks.seq_ok h₂
  obtain ⟨-, h₄⟩ := Checks.seq_ok h₃
  obtain ⟨hplacement, h₅⟩ := Checks.seq_ok h₄
  have hguard := (Checks.ite_ok h₅).1
  push Not at hguard
  exact ⟨⟨id, Checks.mapError_ok hid, hplacement⟩, hroot, hguard.1⟩

namespace Admission

omit [UnicodeTables] in
theorem current_ok {s : Store} {obj old : HomeObject} (h : current s obj = .ok old) :
    s.get obj.kind obj.metadata.name = some old ∧
      old.metadata.resourceVersion = obj.metadata.resourceVersion := by
  unfold current at h
  split at h
  · cases h
  · next found hfound =>
      obtain ⟨hrv, h⟩ := Checks.ite_ok h
      cases h
      exact ⟨hfound, not_not.mp hrv⟩

theorem validateApply_valid {disk : Disk} {s : Store} {actor : Actor} {obj : HomeObject}
    {verifyDisk : Bool} (h : validateApply disk s actor obj verifyDisk = .ok ()) : obj.Valid :=
  HomeObject.validate_ok (Checks.seq_ok h).1

structure ReapplyAdmitted (s : Store) (obj old : HomeObject) : Prop where
  revision : obj.metadata.resourceVersion = old.metadata.resourceVersion
  job : obj.kind = .Job → obj.spec = old.spec
  hold : obj.kind = .Hold → obj.spec = old.spec
  root : validateRootChange s old.spec obj.spec = .ok ()

theorem validateApply_some {disk : Disk} {s : Store} {actor : Actor} {obj old : HomeObject}
    {verifyDisk : Bool} (h : validateApply disk s actor obj verifyDisk = .ok ())
    (hold : s.get obj.kind obj.metadata.name = some old) : ReapplyAdmitted s obj old := by
  have h₁ := (Checks.seq_ok (Checks.seq_ok h).2).2
  rw [hold] at h₁
  obtain ⟨hroot, h₂⟩ := Checks.seq_ok h₁
  obtain ⟨hrv, h₃⟩ := Checks.guard_ok h₂
  obtain ⟨hjob, h₄⟩ := Checks.guard_ok h₃
  obtain ⟨hhold, -⟩ := Checks.guard_ok h₄
  push Not at hrv hjob hhold
  exact ⟨hrv, hjob, hhold, hroot⟩

theorem validateApply_none {disk : Disk} {s : Store} {actor : Actor} {obj : HomeObject}
    {verifyDisk : Bool} (h : validateApply disk s actor obj verifyDisk = .ok ())
    (habsent : s.get obj.kind obj.metadata.name = none) :
    isSyncJob obj.spec = false ∧ validateInitial disk s actor obj verifyDisk = .ok () := by
  have h₁ := (Checks.seq_ok (Checks.seq_ok h).2).2
  rw [habsent] at h₁
  obtain ⟨hsync, h₂⟩ := Checks.guard_ok h₁
  obtain ⟨-, h₃⟩ := Checks.guard_ok h₂
  obtain ⟨-, h₄⟩ := Checks.guard_ok h₃
  exact ⟨by simpa using hsync, h₄⟩

-- A new Job is unbound and has not started.
omit [UnicodeTables] in
theorem validateInitial_job {disk : Disk} {s : Store} {actor : Actor} {obj : HomeObject}
    {spec : JobSpec} {verifyDisk : Bool} (hspec : obj.spec = .Job spec)
    (h : validateInitial disk s actor obj verifyDisk = .ok ()) :
    spec.nodeName = [] ∧ obj.status = StatusBody.empty obj.kind := by
  unfold validateInitial at h
  rw [hspec] at h
  obtain ⟨hnode, h₁⟩ := Checks.ite_ok h
  obtain ⟨hstatus, -⟩ := Checks.ite_ok h₁
  exact ⟨not_not.mp hnode, not_not.mp hstatus⟩

-- The rules of a worker's status update.
structure JobAdmitted (s : Store) (spec : JobSpec) (before after : JobStatus) : Prop where
  bound : spec.nodeName = WorkerKind.Pull.nodeName
  open_ : before.phase.isTerminal = false
  attempts : before.attempts ≤ after.attempts
  started : 0 < before.startedUnix → after.startedUnix = before.startedUnix
  verified : before.verifiedB3.isSome → after.verifiedB3 = before.verifiedB3
  transition : before.phase = after.phase ∨ phaseTransition before.phase after.phase = true
  active : after.phase = .Pulling ∨ after.phase = .Verifying ∨ after.phase = .Installed →
    0 < after.startedUnix ∧ after.attempts ≠ 0
  proof : after.phase = .Verifying ∨ after.phase = .Installed → after.verifiedB3 ≠ none
  installed : after.phase = .Installed → titleProves s spec after = true ∧
    after.bytesDone = spec.fileLen

omit [UnicodeTables] in
theorem validateJobStatus_ok {s : Store} {actor : Actor} {spec : JobSpec}
    {before after : JobStatus} (h : validateJobStatus s actor spec before after = .ok ()) :
    JobAdmitted s spec before after := by
  unfold validateJobStatus at h
  obtain ⟨hbound, h₁⟩ := Checks.guard_ok h
  obtain ⟨hopen, h₂⟩ := Checks.guard_ok h₁
  obtain ⟨hkept, h₃⟩ := Checks.guard_ok h₂
  obtain ⟨htransition, h₄⟩ := Checks.guard_ok h₃
  obtain ⟨hactive, h₅⟩ := Checks.guard_ok h₄
  obtain ⟨hproof, h₆⟩ := Checks.guard_ok h₅
  have hinstalled := (Checks.ite_ok h₆).1
  push Not at hbound hkept hactive hproof hinstalled
  refine ⟨hbound.1, by simpa using hopen, UInt32.not_lt.mp hkept.1, hkept.2.2.1, ?_, not_not.mp htransition, ?_,
    hproof, ?_⟩
  · intro hsome
    exact hkept.2.2.2 hsome
  · intro hphase
    exact hactive hphase
  · intro hphase
    simpa using hinstalled hphase

-- No proof of the old Title is missing from the new one.
omit [UnicodeTables] in
theorem verifyTitle_keeps {disk : Disk} {s : Store} {actor : Actor} {obj old : HomeObject}
    {verifyDisk : Bool} (h : verifyTitle disk s actor obj (some old) verifyDisk = .ok ())
    {file : TitleFileStatus} (hfile : file ∈ observedFilesOf old) :
    ∃ kept ∈ observedFilesOf obj, kept.path = file.path ∧ kept.installB3 = file.installB3 := by
  unfold verifyTitle at h
  split at h
  · next spec status hspec hstatus =>
      obtain ⟨-, h₁⟩ := Checks.guard_ok h
      obtain ⟨hall, -⟩ := Checks.guard_ok h₁
      have hkeeps : ∀ previous ∈ observedFilesOf old, keepsProof status.observedFiles previous := by
        simpa [List.all_eq_true] using hall
      obtain ⟨kept, hkept, hsame⟩ := List.any_eq_true.mp (hkeeps file hfile)
      rw [Bool.and_eq_true, decide_eq_true_eq, decide_eq_true_eq] at hsame
      exact ⟨kept, by simpa [observedFilesOf, hstatus] using hkept, hsame.1, hsame.2⟩
  · cases h

-- What the admission of a status update says for the kinds with a lifecycle.
theorem validateStatusPatch_valid {disk : Disk} {s : Store} {actor : Actor} {old : HomeObject}
    {status : StatusBody} {verifyDisk : Bool}
    (h : validateStatusPatch disk s actor old status verifyDisk = .ok ()) :
    HomeObject.Valid { old with status } :=
  HomeObject.validate_ok (Checks.seq_ok h).1

theorem validateStatusPatch_job {disk : Disk} {s : Store} {actor : Actor} {old : HomeObject}
    {spec : JobSpec} {before after : JobStatus} {verifyDisk : Bool}
    (h : validateStatusPatch disk s actor old (.Job after) verifyDisk = .ok ())
    (hspec : old.spec = .Job spec) (hstatus : old.status = .Job before) :
    JobAdmitted s spec before after := by
  have h₁ := (Checks.seq_ok (Checks.seq_ok h).2).2
  obtain ⟨-, h₂⟩ := Checks.guard_ok h₁
  rw [hspec, hstatus] at h₂
  exact validateJobStatus_ok h₂

theorem validateStatusPatch_title {disk : Disk} {s : Store} {actor : Actor} {old : HomeObject}
    {spec : TitleSpec} {status : StatusBody} {verifyDisk : Bool}
    (h : validateStatusPatch disk s actor old status verifyDisk = .ok ())
    (hspec : old.spec = .Title spec) {file : TitleFileStatus} (hfile : file ∈ observedFilesOf old) :
    ∃ kept ∈ observedFilesOf { old with status },
      kept.path = file.path ∧ kept.installB3 = file.installB3 := by
  have h₁ := (Checks.seq_ok (Checks.seq_ok h).2).2
  obtain ⟨-, h₂⟩ := Checks.guard_ok h₁
  rw [hspec] at h₂
  exact verifyTitle_keeps h₂ hfile

-- The rules of a bind.
structure BindAdmitted (disk : Disk) (s : Store) (before patch : JobSpec) (status : JobStatus) :
    Prop where
  pending : status.phase = .Pending
  unbound : before.nodeName = []
  node : patch.nodeName = WorkerKind.Pull.nodeName
  worker : patch.workerKind = WorkerKind.Pull.asStr
  cluster : clusterAllows before.libraryRoot ((s.get .Cluster clusterName).map HomeObject.spec) =
    true
  authorized : ∃ now, authorizationRefusal (s.snapshot none).1 before now = none
  budget : bindBudget disk (s.list (some .Job)) before = .ok ()

theorem validateBind_ok {env : Env} {s : Store} {old : HomeObject} {patch : Spec}
    (h : validateBind env s old patch = .ok ()) :
    ∃ before worker status, old.spec = .Job before ∧ patch = .Job worker ∧
      old.status = .Job status ∧ BindAdmitted env.disk s before worker status := by
  unfold validateBind at h
  split at h
  · next before worker status hspec hstatus =>
      obtain ⟨hguard, h₁⟩ := Checks.guard_ok h
      obtain ⟨hcluster, h₂⟩ := Checks.guard_ok h₁
      push Not at hguard
      dsimp only at h₂
      split at h₂
      · cases h₂
      · split at h₂
        · cases h₂
        · next hauthorized =>
            exact ⟨before, worker, status, hspec, rfl, hstatus, hguard.1, hguard.2.1, hguard.2.2.1,
              hguard.2.2.2, by simpa using hcluster, ⟨env.now, hauthorized⟩,
              (Checks.guard_ok h₂).2⟩
  · cases h

section Guards

omit [UnicodeTables]

theorem refuseActiveHoldChange_ok {s : Store} {name : Text}
    (h : refuseActiveHoldChange s name = .ok ()) :
    (s.list (some .Job)).any (boundTo name) = false := by
  simpa using (Checks.ite_ok h).1

theorem validateRootChange_ok {s : Store} {before after : ClusterSpec}
    (h : validateRootChange s (.Cluster before) (.Cluster after) = .ok ()) :
    before.libraryRoot = after.libraryRoot ∨
      (s.list (some .Job)).any (activeUnder after.libraryRoot) = false := by
  have hguard := (Checks.ite_ok h).1
  by_cases hsame : before.libraryRoot = after.libraryRoot
  · exact .inl hsame
  · exact .inr (by simpa [hsame] using hguard)

-- Deleting a Hold or a Sync needs its Jobs over, deleting anything needs it unreserved.
structure DeleteAdmitted (s : Store) (kind : Kind) (name : Text) : Prop where
  hold : kind = .Hold → (s.list (some .Job)).any (boundTo name) = false
  sync : ¬(kind = .Sync ∧ (s.list (some .Job)).any (activeOf name) = true)
  free : ∀ obj, s.get kind name = some obj → reservation obj = none

theorem validateDelete_ok {s : Store} {kind : Kind} {name : Text}
    (h : validateDelete s kind name = .ok ()) : DeleteAdmitted s kind name := by
  unfold validateDelete at h
  obtain ⟨hhold, h₁⟩ := Checks.when_ok h
  obtain ⟨hsync, h₂⟩ := Checks.guard_ok h₁
  have hreserved := (Checks.ite_ok h₂).1
  refine ⟨fun hkind => refuseActiveHoldChange_ok (hhold hkind), hsync, fun obj hobj => ?_⟩
  simpa [hobj] using hreserved

end Guards

-- The Hold whose decision a bind rests on.
def approves : Spec → Bool
  | .Hold spec => spec.decision = .Approved
  | _ => false

-- A Hold loses its approval, and the Cluster its root, only while no Job needs it.
structure SpecAdmitted (s : Store) (old : HomeObject) (spec : Spec) : Prop where
  valid : HomeObject.Valid { old with spec }
  root : validateRootChange s old.spec spec = .ok ()
  hold : approves old.spec = true → approves spec = true ∨
    (s.list (some .Job)).any (boundTo old.metadata.name) = false

theorem validateSpecPatch_ok {env : Env} {s : Store} {old : HomeObject} {spec : Spec}
    (hagrees : old.Agrees) (h : validateSpecPatch env s old spec = .ok ()) :
    SpecAdmitted s old spec := by
  obtain ⟨hvalidate, h₁⟩ := Checks.seq_ok h
  obtain ⟨hroot, h₂⟩ := Checks.seq_ok h₁
  have hvalid := HomeObject.validate_ok hvalidate
  refine ⟨hvalid, hroot, fun happroved => ?_⟩
  have hkinds : spec.kind = old.spec.kind := hvalid.agrees.1.trans hagrees.1.symm
  cases hold : old.spec with
  | Hold before =>
      rw [hold] at h₂ hkinds happroved
      cases hspec : spec with
      | Hold after =>
          rw [hspec] at h₂
          have hdecision : before.decision = .Approved := by simpa [approves] using happroved
          obtain ⟨-, h₃⟩ := Checks.guard_ok h₂
          obtain ⟨hrefuse, -⟩ := Checks.when_ok h₃
          by_cases hafter : after.decision = .Approved
          · exact .inl (by simpa [approves] using hafter)
          · refine .inr (refuseActiveHoldChange_ok (hrefuse ⟨hdecision, ?_⟩))
            rwa [hdecision]
      | _ =>
          rw [hspec] at hkinds
          cases hkinds
  | _ =>
      rw [hold] at happroved
      cases happroved

end Admission

end Mediaops
