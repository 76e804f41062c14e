import Mediaops.Api.Passes

namespace Mediaops.Api

-- The lifecycle of a Job, over every run of the control plane.

-- What a stored Job satisfies in each phase.
structure JobSound (spec : JobSpec) (status : JobStatus) : Prop where
  active : status.phase = .Pulling ∨ status.phase = .Verifying ∨ status.phase = .Installed →
    spec.nodeName = WorkerKind.Pull.nodeName ∧ 0 < status.startedUnix ∧ 1 ≤ status.attempts
  verified : status.phase = .Verifying ∨ status.phase = .Installed → status.verifiedB3.isSome
  installed : status.phase = .Installed → status.bytesDone = spec.fileLen
  attempts : status.attempts ≤ pullMaxAttempts
  bytes : status.bytesDone ≤ spec.fileLen

def JobsSound (s : Store) : Prop :=
  ∀ job ∈ s.objects, ∀ spec status, job.spec = .Job spec → job.status = .Job status →
    JobSound spec status

-- What may happen to the status of a Job as long as it lives.
structure JobProgress (before after : JobStatus) : Prop where
  attempts : before.attempts ≤ after.attempts
  verified : before.verifiedB3.isSome → after.verifiedB3 = before.verifiedB3
  started : 0 < before.startedUnix → after.startedUnix = before.startedUnix
  terminal : before.phase.isTerminal = true → after = before

namespace JobProgress

theorem refl (status : JobStatus) : JobProgress status status :=
  ⟨UInt32.le_refl _, fun _ => rfl, fun _ => rfl, fun _ => rfl⟩

theorem trans {a b c : JobStatus} (h : JobProgress a b) (h' : JobProgress b c) :
    JobProgress a c := by
  refine ⟨UInt32.le_trans h.attempts h'.attempts, fun hv => ?_, fun hs => ?_, fun ht => ?_⟩
  · have hb := h.verified hv
    rw [← hb] at hv
    exact (h'.verified hv).trans hb
  · have hb := h.started hs
    rw [← hb] at hs
    exact (h'.started hs).trans hb
  · have hb := h.terminal ht
    rw [← hb] at ht
    exact (h'.terminal ht).trans hb

end JobProgress

def Progresses (a b : HomeObject) : Prop :=
  ∀ before, a.status = .Job before → ∃ after, b.status = .Job after ∧ JobProgress before after

theorem Progresses.refl (a : HomeObject) : Progresses a a := fun before h => ⟨before, h, .refl before⟩

theorem Progresses.trans {a b c : HomeObject} (h : Progresses a b) (h' : Progresses b c) :
    Progresses a c := by
  intro before hbefore
  obtain ⟨mid, hmid, hfirst⟩ := h before hbefore
  obtain ⟨after, hafter, hsecond⟩ := h' mid hmid
  exact ⟨after, hafter, hfirst.trans hsecond⟩

-- A row whose kind is not Job has no Job body.
theorem Agrees.job_of_spec {obj : HomeObject} (h : obj.Agrees) {spec : JobSpec}
    (hspec : obj.spec = .Job spec) : obj.kind = .Job := by
  rw [← h.1, hspec]
  rfl

theorem Agrees.job_of_status {obj : HomeObject} (h : obj.Agrees) {status : JobStatus}
    (hstatus : obj.status = .Job status) : obj.kind = .Job := by
  rw [← h.2, hstatus]
  rfl

theorem jobSound_new (spec : JobSpec) : JobSound spec {} := by
  refine ⟨?_, ?_, ?_, by decide, UInt64.le_iff_toNat_le.mpr (Nat.zero_le _)⟩
  · rintro (h | h | h) <;> cases h
  · rintro (h | h) <;> cases h
  · rintro ⟨⟩

section

variable [UnicodeTables]

theorem jobSound_reported {s : Store} {spec : JobSpec} {before after : JobStatus}
    (hstatus : validateStatus (.Job spec) (.Job after) = .ok ())
    (h : Admission.JobAdmitted s spec before after) : JobSound spec after := by
  obtain ⟨hprogress, -⟩ := Checks.ite_ok hstatus
  push Not at hprogress
  refine ⟨fun hphase => ⟨h.bound, (h.active hphase).1, ?_⟩, fun hphase => ?_,
    fun hphase => (h.installed hphase).2, UInt32.not_lt.mp hprogress.1,
    UInt64.not_lt.mp hprogress.2.1⟩
  · have hne := (h.active hphase).2
    rw [UInt32.le_iff_toNat_le]
    have hnat : after.attempts.toNat ≠ 0 := fun e => hne (UInt32.toNat_inj.mp e)
    change 1 ≤ after.attempts.toNat
    omega
  · exact Option.isSome_iff_ne_none.mpr (h.proof hphase)

-- Every write of a Job keeps its rules.
theorem jobSound_write {s : Store} {ev : StoreEvent} (h : JobWrite s ev) (hjobs : JobsSound s)
    {spec : JobSpec} {status : JobStatus} (hspec : ev.object.spec = .Job spec)
    (hstatus : ev.object.status = .Job status) : JobSound spec status := by
  cases h with
  | Created name spec' =>
      cases hspec
      cases hstatus
      exact jobSound_new spec
  | Reapplied old hold => exact hjobs old hold spec status hspec hstatus
  | Reported old spec' before after hold hkind hspec' hbefore hvalid hadmitted =>
      cases hstatus
      have hs : old.spec = .Job spec := hspec
      rw [hspec'] at hs
      cases hs
      refine jobSound_reported ?_ hadmitted
      simpa only [hspec'] using hvalid.status
  | Bound old spec' worker status' disk hold hkind hspec' hstatus' hadmitted =>
      cases hspec
      have hs : old.status = .Job status := hstatus
      have hbefore := hjobs old hold spec' status hspec' hs
      rw [hstatus'] at hs
      cases hs
      have hpending := hadmitted.pending
      refine ⟨fun hphase => ?_, fun hphase => ?_, fun hphase => ?_, hbefore.attempts, hbefore.bytes⟩
      · simp [hpending] at hphase
      · simp [hpending] at hphase
      · simp [hpending] at hphase
  | Refused old spec' before message hold hkind hspec' hbefore hnode hphase =>
      cases hstatus
      have hs : old.spec = .Job spec := hspec
      have hsound := hjobs old hold spec before hs hbefore
      refine ⟨?_, ?_, ?_, hsound.attempts, hsound.bytes⟩
      · rintro (h | h | h) <;> cases h
      · rintro (h | h) <;> cases h
      · rintro ⟨⟩
  | Deleted old hold => exact hjobs old hold spec status hspec hstatus

theorem jobsSound_write {s : Store} {ev : StoreEvent} (hs : Store.Sound s) (ht : Typed s)
    (hjobs : JobsSound s) (hw : Write s ev) : JobsSound (s.write ev) := by
  intro job hjob spec status hspec hstatus
  rcases hs.mem_write hjob with ⟨-, rfl⟩ | ⟨hold, -⟩
  · have hkind := Agrees.job_of_spec (hw.typed ht).1 hspec
    exact jobSound_write (hw.job hkind) hjobs hspec hstatus
  · exact hjobs job hold spec status hspec hstatus

-- Every stored Job went through validation, and a bind leaves what it checked.
def JobsValid (s : Store) : Prop :=
  ∀ job ∈ s.objects, ∀ spec, job.spec = .Job spec → spec.Valid

theorem jobsValid_write {s : Store} {ev : StoreEvent} (hs : Store.Sound s) (ht : Typed s)
    (hjobs : JobsValid s) (hw : Write s ev) : JobsValid (s.write ev) := by
  intro job hjob spec hspec
  rcases hs.mem_write hjob with ⟨-, rfl⟩ | ⟨hold, -⟩
  · cases hw.job (Agrees.job_of_spec (hw.typed ht).1 hspec) with
    | Created name spec' habsent hvalid =>
        cases hspec
        exact validateJob_ok hvalid.spec
    | Reapplied old hold => exact hjobs old hold spec hspec
    | Reported old spec' before after hold => exact hjobs old hold spec hspec
    | Bound old spec' worker status disk hold hkind hspec' =>
        cases hspec
        have hold := hjobs old hold spec' hspec'
        exact ⟨hold.placement, hold.root, hold.nonempty⟩
    | Refused old spec' before message hold => exact hjobs old hold spec hspec
    | Deleted old hold => exact hjobs old hold spec hspec
  · exact hjobs job hold spec hspec

theorem Run.jobsValid {s : Store} {past : List Store} (run : Run (s :: past)) : JobsValid s :=
  run.trail_invariant (P := JobsValid) (by intro job hjob; cases hjob)
    fun _ _ hs ht hjobs hw => jobsValid_write hs ht hjobs hw

-- Every rewrite of a Job moves its status forward.
theorem progresses_write {s : Store} {ev : StoreEvent} (hs : Store.Sound s) (ht : Typed s)
    (hw : Write s ev) (hmodified : ev.watch = .Modified) {prev : HomeObject}
    (hprev : prev ∈ s.objects) (hkey : prev.key = ev.object.key) : Progresses prev ev.object := by
  intro before hbefore
  have hkind : ev.object.kind = .Job :=
    (congrArg Prod.fst hkey).symm.trans (Agrees.job_of_status (ht.agrees prev hprev) hbefore)
  obtain ⟨after, hafter⟩ := statusOf_job (hw.typed ht).1 hkind
  refine ⟨after, hafter, ?_⟩
  have hsame : ∀ old ∈ s.objects, old.key = ev.object.key → prev = old := fun old hold hk =>
    Table.eq_of_key_eq hs.keyed hprev hold (hkey.trans hk.symm)
  cases hw.job hkind with
  | Created name spec => cases hmodified
  | Reapplied old hold =>
      obtain rfl := hsame old hold rfl
      have he : prev.status = .Job after := hafter
      rw [hbefore] at he
      cases he
      exact .refl before
  | Reported old spec before' after' hold _ _ hstatus _ hadmitted =>
      obtain rfl := hsame old hold rfl
      rw [hbefore] at hstatus
      cases hstatus
      cases hafter
      refine ⟨hadmitted.attempts, hadmitted.verified, hadmitted.started, fun hterminal => ?_⟩
      rw [hadmitted.open_] at hterminal
      cases hterminal
  | Bound old spec worker status disk hold _ _ hstatus =>
      obtain rfl := hsame old hold rfl
      have he : prev.status = .Job after := hafter
      rw [hbefore] at he
      cases he
      exact .refl before
  | Refused old spec before' message hold _ _ hstatus _ hphase =>
      obtain rfl := hsame old hold rfl
      rw [hbefore] at hstatus
      cases hstatus
      cases hafter
      refine ⟨UInt32.le_refl _, fun _ => rfl, fun _ => rfl, fun hterminal => ?_⟩
      rw [hphase] at hterminal
      cases hterminal
  | Deleted old hold => cases hmodified

theorem Run.jobsSound {s : Store} {past : List Store} (run : Run (s :: past)) : JobsSound s :=
  run.trail_invariant (P := JobsSound) (by intro job hjob; cases hjob)
    fun _ _ hs ht hjobs hw => jobsSound_write hs ht hjobs hw

-- The rules of a Job hold in every reachable state, and between any two states
-- of a run a Job of one identity only moves forward.
theorem job_lifecycle {s : Store} {past : List Store} (run : Run (s :: past)) :
    (∀ job ∈ s.objects, job.kind = .Job → ∃ spec status, job.spec = .Job spec ∧
      job.status = .Job status ∧ JobSound spec status) ∧
    (∀ view ∈ s :: past, ∀ a ∈ view.objects, ∀ b ∈ s.objects, a.kind = .Job → b.kind = .Job →
      a.metadata.uid = b.metadata.uid → ∃ before after, a.status = .Job before ∧
        b.status = .Job after ∧ JobProgress before after) := by
  have htyped := run.settled.typed
  constructor
  · intro job hjob hkind
    obtain ⟨spec, hspec⟩ := specOf_job (htyped.agrees job hjob) hkind
    obtain ⟨status, hstatus⟩ := statusOf_job (htyped.agrees job hjob) hkind
    exact ⟨spec, status, hspec, hstatus, run.jobsSound job hjob spec status hspec hstatus⟩
  · intro view hview a ha b hb hka hkb huid
    have hfollows := run.follows (R := Progresses) .refl .trans
      (fun _ _ hs ht hw hm _ hold hkey => progresses_write hs ht hw hm hold hkey)
      hview ha hb (hka.trans hkb.symm) huid
    obtain ⟨before, hbefore⟩ := statusOf_job (run.typed_of_mem hview |>.agrees a ha) hka
    obtain ⟨after, hafter, hprogress⟩ := hfollows before hbefore
    exact ⟨before, after, hbefore, hafter, hprogress⟩

end

-- A film goes through every phase to its installed file.
theorem job_lifecycle_installed :
    let := UnicodeTables.ascii
    ∃ past, Run (Sample.installed :: past) ∧
      (∃ job ∈ Sample.installed.objects, job.kind = .Job ∧ job.status = .Job { Sample.pulling with
        phase := .Installed, verifiedB3 := some Sample.digest, bytesDone := 5 }) ∧
      ∀ job ∈ Sample.installed.objects, job.kind = .Job → ∃ spec status, job.spec = .Job spec ∧
        job.status = .Job status ∧ JobSound spec status := by
  intro _
  obtain ⟨past, run, -⟩ := Sample.installed_reaches
  exact ⟨past, run, by decide +kernel, (job_lifecycle run).1⟩

end Mediaops.Api
