import Mediaops.Api.JobLifecycle

namespace Mediaops.Api

-- The Jobs of a Sync: who may create them and what stands behind them.

-- The Sync that a Job names lists it as queued, by name, identity and snapshot.
def Authorized (s : Store) (job : HomeObject) (spec : JobSpec) : Prop :=
  ∃ sync status, s.get .Sync spec.syncName = some sync ∧ sync.status = .Sync status ∧
    status.phase = .Scheduled ∧ ∃ entry ∈ status.entries, entry.disposition = .Queued ∧
      entry.jobName = job.metadata.name ∧ entry.jobUid = job.metadata.uid ∧
      ∃ captured, entry.job = some captured ∧
        { captured with nodeName := spec.nodeName, workerKind := spec.workerKind } = spec

def JobsAuthorized (s : Store) : Prop :=
  ∀ job ∈ s.objects, ∀ spec status, job.spec = .Job spec → job.status = .Job status →
    spec.syncName ≠ [] → status.phase.isTerminal = false → Authorized s job spec

-- Authority depends on the Sync of that name only.
theorem Authorized.of_get {s s' : Store} {job : HomeObject} {spec : JobSpec}
    (h : Authorized s job spec)
    (hget : s'.get .Sync spec.syncName = s.get .Sync spec.syncName) : Authorized s' job spec := by
  obtain ⟨sync, status, hsync, hrest⟩ := h
  exact ⟨sync, status, hget.trans hsync, hrest⟩

-- A bind changes the two fields that a snapshot leaves open.
theorem Authorized.bind {s : Store} {job job' : HomeObject} {spec : JobSpec} {node worker : Text}
    (h : Authorized s job spec) (hname : job'.metadata.name = job.metadata.name)
    (huid : job'.metadata.uid = job.metadata.uid) :
    Authorized s job' { spec with nodeName := node, workerKind := worker } := by
  obtain ⟨sync, status, hsync, hstatus, hphase, entry, hentry, hqueued, hn, hu, captured, hcaptured,
    hsame⟩ := h
  refine ⟨sync, status, hsync, hstatus, hphase, entry, hentry, hqueued, hn.trans hname.symm,
    hu.trans huid.symm, captured, hcaptured, ?_⟩
  rw [← hsame]

section

variable [UnicodeTables]

theorem authorized_jobWrite {s : Store} {ev : StoreEvent} (h : JobWrite s ev) (hu : Unsynced ev)
    (hjobs : JobsAuthorized s) (hkept : ev.watch ≠ .Deleted) {spec : JobSpec} {status : JobStatus}
    (hspec : ev.object.spec = .Job spec) (hstatus : ev.object.status = .Job status)
    (hsync : spec.syncName ≠ []) (hopen : status.phase.isTerminal = false) :
    Authorized s ev.object spec := by
  cases h with
  | Created name spec' =>
      have hnot := hu rfl
      rw [hspec] at hnot
      simp [Admission.isSyncJob, hsync] at hnot
  | Reapplied old hold => exact hjobs old hold spec status hspec hstatus hsync hopen
  | Reported old spec' before after hold _ hspec' hbefore _ hadmitted =>
      have hs : old.spec = .Job spec := hspec
      exact hjobs old hold spec before hs hbefore hsync hadmitted.open_
  | Bound old spec' worker status' disk hold _ hspec' hstatus' hadmitted =>
      cases hspec
      have hopen' : status'.phase.isTerminal = false := by
        rw [hadmitted.pending]
        rfl
      exact (hjobs old hold spec' status' hspec' hstatus' hsync hopen').bind rfl rfl
  | Refused old spec' before message =>
      cases hstatus
      cases hopen
  | Deleted old hold => exact absurd rfl hkept

-- No write touches the Sync that stands behind an open Job.
theorem authorizing_kept {s : Store} {ev : StoreEvent} (hs : Store.Sound s) (ht : Typed s)
    (hw : Write s ev) {job : HomeObject} (hjob : job ∈ s.objects) {spec : JobSpec}
    {status : JobStatus} (hspec : job.spec = .Job spec) (hstatus : job.status = .Job status)
    (hopen : status.phase.isTerminal = false) (h : Authorized s job spec) :
    (s.write ev).get .Sync spec.syncName = s.get .Sync spec.syncName := by
  refine Store.get_write_of_ne fun hkey => ?_
  obtain ⟨hkind, hname⟩ := Prod.mk.inj hkey
  obtain ⟨sync, st, hsync, hst, hphase, -⟩ := h
  have hfound : ∀ old ∈ s.objects, old.kind = .Sync →
      old.metadata.name = ev.object.metadata.name → sync = old := by
    intro old hold holdKind holdName
    have hget := hs.get_of_mem hold
    rw [holdKind, holdName, hname, hsync] at hget
    exact Option.some.inj hget
  cases hw.sync hkind with
  | Accepted obj status _ _ habsent =>
      have hname' : obj.metadata.name = spec.syncName := hname
      rw [hname', hsync] at habsent
      cases habsent
  | Planned old before after hold holdKind hbefore hplanned =>
      obtain rfl := hfound old hold holdKind rfl
      rw [hst] at hbefore
      cases hbefore
      exact hplanned hphase
  | Deleted old hold holdKind hover =>
      have hname' : old.metadata.name = spec.syncName := hname
      have hjobKind := Agrees.job_of_spec (ht.agrees job hjob) hspec
      have hmem : job ∈ s.list (some .Job) := mem_list.mpr ⟨hjob, by simp [Store.ofKind, hjobKind]⟩
      have hactive := List.any_eq_false.mp hover job hmem
      simp [Admission.activeOf, hspec, hstatus, hname', hopen] at hactive

theorem jobsAuthorized_write {s : Store} {ev : StoreEvent} (hs : Store.Sound s) (ht : Typed s)
    (hjobs : JobsAuthorized s) (hw : Write s ev) (hu : Unsynced ev) :
    JobsAuthorized (s.write ev) := by
  intro job hjob spec status hspec hstatus hsync hopen
  rcases hs.mem_write hjob with ⟨hkept, rfl⟩ | ⟨hold, -⟩
  · have hkind := Agrees.job_of_spec (hw.typed ht).1 hspec
    have hauthorized := authorized_jobWrite (hw.job hkind) hu hjobs hkept hspec hstatus hsync hopen
    refine hauthorized.of_get (Store.get_write_of_ne fun hkey => ?_)
    rw [HomeObject.key, hkind] at hkey
    cases hkey
  · have hauthorized := hjobs job hold spec status hspec hstatus hsync hopen
    exact hauthorized.of_get (authorizing_kept hs ht hw hold hspec hstatus hopen hauthorized)

-- The Jobs of a commit are old, or are those of its queued entries.
def Queues (entries : List SyncEntry) (syncName : Text) (job : HomeObject) (spec : JobSpec) : Prop :=
  spec.syncName = syncName ∧ ∃ entry ∈ entries, entry.disposition = .Queued ∧
    entry.jobName = job.metadata.name ∧ entry.jobUid = job.metadata.uid ∧ entry.job = some spec

theorem entryRun_jobs {syncName : Text} {s s' : Store} {entry entry' : SyncEntry}
    (hs : Store.Sound s) (h : Store.EntryRun syncName s entry entry' s') {job : HomeObject}
    (hjob : job ∈ s'.objects) {spec : JobSpec} (hspec : job.spec = .Job spec) :
    job ∈ s.objects ∨ Queues [entry'] syncName job spec := by
  cases h with
  | Keep _ => exact .inl hjob
  | Queue spec' s₁ _ hentry hsync _ _ habsent _ htitle =>
      have hs₁ : Store.Sound s₁ ∧ (job ∈ s₁.objects → job ∈ s.objects) := by
        rcases htitle with ⟨-, rfl⟩ | ⟨hnone, rfl⟩
        · exact ⟨hs, id⟩
        · refine ⟨hs.write (.Create (Store.created_scheduledTitle hnone)), fun hmem => ?_⟩
          rcases hs.mem_write hmem with ⟨-, rfl⟩ | ⟨hold, -⟩
          · cases hspec
          · exact hold
      rcases hs₁.1.mem_write hjob with ⟨-, rfl⟩ | ⟨hold, -⟩
      · cases hspec
        exact .inr ⟨hsync, _, List.mem_singleton_self _, rfl, rfl, rfl, hentry⟩
      · exact .inl (hs₁.2 hold)

theorem entriesRun_jobs {syncName : Text} {s s' : Store} {entries entries' : List SyncEntry}
    (hs : Store.Sound s) (ht : Typed s) (h : Store.EntriesRun syncName s entries entries' s')
    {job : HomeObject} (hjob : job ∈ s'.objects) {spec : JobSpec} (hspec : job.spec = .Job spec) :
    job ∈ s.objects ∨ Queues entries' syncName job spec := by
  induction h with
  | Done s => exact .inl hjob
  | @Step s s₁ s' entry entry' rest rest' head tail ih =>
      have hsettled : Settled [] s := ⟨hs, ht, by simp, by simp⟩
      obtain ⟨evs, htrail⟩ := entryRun_trail head
      have hmid := hsettled.trail htrail
      rcases ih hmid.sound hmid.typed hjob with hold | ⟨hname, e, he, hrest⟩
      · rcases entryRun_jobs hs head hold hspec with hold | ⟨hname, e, he, hrest⟩
        · exact .inl hold
        · rw [List.mem_singleton] at he
          exact .inr ⟨hname, e, he ▸ List.mem_cons_self, hrest⟩
      · exact .inr ⟨hname, e, List.mem_cons_of_mem _ he, hrest⟩

theorem jobsAuthorized_schedule {s s' s₁ : Store} {old : HomeObject} {before after : SyncStatus}
    (hs : Store.Sound s) (ht : Typed s) (hjobs : JobsAuthorized s)
    (h : Scheduled s s' old before after s₁) : JobsAuthorized s' := by
  obtain ⟨env, objects, hrun⟩ := h.entries
  obtain ⟨evs, htrail⟩ := entriesRun_trail hrun
  have hmid : Settled [] s₁ := Settled.trail ⟨hs, ht, by simp, by simp⟩ htrail
  obtain rfl := h.final
  have holdGet : s.get .Sync old.metadata.name = some old := h.kind ▸ hs.get_of_mem h.mem
  intro job hjob spec status hspec hstatus hsync hopen
  have hmem : job ∈ s₁.objects := by
    rcases hmid.sound.mem_write hjob with ⟨-, rfl⟩ | ⟨hold, -⟩
    · have hagrees := (ht.agrees old h.mem).1
      have hjobSpec : old.spec = .Job spec := hspec
      rw [hjobSpec, h.kind] at hagrees
      cases hagrees
    · exact hold
  rcases entriesRun_jobs hs ht hrun hmem hspec with hold | ⟨hname, entry, hentry, hqueued, hn, hu, hj⟩
  · -- An open Job of an older Sync: the request being committed was not scheduled yet.
    have hauthorized := hjobs job hold spec status hspec hstatus hsync hopen
    refine hauthorized.of_get ?_
    have hne : old.metadata.name ≠ spec.syncName := by
      intro heq
      obtain ⟨sync, st, hget, hst, hphase, -⟩ := hauthorized
      rw [← heq, holdGet] at hget
      cases hget
      rw [h.status] at hst
      cases hst
      rw [h.captured] at hphase
      cases hphase
    rw [Store.get_write_of_ne, hrun.get_other (by decide) (by decide)]
    exact fun hkey => hne (congrArg Prod.snd hkey)
  · refine ⟨rewritten s₁ { old with status := .Sync after }, after, ?_, rfl, h.phase, entry, hentry,
      hqueued, hn, hu, spec, hj, rfl⟩
    rw [hname]
    generalize hnew : rewritten s₁ { old with status := .Sync after } = new
    have hkind : new.kind = .Sync := by rw [← hnew]; exact h.kind
    have hname' : new.metadata.name = old.metadata.name := by rw [← hnew]; rfl
    rw [← hkind, ← hname']
    exact Store.get_write_self WatchType.noConfusion

theorem Run.jobsAuthorized {s : Store} {past : List Store} (run : Run (s :: past)) :
    JobsAuthorized s := by
  refine Run.invariant (P := JobsAuthorized) (by intro job hjob; cases hjob)
    (fun {past s s'} run hjobs step => ?_) run s List.mem_cons_self
  have hsettled := run.settled
  rcases (run.effect step).cases_unsynced with ⟨evs, htrail⟩ | ⟨old, before, after, s₁, h⟩
  · have hfinal : Store.Sound s' ∧ Typed s' ∧ JobsAuthorized s' := by
      refine htrail.preserves (P := fun s => Store.Sound s ∧ Typed s ∧ JobsAuthorized s) ?_
        ⟨hsettled.sound, hsettled.typed, hjobs⟩
      rintro s ev ⟨hs, ht, hjobs⟩ ⟨hw, hu⟩
      exact ⟨hs.write (hw.change hs), ht.write hs hw, jobsAuthorized_write hs ht hjobs hw hu⟩
    exact hfinal.2.2
  · exact jobsAuthorized_schedule hsettled.sound hsettled.typed hjobs h

-- Writing row by row adds no Job of a Sync.
theorem syncJob_origin {s s' : Store} {evs : List StoreEvent} (hs : Store.Sound s) (ht : Typed s)
    (htrail : Store.Trail (fun s ev => Write s ev ∧ Unsynced ev) s evs s') {job : HomeObject}
    (hjob : job ∈ s'.objects) (hsync : Admission.isSyncJob job.spec = true) :
    ∃ prev ∈ s.objects, prev.kind = .Job ∧ prev.metadata.uid = job.metadata.uid ∧
      Admission.isSyncJob prev.spec = true := by
  induction htrail with
  | Done s =>
      refine ⟨job, hjob, ?_, rfl, hsync⟩
      cases hspec : job.spec with
      | Job spec => exact Agrees.job_of_spec (ht.agrees job hjob) hspec
      | _ =>
          rw [hspec] at hsync
          cases hsync
  | @Write s s' ev evs hev _ ih =>
      obtain ⟨hw, hu⟩ := hev
      obtain ⟨mid, hmid, hkind, huid, hmidSync⟩ :=
        ih (hs.write (hw.change hs)) (ht.write hs hw) hjob
      rcases hs.mem_write hmid with ⟨hkept, rfl⟩ | ⟨hold, -⟩
      · cases hw.job hkind with
        | Created name spec =>
            rw [hu rfl] at hmidSync
            cases hmidSync
        | Reapplied old hold holdKind => exact ⟨old, hold, holdKind, huid, hmidSync⟩
        | Reported old spec before after hold holdKind => exact ⟨old, hold, holdKind, huid, hmidSync⟩
        | Bound old spec worker status disk hold holdKind hspec =>
            exact ⟨old, hold, holdKind, huid, by rw [hspec]; exact hmidSync⟩
        | Refused old spec before message hold holdKind => exact ⟨old, hold, holdKind, huid, hmidSync⟩
        | Deleted old hold => exact absurd rfl hkept
      · exact ⟨mid, hold, hkind, huid, hmidSync⟩

-- In every reachable state the Sync of an open Job vouches for it, and such a Job
-- comes into being by a commit of `schedule_sync` only.
theorem sync_authority {s : Store} {past : List Store} (run : Run (s :: past)) :
    (∀ job ∈ s.objects, ∀ spec status, job.spec = .Job spec → job.status = .Job status →
      spec.syncName ≠ [] → status.phase.isTerminal = false → Authorized s job spec) ∧
    (∀ s', Step (s :: past) s s' → ∀ job ∈ s'.objects, Admission.isSyncJob job.spec = true →
      (∀ prev ∈ s.objects, prev.kind = .Job → prev.metadata.uid ≠ job.metadata.uid) →
        ∃ revision request now obj, s.scheduleSync revision request now = (.ok obj, s')) := by
  refine ⟨run.jobsAuthorized, fun s' step job hjob hsync hnew => ?_⟩
  rcases (run.effect step).cases_unsynced with ⟨evs, htrail⟩ | ⟨old, before, after, s₁, h⟩
  · obtain ⟨prev, hprev, hkind, huid, -⟩ :=
      syncJob_origin run.settled.sound run.settled.typed htrail hjob hsync
    exact absurd huid (hnew prev hprev hkind)
  · exact h.commit

end

-- The Job that the request `evening` queued.
theorem sync_authority_evening :
    let := UnicodeTables.ascii
    ∃ past, Run (Sample.scheduled :: past) ∧
      (∃ job ∈ Sample.scheduled.objects, job.kind = .Job ∧
        Admission.isSyncJob job.spec = true ∧ job.status = .Job {}) ∧
      ∀ job ∈ Sample.scheduled.objects, ∀ spec status, job.spec = .Job spec →
        job.status = .Job status → spec.syncName ≠ [] → status.phase.isTerminal = false →
          Authorized Sample.scheduled job spec := by
  intro _
  obtain ⟨past, run, -⟩ := Sample.scheduled_reaches
  exact ⟨past, run, by decide +kernel, (sync_authority run).1⟩

end Mediaops.Api
