import Mediaops.Api.Admission.Theorems
import Mediaops.Api.Run
import Mediaops.Store.Revisions

namespace Mediaops.Api

-- What a step can do to the store. Every later result splits on the cases here
-- and never looks at the handlers again.

-- Stored rows are of one API version and their bodies are of their kind.
structure Typed (s : Store) : Prop where
  agrees : ∀ obj ∈ s.objects, obj.Agrees
  version : ∀ obj ∈ s.objects, obj.apiVersion = homeApiVersion

-- A row rewritten under the next revision.
def rewritten (s : Store) (obj : HomeObject) : HomeObject :=
  { obj with metadata := { obj.metadata with resourceVersion := s.rv + 1 } }

-- What a bind makes of a Job.
def boundSpec (spec : JobSpec) : JobSpec :=
  { spec with nodeName := WorkerKind.Pull.nodeName, workerKind := WorkerKind.Pull.asStr }

def boundRow (s : Store) (old : HomeObject) (spec : JobSpec) : HomeObject :=
  rewritten s { old with
    spec := .Job (boundSpec spec)
    metadata := { old.metadata with generation := old.metadata.generation + 1 } }

theorem boundSpec_ne {spec : JobSpec} (hnode : spec.nodeName = []) :
    Spec.Job (boundSpec spec) ≠ .Job spec := by
  intro e
  have hsame : WorkerKind.Pull.nodeName = spec.nodeName :=
    congrArg JobSpec.nodeName (Spec.Job.inj e)
  rw [hnode] at hsame
  exact absurd hsame (by decide)

def isLifecycle (kind : Kind) : Bool := kind = .Job || kind = .Title || kind = .Sync

-- The store operations, seen from a well-typed store.

section Operations

variable {s : Store}

theorem patchStatus_ok (ht : Typed s) {kind : Kind} {name : Text} {status : StatusBody} {rv : Int}
    {obj : HomeObject} {s' : Store} (h : s.patchStatus kind name status rv = (.ok obj, s')) :
    ∃ old, s.get kind name = some old ∧ old.metadata.resourceVersion = rv ∧
      s' = s.write ⟨.Modified, rewritten s { old with status }⟩ := by
  have hy := Store.transaction_ok (Store.quiet_patchStatusTx _ _ _ _) h
  obtain ⟨old, hold, hrv, rfl, rfl⟩ := Store.yields_patchStatusTx hy
  have hrow := ht.version old (Store.get_mem hold)
  refine ⟨old, hold, hrv.symm, ?_⟩
  simp only [HomeObject.row, rewritten, hrow]

theorem patchStatus_cases (ht : Typed s) (kind : Kind) (name : Text) (status : StatusBody)
    (rv : Int) : (s.patchStatus kind name status rv).2 = s ∨
      ∃ old, s.get kind name = some old ∧ old.metadata.resourceVersion = rv ∧
        (s.patchStatus kind name status rv).2 =
          s.write ⟨.Modified, rewritten s { old with status }⟩ := by
  cases hres : s.patchStatus kind name status rv with
  | mk result s' =>
      cases result with
      | error e => exact .inl (Store.transaction_error (Store.quiet_patchStatusTx _ _ _ _) hres)
      | ok obj => exact .inr (patchStatus_ok ht hres)

-- The row a spec patch leaves.
def respecified (s : Store) (old : HomeObject) (spec : Spec) : HomeObject :=
  rewritten s { old with
    spec
    metadata := { old.metadata with
      generation := if spec = old.spec then old.metadata.generation
        else old.metadata.generation + 1 } }

theorem patchSpec_ok (ht : Typed s) {kind : Kind} {name : Text} {spec : Spec} {rv : Int}
    {obj : HomeObject} {s' : Store} (h : s.patchSpec kind name spec rv = (.ok obj, s')) :
    ∃ old, s.get kind name = some old ∧ old.metadata.resourceVersion = rv ∧
      s' = s.write ⟨.Modified, respecified s old spec⟩ := by
  have hy := Store.transaction_ok (Store.quiet_patchSpecTx _ _ _ _) h
  obtain ⟨old, hold, hrv, rfl, rfl⟩ := Store.yields_patchSpecTx hy
  have hrow := ht.version old (Store.get_mem hold)
  refine ⟨old, hold, hrv.symm, ?_⟩
  simp only [HomeObject.row, respecified, rewritten, hrow, ne_eq, ite_not, eq_comm]

theorem patchSpec_cases (ht : Typed s) (kind : Kind) (name : Text) (spec : Spec) (rv : Int) :
    (s.patchSpec kind name spec rv).2 = s ∨
      ∃ old, s.get kind name = some old ∧ old.metadata.resourceVersion = rv ∧
        (s.patchSpec kind name spec rv).2 = s.write ⟨.Modified, respecified s old spec⟩ := by
  cases hres : s.patchSpec kind name spec rv with
  | mk result s' =>
      cases result with
      | error e => exact .inl (Store.transaction_error (Store.quiet_patchSpecTx _ _ _ _) hres)
      | ok obj => exact .inr (patchSpec_ok ht hres)

theorem delete_ok (ht : Typed s) {kind : Kind} {name : Text} {rv : Int} {obj : HomeObject}
    {s' : Store} (h : s.delete kind name rv = (.ok obj, s')) :
    ∃ old, s.get kind name = some old ∧ old.metadata.resourceVersion = rv ∧
      s' = s.write ⟨.Deleted, rewritten s old⟩ := by
  have hy := Store.transaction_ok (Store.quiet_deleteTx _ _ _) h
  obtain ⟨old, hold, hrv, rfl, rfl⟩ := Store.yields_deleteTx hy
  have hrow := ht.version old (Store.get_mem hold)
  refine ⟨old, hold, hrv.symm, ?_⟩
  simp only [HomeObject.row, rewritten, hrow]

theorem delete_cases (ht : Typed s) (kind : Kind) (name : Text) (rv : Int) :
    (s.delete kind name rv).2 = s ∨
      ∃ old, s.get kind name = some old ∧ old.metadata.resourceVersion = rv ∧
        (s.delete kind name rv).2 = s.write ⟨.Deleted, rewritten s old⟩ := by
  cases hres : s.delete kind name rv with
  | mk result s' =>
      cases result with
      | error e => exact .inl (Store.transaction_error (Store.quiet_deleteTx _ _ _) hres)
      | ok obj => exact .inr (delete_ok ht hres)

-- The object an apply leaves under an existing name, and under a free one.
def reapplied (s : Store) (obj old : HomeObject) : HomeObject :=
  { apiVersion := homeApiVersion
    kind := obj.kind
    metadata := { obj.metadata with
      generation := if obj.spec = old.spec then old.metadata.generation
        else old.metadata.generation + 1
      uid := old.metadata.uid
      resourceVersion := s.rv + 1 }
    spec := obj.spec
    status := if obj.spec.isStatusOnly then obj.status else old.status }

def freshlyApplied (s : Store) (obj : HomeObject) : HomeObject :=
  { apiVersion := homeApiVersion
    kind := obj.kind
    metadata := { obj.metadata with
      generation := 1, uid := uidOf obj.kind (s.rv + 1), resourceVersion := s.rv + 1 }
    spec := obj.spec
    status := if obj.kind = .Want then StatusBody.empty .Want else obj.status }

theorem apply_ok (hs : Store.Sound s) {obj : HomeObject} (hname : obj.metadata.name ≠ [])
    {written : HomeObject × WatchType} {s' : Store} (h : s.apply obj = (.ok written, s')) :
    (∃ old, s.get obj.kind obj.metadata.name = some old ∧
      obj.metadata.resourceVersion = old.metadata.resourceVersion ∧
      s' = s.write ⟨.Modified, reapplied s obj old⟩) ∨
    (s.get obj.kind obj.metadata.name = none ∧ s' = s.write ⟨.Added, freshlyApplied s obj⟩) := by
  obtain ⟨object, watch⟩ := written
  have hy := Store.transaction_ok (Store.quiet_applyTx _) h
  obtain ⟨name, made, rfl, hover, rfl, rfl⟩ := Store.yields_applyTx hy
  rw [if_neg hname] at hover
  cases hget : s.get obj.kind obj.metadata.name with
  | none =>
      rw [hget] at hover
      obtain ⟨rfl, -, -, rfl⟩ := Store.applyOver_none hover
      exact .inr ⟨rfl, rfl⟩
  | some old =>
      rw [hget] at hover
      obtain ⟨rfl, hrv, rfl⟩ := Store.applyOver_some hover
      have huid := hs.uid_ne_nil (Store.get_mem hget)
      refine .inl ⟨old, rfl, hrv, ?_⟩
      simp only [HomeObject.row, reapplied, if_neg huid, ne_eq, ite_not]

theorem apply_cases (hs : Store.Sound s) (obj : HomeObject) (hname : obj.metadata.name ≠ []) :
    (s.apply obj).2 = s ∨
      (∃ old, s.get obj.kind obj.metadata.name = some old ∧
        obj.metadata.resourceVersion = old.metadata.resourceVersion ∧
        (s.apply obj).2 = s.write ⟨.Modified, reapplied s obj old⟩) ∨
      (s.get obj.kind obj.metadata.name = none ∧
        (s.apply obj).2 = s.write ⟨.Added, freshlyApplied s obj⟩) := by
  cases hres : s.apply obj with
  | mk result s' =>
      cases result with
      | error e => exact .inl (Store.transaction_error (Store.quiet_applyTx _) hres)
      | ok written => exact .inr (apply_ok hs hname hres)

end Operations

variable [UnicodeTables]

-- Writes of a Job.
inductive JobWrite (s : Store) : StoreEvent → Prop where
  | Created (name : Text) (spec : JobSpec) (habsent : s.get .Job name = none)
      (hvalid : (HomeObject.new .Job name (.Job spec) (StatusBody.empty .Job)).Valid)
      (hnode : spec.nodeName = []) : JobWrite s (Store.scheduledJob name spec (s.rv + 1))
  | Reapplied (old : HomeObject) (hold : old ∈ s.objects) (hkind : old.kind = .Job) :
      JobWrite s ⟨.Modified, rewritten s old⟩
  | Reported (old : HomeObject) (spec : JobSpec) (before after : JobStatus)
      (hold : old ∈ s.objects) (hkind : old.kind = .Job) (hspec : old.spec = .Job spec)
      (hstatus : old.status = .Job before)
      (hvalid : HomeObject.Valid { old with status := .Job after })
      (hadmitted : Admission.JobAdmitted s spec before after) :
      JobWrite s ⟨.Modified, rewritten s { old with status := .Job after }⟩
  | Bound (old : HomeObject) (spec worker : JobSpec) (status : JobStatus) (disk : Disk)
      (hold : old ∈ s.objects) (hkind : old.kind = .Job) (hspec : old.spec = .Job spec)
      (hstatus : old.status = .Job status)
      (hadmitted : Admission.BindAdmitted disk s spec worker status) :
      JobWrite s ⟨.Modified, boundRow s old spec⟩
  | Refused (old : HomeObject) (spec : JobSpec) (before : JobStatus) (message : Text)
      (hold : old ∈ s.objects) (hkind : old.kind = .Job) (hspec : old.spec = .Job spec)
      (hstatus : old.status = .Job before) (hnode : spec.nodeName = [])
      (hphase : before.phase = .Pending) :
      JobWrite s ⟨.Modified, rewritten s { old with
        status := .Job { before with phase := .Refused, message } }⟩
  | Deleted (old : HomeObject) (hold : old ∈ s.objects) (hkind : old.kind = .Job)
      (hfree : Admission.reservation old = none) : JobWrite s ⟨.Deleted, rewritten s old⟩

-- Writes of a Title. A Title without observations is opened for the Jobs that name
-- it; there is no delete.
inductive TitleWrite (s : Store) : StoreEvent → Prop where
  | Opened (titleId : Text) (habsent : s.get .Title titleId = none) :
      TitleWrite s (Store.scheduledTitle titleId (s.rv + 1))
  | Created (obj : HomeObject) (hkind : obj.kind = .Title)
      (habsent : s.get .Title obj.metadata.name = none) (hvalid : obj.Valid)
      (hgeneration : obj.metadata.generation = 1)
      (huid : obj.metadata.uid = uidOf .Title (s.rv + 1))
      (hrevision : obj.metadata.resourceVersion = s.rv + 1) : TitleWrite s ⟨.Added, obj⟩
  | Respecified (old : HomeObject) (spec : TitleSpec) (hold : old ∈ s.objects)
      (hkind : old.kind = .Title) (hname : spec.titleId = old.metadata.name) (generation : Int)
      (hgeneration : generation = if .Title spec = old.spec then old.metadata.generation
        else old.metadata.generation + 1) :
      TitleWrite s ⟨.Modified, rewritten s { old with
        spec := .Title spec, metadata := { old.metadata with generation } }⟩
  | Observed (old : HomeObject) (status : TitleStatus) (hold : old ∈ s.objects)
      (hkind : old.kind = .Title) (hvalid : HomeObject.Valid { old with status := .Title status })
      (hkeeps : ∀ file ∈ Admission.observedFilesOf old, ∃ kept ∈ status.observedFiles,
        kept.path = file.path ∧ kept.installB3 = file.installB3) :
      TitleWrite s ⟨.Modified, rewritten s { old with status := .Title status }⟩
  | Drifted (old : HomeObject) (before : TitleStatus) (disk : Disk) (root : Text)
      (hold : old ∈ s.objects) (hkind : old.kind = .Title) (hstatus : old.status = .Title before) :
      TitleWrite s ⟨.Modified, rewritten s { old with
        status := .Title (Controllers.driftStatus disk root before) }⟩

-- What a rewrite makes of the status of a Sync.
inductive SyncMove (before : SyncStatus) (request : HomeObject) : SyncStatus → Prop where
  | Fail (message : Text) (hopen : before.phase ≠ .Scheduled ∧ before.phase ≠ .Failed) :
      SyncMove before request { before with phase := .Failed, message }
  | Capture (objects : List HomeObject) (generation : Int)
      (hwaiting : before.phase = .WaitingInventory) :
      SyncMove before request (Sync.capturedStatus objects request before generation)
  | Commit (entries : List SyncEntry) (message : Text) (hcaptured : before.phase = .Captured)
      (hentries : ∃ env objects s s₁, Store.EntriesRun request.metadata.name s
        (SyncPlan.evaluate env objects before.entries) entries s₁) :
      SyncMove before request { before with entries, phase := .Scheduled, message }

-- Writes of a Sync.
inductive SyncWrite (s : Store) : StoreEvent → Prop where
  | Accepted (obj : HomeObject) (status : SyncStatus) (hkind : obj.kind = .Sync)
      (hagrees : obj.Agrees) (habsent : s.get .Sync obj.metadata.name = none)
      (hname : obj.metadata.name ≠ []) (hversion : obj.apiVersion = homeApiVersion)
      (hgeneration : obj.metadata.generation = 1) (huid : obj.metadata.uid = uidOf .Sync (s.rv + 1))
      (hrevision : obj.metadata.resourceVersion = s.rv + 1) (hstatus : obj.status = .Sync status)
      (hphase : status.phase = .WaitingInventory) (hacceptance : status.acceptanceRv = s.rv) :
      SyncWrite s ⟨.Added, obj⟩
  | Planned (old : HomeObject) (before after : SyncStatus) (hold : old ∈ s.objects)
      (hkind : old.kind = .Sync) (hstatus : old.status = .Sync before)
      (hphase : before.phase ≠ .Scheduled) (hmove : SyncMove before old after) :
      SyncWrite s ⟨.Modified, rewritten s { old with status := .Sync after }⟩
  | Deleted (old : HomeObject) (hold : old ∈ s.objects) (hkind : old.kind = .Sync)
      (hover : (s.list (some .Job)).any (Admission.activeOf old.metadata.name) = false) :
      SyncWrite s ⟨.Deleted, rewritten s old⟩

-- What the checks of a Hold and of the Cluster leave in force: an approval stays
-- while a bound Job rests on it, and the library root stays while Jobs under another
-- one are open.
structure Guarded (s : Store) (ev : StoreEvent) : Prop where
  approval : ∀ old ∈ s.objects, old.key = ev.object.key → Admission.approves old.spec = true →
    (ev.watch ≠ .Deleted ∧ Admission.approves ev.object.spec = true) ∨
      (s.list (some .Job)).any (Admission.boundTo old.metadata.name) = false
  root : ∀ old ∈ s.objects, old.key = ev.object.key → ∀ before, old.spec = .Cluster before →
    ev.watch ≠ .Deleted ∧ ∀ after, ev.object.spec = .Cluster after →
      before.libraryRoot = after.libraryRoot ∨
        (s.list (some .Job)).any (Admission.activeUnder after.libraryRoot) = false

inductive Write (s : Store) (ev : StoreEvent) : Prop where
  | Job (h : JobWrite s ev)
  | Title (h : TitleWrite s ev)
  | Sync (h : SyncWrite s ev)
  | Other (hkind : isLifecycle ev.object.kind = false) (hchange : Store.Change s ev)
      (hagrees : ev.object.Agrees) (hversion : ev.object.apiVersion = homeApiVersion)
      (hguarded : Guarded s ev)

-- A write that creates no Job of a Sync.
def Unsynced (ev : StoreEvent) : Prop :=
  ev.watch = .Added → Admission.isSyncJob ev.object.spec = false

-- A write outside the commits of a Sync neither captures a listing nor schedules.
structure Plain (ev : StoreEvent) : Prop where
  unsynced : Unsynced ev
  uncaptured : ev.watch ≠ .Deleted → ∀ status, ev.object.status = .Sync status →
    status.phase ≠ .Captured
  unscheduled : ev.watch ≠ .Deleted → ∀ status, ev.object.status = .Sync status →
    status.phase ≠ .Scheduled

-- The capture of a listing, as the store has it at that moment.
structure Captured (s : Store) (old : HomeObject) (before : SyncStatus)
    (objects : List HomeObject) (generation now : Int) : Prop where
  mem : old ∈ s.objects
  kind : old.kind = .Sync
  status : old.status = .Sync before
  waiting : before.phase = .WaitingInventory
  fresh : Sync.qualifyingGeneration (s.snapshot none).1
    (Sync.capturedStatus objects old before generation) now = .ok (some generation)
  listed : (s.snapshot none).1.filter Sync.isListed = objects.filter Sync.isListed
  agrees : ∀ obj ∈ objects, obj.Agrees

-- The commit of a plan: its Jobs and Titles, then the Sync itself.
structure Scheduled (s s' : Store) (old : HomeObject) (before after : SyncStatus)
    (s₁ : Store) : Prop where
  mem : old ∈ s.objects
  kind : old.kind = .Sync
  status : old.status = .Sync before
  captured : before.phase = .Captured
  entries : ∃ env objects, Store.EntriesRun old.metadata.name s
    (SyncPlan.evaluate env objects before.entries) after.entries s₁
  phase : after.phase = .Scheduled
  move : SyncMove before old after
  commit : ∃ revision request now obj, s.scheduleSync revision request now = (.ok obj, s')
  final : s' = s₁.write ⟨.Modified, rewritten s₁ { old with status := .Sync after }⟩

-- A step writes one row or adds rows, captures a listing, or commits a plan.
inductive Effect (s : Store) : Store → Prop where
  | Writes {evs : List StoreEvent} {s' : Store}
      (h : Store.Trail (fun s ev => Write s ev ∧ Plain ev) s evs s')
      (hsolo : evs.length ≤ 1 ∨ ∀ ev ∈ evs, ev.watch = .Added) : Effect s s'
  | Capture {old : HomeObject} {before : SyncStatus} {objects : List HomeObject}
      {generation now : Int} (h : Captured s old before objects generation now) :
      Effect s (s.write ⟨.Modified, rewritten s { old with
        status := .Sync (Sync.capturedStatus objects old before generation) }⟩)
  | Schedule {s' s₁ : Store} {old : HomeObject} {before after : SyncStatus}
      (h : Scheduled s s' old before after s₁) : Effect s s'

theorem JobWrite.change {s : Store} {ev : StoreEvent} (hs : Store.Sound s) (h : JobWrite s ev) :
    Store.Change s ev := by
  cases h with
  | Created name spec habsent => exact .Create (Store.created_scheduledJob habsent)
  | Reapplied old hold =>
      exact .Update old ⟨rfl, hs.get_of_mem hold, fun _ => rfl, by simp [rewritten], rfl⟩
  | Reported old spec before after hold =>
      exact .Update old ⟨rfl, hs.get_of_mem hold, fun _ => rfl, by simp [rewritten], rfl⟩
  | Bound old spec worker status disk hold hkind hspec hstatus hadmitted =>
      refine .Update old ⟨rfl, hs.get_of_mem hold, fun _ => rfl, ?_, rfl⟩
      rw [hspec]
      exact (if_neg (boundSpec_ne hadmitted.unbound)).symm
  | Refused old spec before message hold =>
      exact .Update old ⟨rfl, hs.get_of_mem hold, fun _ => rfl, by simp [rewritten], rfl⟩
  | Deleted old hold => exact .Remove old ⟨rfl, hs.get_of_mem hold, rfl⟩

theorem TitleWrite.change {s : Store} {ev : StoreEvent} (hs : Store.Sound s)
    (h : TitleWrite s ev) : Store.Change s ev := by
  cases h with
  | Opened titleId habsent => exact .Create (Store.created_scheduledTitle habsent)
  | Created obj hkind habsent hvalid hgen huid hrv =>
      exact .Create ⟨rfl, by simpa only [hkind] using habsent, by simpa only [hkind] using huid,
        hgen, hrv⟩
  | Respecified old spec hold hkind hname generation hgen =>
      exact .Update old ⟨rfl, hs.get_of_mem hold, fun _ => rfl, hgen, rfl⟩
  | Observed old status hold =>
      exact .Update old ⟨rfl, hs.get_of_mem hold, fun _ => rfl, by simp [rewritten], rfl⟩
  | Drifted old before disk root hold =>
      exact .Update old ⟨rfl, hs.get_of_mem hold, fun _ => rfl, by simp [rewritten], rfl⟩

theorem SyncWrite.change {s : Store} {ev : StoreEvent} (hs : Store.Sound s)
    (h : SyncWrite s ev) : Store.Change s ev := by
  cases h with
  | Accepted obj status hkind _ habsent _ _ hgen huid hrv =>
      exact .Create ⟨rfl, by simpa only [hkind] using habsent, by simpa only [hkind] using huid,
        hgen, hrv⟩
  | Planned old before after hold =>
      exact .Update old ⟨rfl, hs.get_of_mem hold, fun _ => rfl, by simp [rewritten], rfl⟩
  | Deleted old hold => exact .Remove old ⟨rfl, hs.get_of_mem hold, rfl⟩

theorem Write.change {s : Store} {ev : StoreEvent} (hs : Store.Sound s) (h : Write s ev) :
    Store.Change s ev := by
  cases h with
  | Job h => exact h.change hs
  | Title h => exact h.change hs
  | Sync h => exact h.change hs
  | Other _ hchange => exact hchange

-- The kind of the written row tells which write it was.
theorem JobWrite.kind {s : Store} {ev : StoreEvent} (h : JobWrite s ev) :
    ev.object.kind = .Job := by
  cases h <;> first | rfl | assumption

theorem TitleWrite.kind {s : Store} {ev : StoreEvent} (h : TitleWrite s ev) :
    ev.object.kind = .Title := by
  cases h <;> first | rfl | assumption

theorem SyncWrite.kind {s : Store} {ev : StoreEvent} (h : SyncWrite s ev) :
    ev.object.kind = .Sync := by
  cases h <;> assumption

theorem Write.job {s : Store} {ev : StoreEvent} (h : Write s ev) (hkind : ev.object.kind = .Job) :
    JobWrite s ev := by
  cases h with
  | Job h => exact h
  | Title h => cases hkind.symm.trans h.kind
  | Sync h => cases hkind.symm.trans h.kind
  | Other hother => simp [hkind, isLifecycle] at hother

theorem Write.title {s : Store} {ev : StoreEvent} (h : Write s ev)
    (hkind : ev.object.kind = .Title) : TitleWrite s ev := by
  cases h with
  | Job h => cases hkind.symm.trans h.kind
  | Title h => exact h
  | Sync h => cases hkind.symm.trans h.kind
  | Other hother => simp [hkind, isLifecycle] at hother

theorem Write.sync {s : Store} {ev : StoreEvent} (h : Write s ev) (hkind : ev.object.kind = .Sync) :
    SyncWrite s ev := by
  cases h with
  | Job h => cases hkind.symm.trans h.kind
  | Title h => cases hkind.symm.trans h.kind
  | Sync h => exact h
  | Other hother => simp [hkind, isLifecycle] at hother

theorem Write.typed {s : Store} {ev : StoreEvent} (ht : Typed s) (h : Write s ev) :
    ev.object.Agrees ∧ ev.object.apiVersion = homeApiVersion := by
  have hrow : ∀ old ∈ s.objects, old.Agrees ∧ old.apiVersion = homeApiVersion :=
    fun old hold => ⟨ht.agrees old hold, ht.version old hold⟩
  cases h with
  | Job h =>
      cases h with
      | Created => exact ⟨⟨rfl, rfl⟩, rfl⟩
      | Reapplied old hold => exact hrow old hold
      | Reported old spec before after hold hkind =>
          exact ⟨⟨(hrow old hold).1.1, hkind.symm⟩, (hrow old hold).2⟩
      | Bound old spec worker status disk hold hkind =>
          exact ⟨⟨hkind.symm, (hrow old hold).1.2⟩, (hrow old hold).2⟩
      | Refused old spec before message hold hkind =>
          exact ⟨⟨(hrow old hold).1.1, hkind.symm⟩, (hrow old hold).2⟩
      | Deleted old hold => exact hrow old hold
  | Title h =>
      cases h with
      | Opened titleId habsent => exact ⟨⟨rfl, rfl⟩, rfl⟩
      | Created obj _ _ hvalid => exact ⟨hvalid.agrees, hvalid.version⟩
      | Respecified old spec hold hkind =>
          exact ⟨⟨hkind.symm, (hrow old hold).1.2⟩, (hrow old hold).2⟩
      | Observed old status hold hkind =>
          exact ⟨⟨(hrow old hold).1.1, hkind.symm⟩, (hrow old hold).2⟩
      | Drifted old before disk root hold hkind =>
          exact ⟨⟨(hrow old hold).1.1, hkind.symm⟩, (hrow old hold).2⟩
  | Sync h =>
      cases h with
      | Accepted obj status _ hagrees _ _ hversion => exact ⟨hagrees, hversion⟩
      | Planned old before after hold hkind =>
          exact ⟨⟨(hrow old hold).1.1, hkind.symm⟩, (hrow old hold).2⟩
      | Deleted old hold => exact hrow old hold
  | Other _ _ hagrees hversion => exact ⟨hagrees, hversion⟩

theorem Typed.write {s : Store} {ev : StoreEvent} (hs : Store.Sound s) (ht : Typed s)
    (h : Write s ev) : Typed (s.write ev) := by
  have hnew := h.typed ht
  constructor
  · intro obj hobj
    rcases hs.mem_write hobj with ⟨-, rfl⟩ | ⟨hold, -⟩
    · exact hnew.1
    · exact ht.agrees obj hold
  · intro obj hobj
    rcases hs.mem_write hobj with ⟨-, rfl⟩ | ⟨hold, -⟩
    · exact hnew.2
    · exact ht.version obj hold

end Mediaops.Api
