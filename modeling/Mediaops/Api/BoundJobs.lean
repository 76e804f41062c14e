import Mediaops.Api.JobLifecycle

namespace Mediaops.Api

-- What a bound Job rests on as long as it is open: the Hold that authorized it and
-- the library root it was planned under.

-- A Job that a worker was given and has not finished.
def Active (job : HomeObject) (spec : JobSpec) : Prop := Admission.reservation job = some spec

theorem active_iff {job : HomeObject} {spec : JobSpec} : Active job spec ↔
    ∃ status, job.spec = .Job spec ∧ job.status = .Job status ∧ spec.nodeName ≠ [] ∧
      status.phase.isTerminal = false := by
  constructor
  · intro h
    unfold Active Admission.reservation at h
    split at h
    · next found status hspec hstatus =>
        split at h
        · next hbound =>
            cases h
            exact ⟨status, hspec, hstatus, hbound.1, by simpa using hbound.2⟩
        · cases h
    · cases h
  · rintro ⟨status, hspec, hstatus, hnode, hopen⟩
    unfold Active Admission.reservation
    rw [hspec, hstatus]
    simp [hnode, hopen]

-- The Hold of that name is there and approved.
def Approved (s : Store) (holdName : Text) : Prop :=
  ∃ hold spec, s.get .Hold holdName = some hold ∧ hold.spec = .Hold spec ∧
    spec.decision = .Approved

def RootIs (s : Store) (root : Text) : Prop :=
  ∃ cluster config, s.get .Cluster clusterName = some cluster ∧ cluster.spec = .Cluster config ∧
    config.libraryRoot = root

structure Grounded (s : Store) (spec : JobSpec) : Prop where
  hold : spec.holdName ≠ [] → Approved s spec.holdName
  root : RootIs s spec.libraryRoot

def JobsGrounded (s : Store) : Prop :=
  ∀ job ∈ s.objects, ∀ spec, Active job spec → Grounded s spec

theorem approves_iff {spec : Spec} : Admission.approves spec = true ↔
    ∃ hold, spec = .Hold hold ∧ hold.decision = .Approved := by
  constructor
  · intro h
    cases spec with
    | Hold hold => exact ⟨hold, rfl, by simpa [Admission.approves] using h⟩
    | _ => cases h
  · rintro ⟨hold, rfl, hdecision⟩
    simp [Admission.approves, hdecision]

theorem specOf_cluster {obj : HomeObject} (h : obj.Agrees) (hkind : obj.kind = .Cluster) :
    ∃ spec, obj.spec = .Cluster spec := by
  have hspec := h.1
  rw [hkind] at hspec
  cases hs : obj.spec <;> rw [hs] at hspec <;> first | exact ⟨_, rfl⟩ | cases hspec

theorem jobs_listed {s : Store} {P : HomeObject → Bool} (ht : Typed s) {job : HomeObject}
    (hjob : job ∈ s.objects) {spec : JobSpec} (hspec : job.spec = .Job spec)
    (hnone : (s.list (some .Job)).any P = false) : P job = false := by
  have hkind := Agrees.job_of_spec (ht.agrees job hjob) hspec
  have hmem : job ∈ s.list (some .Job) := mem_list.mpr ⟨hjob, by simp [Store.ofKind, hkind]⟩
  simpa using List.any_eq_false.mp hnone job hmem

section

variable [UnicodeTables]

-- A bind was checked against the Hold and the Cluster of that moment.
theorem holdRefusal_none {holds : List HomeObject} {job : JobSpec}
    (h : holdRefusal holds job = none) : ∃ hold ∈ holds, hold.metadata.name = job.holdName ∧
      Admission.approves hold.spec = true := by
  unfold holdRefusal at h
  split at h
  · cases h
  next hold hfind =>
    have hmem := List.mem_of_find?_eq_some hfind
    have hname : hold.metadata.name = job.holdName := by simpa using List.find?_some hfind
    split at h
    · next spec status hspec hstatus =>
        split at h
        · cases h
        split at h
        · cases h
        next hdecision =>
          push Not at hdecision
          exact ⟨hold, hmem, hname, approves_iff.mpr ⟨spec, hspec, hdecision.1⟩⟩
    · cases h

theorem authorizationRefusal_hold {objects : List HomeObject} {job : JobSpec} {now : Int}
    (hhold : job.holdName ≠ []) (h : authorizationRefusal objects job now = none) :
    ∃ hold ∈ objects, hold.metadata.name = job.holdName ∧
      Admission.approves hold.spec = true := by
  unfold authorizationRefusal at h
  split at h
  · cases h
  split at h
  · cases h
  split at h
  · cases h
  split at h
  · cases h
  next remote hremote =>
    dsimp only at h
    split at h
    · cases h
    next hrefusal =>
      obtain ⟨hold, hmem, hrest⟩ := holdRefusal_none hrefusal
      exact ⟨hold, List.mem_of_mem_filter hmem, hrest⟩

theorem bind_grounded {s : Store} (hs : Store.Sound s) (ht : Typed s) {disk : Disk}
    {before worker : JobSpec} {status : JobStatus}
    (h : Admission.BindAdmitted disk s before worker status) : Grounded s before := by
  constructor
  · intro hhold
    obtain ⟨now, hauthorized⟩ := h.authorized
    obtain ⟨hold, hmem, hname, happroved⟩ := authorizationRefusal_hold hhold hauthorized
    have hstored := (mem_snapshot.mp hmem).1
    have hkind : hold.kind = .Hold := (ht.agrees hold hstored).1.symm.trans (approves_kind happroved)
    obtain ⟨spec, hspec, hdecision⟩ := approves_iff.mp happroved
    refine ⟨hold, spec, ?_, hspec, hdecision⟩
    rw [← hkind, ← hname]
    exact hs.get_of_mem hstored
  · have hcluster := h.cluster
    unfold Admission.clusterAllows at hcluster
    split at hcluster
    · next config hfound =>
        obtain ⟨cluster, hget, hspec⟩ := Option.map_eq_some_iff.mp hfound
        simp only [Bool.and_eq_true, decide_eq_true_eq] at hcluster
        exact ⟨cluster, config, hget, hspec, hcluster.2⟩
    · cases hcluster

-- The row a Job write leaves was grounded before, or is by the bind itself.
theorem grounded_jobWrite {s : Store} {ev : StoreEvent} (hs : Store.Sound s) (ht : Typed s)
    (h : JobWrite s ev) (hjobs : JobsGrounded s) (hkept : ev.watch ≠ .Deleted) {spec : JobSpec}
    (hactive : Active ev.object spec) : Grounded s spec := by
  obtain ⟨status, hspec, hstatus, hnode, hopen⟩ := active_iff.mp hactive
  cases h with
  | Created name spec' _ _ hunbound =>
      cases hspec
      exact absurd hunbound hnode
  | Reapplied old hold => exact hjobs old hold spec hactive
  | Reported old spec' before after hold _ hspec' hbefore _ hadmitted =>
      exact hjobs old hold spec (active_iff.mpr ⟨before, hspec, hbefore, hnode, hadmitted.open_⟩)
  | Bound old spec' worker status' disk hold _ hspec' _ hadmitted =>
      cases hspec
      have hgrounded := bind_grounded hs ht hadmitted
      exact ⟨hgrounded.hold, hgrounded.root⟩
  | Refused old spec' before message =>
      cases hstatus
      cases hopen
  | Deleted old hold => exact absurd rfl hkept

theorem Write.guarded {s : Store} {ev : StoreEvent} (h : Write s ev)
    (hkind : isLifecycle ev.object.kind = false) : Guarded s ev := by
  cases h with
  | Job h => simp [h.kind, isLifecycle] at hkind
  | Title h => simp [h.kind, isLifecycle] at hkind
  | Sync h => simp [h.kind, isLifecycle] at hkind
  | Other _ _ _ _ hguarded => exact hguarded

-- No write takes away what an active Job rests on.
theorem Grounded.write {s : Store} {ev : StoreEvent} (ht : Typed s) (hw : Write s ev)
    {job : HomeObject} (hjob : job ∈ s.objects) {spec : JobSpec} (hactive : Active job spec)
    (h : Grounded s spec) : Grounded (s.write ev) spec := by
  obtain ⟨status, hspec, hstatus, hnode, hopen⟩ := active_iff.mp hactive
  constructor
  · intro hhold
    obtain ⟨hold, approved, hget, happroved, hdecision⟩ := h.hold hhold
    by_cases hkey : ev.object.key = (.Hold, spec.holdName)
    · have hkind : ev.object.kind = .Hold := congrArg Prod.fst hkey
      have hname : ev.object.metadata.name = spec.holdName := congrArg Prod.snd hkey
      have hguarded := hw.guarded (by rw [hkind]; rfl)
      have hsame : hold.key = ev.object.key := (Store.get_key hget).trans hkey.symm
      rcases hguarded.approval hold (Store.get_mem hget) hsame
        (approves_iff.mpr ⟨approved, happroved, hdecision⟩) with ⟨hkept, hstays⟩ | hfree
      · obtain ⟨after, hafter, hstill⟩ := approves_iff.mp hstays
        refine ⟨ev.object, after, ?_, hafter, hstill⟩
        rw [← hkind, ← hname]
        exact Store.get_write_self hkept
      · have hbound := jobs_listed ht hjob hspec hfree
        have hholdName : hold.metadata.name = spec.holdName := congrArg Prod.snd (Store.get_key hget)
        simp [Admission.boundTo, hspec, hstatus, hholdName, hnode, hopen] at hbound
    · exact ⟨hold, approved, (Store.get_write_of_ne hkey).trans hget, happroved, hdecision⟩
  · obtain ⟨cluster, config, hget, hconfig, hroot⟩ := h.root
    by_cases hkey : ev.object.key = (.Cluster, clusterName)
    · have hkind : ev.object.kind = .Cluster := congrArg Prod.fst hkey
      have hname : ev.object.metadata.name = clusterName := congrArg Prod.snd hkey
      have hguarded := hw.guarded (by rw [hkind]; rfl)
      have hsame : cluster.key = ev.object.key := (Store.get_key hget).trans hkey.symm
      obtain ⟨hkept, hroots⟩ := hguarded.root cluster (Store.get_mem hget) hsame config hconfig
      obtain ⟨after, hafter⟩ := specOf_cluster (hw.typed ht).1 hkind
      refine ⟨ev.object, after, ?_, hafter, ?_⟩
      · rw [← hkind, ← hname]
        exact Store.get_write_self hkept
      · rcases hroots after hafter with heq | hfree
        · exact heq.symm.trans hroot
        · have hunder := jobs_listed ht hjob hspec hfree
          have heq : spec.libraryRoot = after.libraryRoot := by
            simpa [Admission.activeUnder, hspec, hstatus, hopen] using hunder
          exact heq.symm
    · exact ⟨cluster, config, (Store.get_write_of_ne hkey).trans hget, hconfig, hroot⟩

theorem jobsGrounded_write {s : Store} {ev : StoreEvent} (hs : Store.Sound s) (ht : Typed s)
    (hjobs : JobsGrounded s) (hw : Write s ev) : JobsGrounded (s.write ev) := by
  intro job hjob spec hactive
  rcases hs.mem_write hjob with ⟨hkept, rfl⟩ | ⟨hold, -⟩
  · obtain ⟨_, hspec, -⟩ := active_iff.mp hactive
    have hkind := Agrees.job_of_spec (hw.typed ht).1 hspec
    have hgrounded := grounded_jobWrite hs ht (hw.job hkind) hjobs hkept hactive
    -- The write is of a Job, so the Hold and the Cluster are as they were.
    have hkeeps : ∀ kind name, kind ≠ .Job → (s.write ev).get kind name = s.get kind name := by
      intro kind name hne
      refine Store.get_write_of_ne fun hkey => hne ?_
      exact (congrArg Prod.fst hkey).symm.trans hkind
    constructor
    · intro hhold
      obtain ⟨hold, approved, hget, hrest⟩ := hgrounded.hold hhold
      exact ⟨hold, approved, (hkeeps .Hold _ Kind.noConfusion).trans hget, hrest⟩
    · obtain ⟨cluster, config, hget, hrest⟩ := hgrounded.root
      exact ⟨cluster, config, (hkeeps .Cluster _ Kind.noConfusion).trans hget, hrest⟩
  · exact (hjobs job hold spec hactive).write ht hw hold hactive

theorem Run.jobsGrounded {s : Store} {past : List Store} (run : Run (s :: past)) :
    JobsGrounded s :=
  run.trail_invariant (P := JobsGrounded) (by intro job hjob; cases hjob)
    fun _ _ hs ht hjobs hw => jobsGrounded_write hs ht hjobs hw

-- The requests that would leave no approved Hold of that name.
def Revokes (holdName : Text) : Serve.Request → Prop
  | .Apply obj => obj.key = (.Hold, holdName) ∧ Admission.approves obj.spec = false
  | .Patch op obj => op = .PatchSpec ∧ obj.key = (.Hold, holdName) ∧
      Admission.approves obj.spec = false
  | .Delete kind name _ => (kind, name) = (.Hold, holdName)
  | _ => False

-- The Hold of an active Job does not let go: such a request is turned down.
theorem revoke_refused {s : Store} (ht : Typed s) {job : HomeObject} (hjob : job ∈ s.objects)
    {spec : JobSpec} (hactive : Active job spec) (hground : Approved s spec.holdName)
    {request : Serve.Request} (hrevokes : Revokes spec.holdName request) (env : Env) (view : Store)
    (actor : Actor) : ∃ e, Serve.serve env view s actor request = (.error e, s) := by
  obtain ⟨status, hspec, hstatus, hnode, hopen⟩ := active_iff.mp hactive
  obtain ⟨hold, approved, hget, happroved, hdecision⟩ := hground
  have hholds : Admission.approves hold.spec = true :=
    approves_iff.mpr ⟨approved, happroved, hdecision⟩
  have hbusy : (s.list (some .Job)).any (Admission.boundTo spec.holdName) ≠ false := by
    intro hfree
    have hbound := jobs_listed ht hjob hspec hfree
    simp [Admission.boundTo, hspec, hstatus, hnode, hopen] at hbound
  cases request with
  | Apply obj =>
      obtain ⟨hkey, hrevoked⟩ := hrevokes
      have hkind : obj.kind = .Hold := congrArg Prod.fst hkey
      have hname : obj.metadata.name = spec.holdName := congrArg Prod.snd hkey
      simp only [Serve.serve, Serve.apply]
      cases hadmit : Serve.admitApply env view s actor obj with
      | error e => exact ⟨e, rfl⟩
      | ok u =>
          have hval := (Checks.when_ok (Checks.seq_ok hadmit).2).2
          have hfound : s.get obj.kind obj.metadata.name = some hold := by rw [hkind, hname, hget]
          have hsame := (Admission.validateApply_some hval hfound).hold hkind
          rw [hsame, hholds] at hrevoked
          cases hrevoked
  | Patch op obj =>
      obtain ⟨rfl, hkey, hrevoked⟩ := hrevokes
      have hkind : obj.kind = .Hold := congrArg Prod.fst hkey
      have hname : obj.metadata.name = spec.holdName := congrArg Prod.snd hkey
      simp only [Serve.serve, Serve.patch]
      cases hadmit : Serve.admitPatch env view s actor .PatchSpec obj with
      | error e => exact ⟨e, rfl⟩
      | ok u =>
          obtain ⟨old, hcurrent, hcheck⟩ :=
            Checks.bind_ok (Checks.when_ok (Checks.seq_ok hadmit).2).2
          obtain ⟨hfound, -⟩ := Admission.current_ok hcurrent
          rw [hkind, hname, hget] at hfound
          cases hfound
          have hholdName : hold.metadata.name = spec.holdName :=
            congrArg Prod.snd (Store.get_key hget)
          rcases (Admission.validateSpecPatch_ok (ht.agrees hold (Store.get_mem hget))
            hcheck).hold hholds with hstays | hfree
          · rw [hrevoked] at hstays
            cases hstays
          · rw [hholdName] at hfree
            exact absurd hfree hbusy
  | Delete kind name rv =>
      cases hrevokes
      simp only [Serve.serve, Serve.delete]
      cases hadmit : Serve.admitDelete s actor .Hold spec.holdName with
      | error e => exact ⟨e, rfl⟩
      | ok u =>
          have hdelete := Admission.validateDelete_ok (Checks.seq_ok hadmit).2
          exact absurd (hdelete.hold rfl) hbusy
  | Reconcile => cases hrevokes
  | Sync requestId => cases hrevokes
  | BeginInventory => cases hrevokes

-- In every reachable state the Hold behind a bound open Job is there and approved,
-- and a request that would change that is refused.
theorem hold_authority {s : Store} {past : List Store} (run : Run (s :: past)) :
    ∀ job ∈ s.objects, ∀ spec status, job.spec = .Job spec → job.status = .Job status →
      spec.nodeName ≠ [] → status.phase.isTerminal = false → spec.holdName ≠ [] →
        Approved s spec.holdName ∧
          ∀ request, Revokes spec.holdName request → ∀ env view actor,
            ∃ e, Serve.serve env view s actor request = (.error e, s) := by
  intro job hjob spec status hspec hstatus hnode hopen hhold
  have hactive : Active job spec := active_iff.mpr ⟨status, hspec, hstatus, hnode, hopen⟩
  have happroved := (run.jobsGrounded job hjob spec hactive).hold hhold
  exact ⟨happroved, fun request hrevokes env view actor =>
    revoke_refused run.settled.typed hjob hactive happroved hrevokes env view actor⟩

-- What may happen to the spec of a Job as long as it lives: one bind.
def Snapshot (before after : JobSpec) : Prop :=
  after = before ∨ (before.nodeName = [] ∧ after = boundSpec before)

omit [UnicodeTables] in
theorem Snapshot.trans {a b c : JobSpec} (h : Snapshot a b) (h' : Snapshot b c) : Snapshot a c := by
  rcases h with rfl | ⟨hnode, rfl⟩
  · exact h'
  · rcases h' with rfl | ⟨hbound, -⟩
    · exact .inr ⟨hnode, rfl⟩
    · have hpull : WorkerKind.Pull.nodeName = [] := hbound
      exact absurd hpull (by decide)

def KeepsSnapshot (a b : HomeObject) : Prop :=
  ∀ before, a.spec = .Job before → ∃ after, b.spec = .Job after ∧ Snapshot before after

omit [UnicodeTables] in
theorem KeepsSnapshot.refl (a : HomeObject) : KeepsSnapshot a a :=
  fun before h => ⟨before, h, .inl rfl⟩

omit [UnicodeTables] in
theorem KeepsSnapshot.trans {a b c : HomeObject} (h : KeepsSnapshot a b) (h' : KeepsSnapshot b c) :
    KeepsSnapshot a c := by
  intro before hbefore
  obtain ⟨mid, hmid, hfirst⟩ := h before hbefore
  obtain ⟨after, hafter, hsecond⟩ := h' mid hmid
  exact ⟨after, hafter, hfirst.trans hsecond⟩

theorem keepsSnapshot_write {s : Store} {ev : StoreEvent} (hs : Store.Sound s) (ht : Typed s)
    (hw : Write s ev) (hmodified : ev.watch = .Modified) {prev : HomeObject}
    (hprev : prev ∈ s.objects) (hkey : prev.key = ev.object.key) : KeepsSnapshot prev ev.object := by
  intro before hbefore
  have hkind : ev.object.kind = .Job :=
    (congrArg Prod.fst hkey).symm.trans (Agrees.job_of_spec (ht.agrees prev hprev) hbefore)
  have hsame : ∀ old ∈ s.objects, old.key = ev.object.key → prev = old := fun old hold hk =>
    Table.eq_of_key_eq hs.keyed hprev hold (hkey.trans hk.symm)
  cases hw.job hkind with
  | Created name spec => cases hmodified
  | Reapplied old hold =>
      obtain rfl := hsame old hold rfl
      exact ⟨before, hbefore, .inl rfl⟩
  | Reported old spec status after hold =>
      obtain rfl := hsame old hold rfl
      exact ⟨before, hbefore, .inl rfl⟩
  | Bound old spec worker status disk hold _ hspec _ hadmitted =>
      obtain rfl := hsame old hold rfl
      rw [hbefore] at hspec
      cases hspec
      exact ⟨boundSpec before, rfl, .inr ⟨hadmitted.unbound, rfl⟩⟩
  | Refused old spec status message hold =>
      obtain rfl := hsame old hold rfl
      exact ⟨before, hbefore, .inl rfl⟩
  | Deleted old hold => cases hmodified

-- Between any two states of a run a Job of one identity keeps its spec but for one
-- bind, from no worker to the pull worker; and a bound open Job is under the library
-- root of the Cluster.
theorem job_snapshot {s : Store} {past : List Store} (run : Run (s :: past)) :
    (∀ view ∈ s :: past, ∀ a ∈ view.objects, ∀ b ∈ s.objects, a.kind = .Job → b.kind = .Job →
      a.metadata.uid = b.metadata.uid → ∃ before after, a.spec = .Job before ∧
        b.spec = .Job after ∧
        { after with nodeName := before.nodeName, workerKind := before.workerKind } = before ∧
        (after = before ∨ (before.nodeName = [] ∧ after.nodeName = WorkerKind.Pull.nodeName))) ∧
    (∀ job ∈ s.objects, ∀ spec status, job.spec = .Job spec → job.status = .Job status →
      spec.nodeName ≠ [] → status.phase.isTerminal = false → RootIs s spec.libraryRoot) := by
  constructor
  · intro view hview a ha b hb hka hkb huid
    have hfollows := run.follows (R := KeepsSnapshot) .refl .trans
      (fun _ _ hs ht hw hm _ hold hkey => keepsSnapshot_write hs ht hw hm hold hkey)
      hview ha hb (hka.trans hkb.symm) huid
    obtain ⟨before, hbefore⟩ := specOf_job (run.typed_of_mem hview |>.agrees a ha) hka
    obtain ⟨after, hafter, hsnapshot⟩ := hfollows before hbefore
    refine ⟨before, after, hbefore, hafter, ?_⟩
    rcases hsnapshot with rfl | ⟨hnode, rfl⟩
    · exact ⟨rfl, .inl rfl⟩
    · exact ⟨rfl, .inr ⟨hnode, rfl⟩⟩
  · intro job hjob spec status hspec hstatus hnode hopen
    exact (run.jobsGrounded job hjob spec
      (active_iff.mpr ⟨status, hspec, hstatus, hnode, hopen⟩)).root

end

-- A film that waits for approval, is approved and bound.
namespace Sample

def holdName : Text := titleId ++ "-first".toList

def holdSpec : HoldSpec := { titleId, releaseId := "first" }

def heldSetup : List (Actor × Serve.Request) := [
  (.Cli, .Apply (.new .Cluster clusterName (.Cluster cluster) (StatusBody.empty .Cluster))),
  (.Inventory, .Apply (.new .RemoteFile (remoteFileName remote.rootId remote.relPath) .RemoteFile
    (.RemoteFile remote))),
  (.Inventory, .Apply (.new .Hold holdName (.Hold holdSpec) (.Hold {
    listGeneration := 1, remoteRoot := remote.rootId, remotePath := remote.relPath
    placement := some (.Movie "Heat" 1995 "mkv") }))),
  (.Inventory, .Apply (node .Inventory
    { listGeneration := 1, listCompletedUnix := 100, ready := true, lastHeartbeatUnix := 100 })),
  (.Pull, .Apply (node .Pull { ready := true, lastHeartbeatUnix := 100 })),
  (.Cli, .Patch .PatchSpec {
    kind := .Hold
    metadata := { name := holdName, resourceVersion := 3 }
    spec := .Hold { holdSpec with decision := .Approved }
    status := StatusBody.empty .Hold })]

def heldBound [UnicodeTables] : Store :=
  session env (Controllers.reconcileOnce env (session env .empty heldSetup)).2
    [(.Scheduler, .Patch .PatchBind (reported 8 {}))]

theorem heldBound_reaches [UnicodeTables] : Reaches [.empty] heldBound := by
  refine (session_reaches .Start env heldSetup).trans fun past run _ => ?_
  refine (reconcileOnce_reaches run env).trans fun past' run' _ => ?_
  exact session_reaches run' env _

end Sample

theorem hold_authority_film :
    let := UnicodeTables.ascii
    ∃ past, Run (Sample.heldBound :: past) ∧
      (∃ job ∈ Sample.heldBound.objects, (Admission.reservation job).any fun spec =>
        spec.holdName = Sample.holdName) ∧
      ∀ job ∈ Sample.heldBound.objects, ∀ spec status, job.spec = .Job spec →
        job.status = .Job status → spec.nodeName ≠ [] → status.phase.isTerminal = false →
          spec.holdName ≠ [] → Approved Sample.heldBound spec.holdName ∧
            ∀ request, Revokes spec.holdName request → ∀ env view actor,
              ∃ e, Serve.serve env view Sample.heldBound actor request =
                (.error e, Sample.heldBound) := by
  intro _
  obtain ⟨past, run, -⟩ := Sample.heldBound_reaches
  exact ⟨past, run, by decide +kernel, hold_authority run⟩

theorem job_snapshot_film :
    let := UnicodeTables.ascii
    ∃ past, Run (Sample.heldBound :: past) ∧
      (∃ job ∈ Sample.heldBound.objects, (Admission.reservation job).any fun spec =>
        spec.libraryRoot = "/library".toList) ∧
      ∀ job ∈ Sample.heldBound.objects, ∀ spec status, job.spec = .Job spec →
        job.status = .Job status → spec.nodeName ≠ [] → status.phase.isTerminal = false →
          RootIs Sample.heldBound spec.libraryRoot := by
  intro _
  obtain ⟨past, run, -⟩ := Sample.heldBound_reaches
  exact ⟨past, run, by decide +kernel, (job_snapshot run).2⟩

end Mediaops.Api
