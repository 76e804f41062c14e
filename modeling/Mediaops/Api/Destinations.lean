import Mediaops.Api.JobLifecycle
import Mediaops.Api.SyncPlan.Theorems

namespace Mediaops.Api

-- One destination, one Job: a Job named after its destination shares it with no
-- other Job so named.

-- The place in the library that a Job which is not over will install to.
def openPlace (job : HomeObject) : Option (Text × Text) :=
  match job.spec, job.status with
  | .Job spec, .Job status =>
      if status.phase.isTerminal then none else some (spec.libraryRoot, spec.destRel)
  | _, _ => none

section

variable [UnicodeTables]

-- The Job bears the name that its destination reads back to.
def NamedAfter (name : Text) (spec : JobSpec) : Prop :=
  (placementOf spec.destRel).map (fun (id, placement) => SyncPlan.jobName id placement) = some name

instance (name : Text) (spec : JobSpec) : Decidable (NamedAfter name spec) :=
  inferInstanceAs (Decidable (_ = _))

-- The destination of an entry keeps the file key it was planned for.
def KeepsKey (entry : SyncEntry) : Prop :=
  ∃ spec placement id read, entry.job = some spec ∧ entry.placement = some placement ∧
    placementOf spec.destRel = some (id, read) ∧ read.fileKey = placement.fileKey

theorem jobName_congr {id : TitleId} {a b : Placement} (h : a.fileKey = b.fileKey) :
    SyncPlan.jobName id a = SyncPlan.jobName id b := by
  unfold SyncPlan.jobName
  rw [h]

theorem namedAfter_of_read {spec : JobSpec} {id : TitleId} {read placement : Placement}
    (hread : placementOf spec.destRel = some (id, read)) (hkey : read.fileKey = placement.fileKey) :
    NamedAfter (SyncPlan.jobName id placement) spec := by
  rw [NamedAfter, hread]
  exact congrArg some (jobName_congr hkey)

theorem NamedAfter.unique {name name' : Text} {spec spec' : JobSpec} (h : NamedAfter name spec)
    (h' : NamedAfter name' spec') (hdest : spec.destRel = spec'.destRel) : name = name' := by
  rw [NamedAfter, hdest] at h
  exact Option.some.inj (h.symm.trans h')

-- The planner keys its entries on the identity that the destination reads back to.
theorem namedAfter_of_keepsKey {objects : List HomeObject} {request : HomeObject}
    {entry : SyncEntry} (h : entry ∈ SyncPlan.capture objects request)
    (hq : entry.disposition = .WouldQueue) (hkeeps : KeepsKey entry) {spec : JobSpec}
    (hspec : entry.job = some spec) : NamedAfter entry.jobName spec := by
  obtain ⟨status, cluster, obj, remote, -, -, -, -, -, rfl⟩ := SyncPlan.capture_queue h hq
  obtain ⟨root, authority, placement, holdName, dest, id, hplanned⟩ := SyncPlan.candidate_queue hq
  obtain ⟨spec', planned, id', read, hspec', hplacement, hread, hkey⟩ := hkeeps
  rw [hplanned.entry] at hspec hspec' hplacement ⊢
  cases hspec
  cases hspec'
  cases hplacement
  have hdest : placementOf dest = some (id', read) := hread
  have hid : id' = id := by
    have hparsed := hplanned.parsed
    unfold PathSchema.parse at hparsed
    unfold placementOf at hdest
    cases hres : PathSchema.parsePlacement dest with
    | error e =>
        rw [hres] at hdest
        cases hdest
    | ok found =>
        rw [hres] at hdest hparsed
        cases hdest
        cases hparsed
        rfl
  subst hid
  exact namedAfter_of_read hread hkey

theorem evaluate_pairwise (env : Env) (objects listed : List HomeObject) (request : HomeObject) :
    (SyncPlan.evaluate env objects (SyncPlan.capture listed request)).Pairwise fun a b =>
      a.disposition = .WouldQueue → b.disposition = .WouldQueue → a.jobName ≠ b.jobName := by
  unfold SyncPlan.evaluate
  rw [List.pairwise_map]
  refine (SyncPlan.capture_pairwise listed request).imp fun {a b} hdistinct ha hb => ?_
  obtain ⟨hsameA, hqueueA⟩ := SyncPlan.evaluateEntry_queue ha
  obtain ⟨hsameB, hqueueB⟩ := SyncPlan.evaluateEntry_queue hb
  rw [hsameA, hsameB]
  exact hdistinct hqueueA hqueueB

theorem evaluate_capture {env : Env} {objects listed : List HomeObject} {request : HomeObject}
    {entry : SyncEntry} (h : entry ∈ SyncPlan.evaluate env objects (SyncPlan.capture listed request))
    (hq : entry.disposition = .WouldQueue) : entry ∈ SyncPlan.capture listed request := by
  obtain ⟨e, he, rfl⟩ := List.mem_map.mp h
  rwa [(SyncPlan.evaluateEntry_queue hq).1]

-- The rows that a rewrite leaves in place: same Job, same name, same destination.
def SamePlace (a b : HomeObject) : Prop :=
  ∀ spec, b.spec = .Job spec → ∃ prev, a.spec = .Job prev ∧ a.metadata.name = b.metadata.name ∧
    prev.destRel = spec.destRel

omit [UnicodeTables] in
theorem SamePlace.refl (a : HomeObject) : SamePlace a a := fun spec hspec => ⟨spec, hspec, rfl, rfl⟩

omit [UnicodeTables] in
theorem SamePlace.trans {a b c : HomeObject} (h : SamePlace a b) (h' : SamePlace b c) :
    SamePlace a c := by
  intro spec hspec
  obtain ⟨mid, hmid, hname, hdest⟩ := h' spec hspec
  obtain ⟨prev, hprev, hname', hdest'⟩ := h mid hmid
  exact ⟨prev, hprev, hname'.trans hname, hdest'.trans hdest⟩

theorem samePlace_write {s : Store} {ev : StoreEvent} (hs : Store.Sound s) (ht : Typed s)
    (hw : Write s ev) (hmodified : ev.watch = .Modified) {prev : HomeObject}
    (hprev : prev ∈ s.objects) (hkey : prev.key = ev.object.key) : SamePlace prev ev.object := by
  intro spec hspec
  have hsame : ∀ old ∈ s.objects, old.key = ev.object.key → prev = old := fun old hold hk =>
    Table.eq_of_key_eq hs.keyed hprev hold (hkey.trans hk.symm)
  cases hw.job (Agrees.job_of_spec (hw.typed ht).1 hspec) with
  | Created name spec' => cases hmodified
  | Reapplied old hold =>
      obtain rfl := hsame old hold rfl
      exact ⟨spec, hspec, rfl, rfl⟩
  | Reported old spec' before after hold =>
      obtain rfl := hsame old hold rfl
      exact ⟨spec, hspec, rfl, rfl⟩
  | Bound old spec' worker status disk hold hkind hspec' =>
      obtain rfl := hsame old hold rfl
      cases hspec
      exact ⟨spec', hspec', rfl, rfl⟩
  | Refused old spec' before message hold =>
      obtain rfl := hsame old hold rfl
      exact ⟨spec, hspec, rfl, rfl⟩
  | Deleted old hold => cases hmodified

-- Every Job that a step of the run brought into being is named after its destination.
def NamesJobs : List Store → Prop
  | s' :: s :: past =>
      (∀ job ∈ s'.objects, ∀ spec, job.spec = .Job spec →
        (∀ prev ∈ s.objects, prev.kind = .Job → prev.metadata.uid ≠ job.metadata.uid) →
          NamedAfter job.metadata.name spec) ∧ NamesJobs (s :: past)
  | _ => True

theorem Run.jobs_named {s : Store} {past : List Store} (run : Run (s :: past))
    (hnames : NamesJobs (s :: past)) :
    ∀ job ∈ s.objects, ∀ spec, job.spec = .Job spec → NamedAfter job.metadata.name spec := by
  generalize htrace : s :: past = trace at run hnames
  induction run generalizing s past with
  | Start =>
      obtain ⟨rfl, rfl⟩ := List.cons.inj htrace
      intro job hjob
      cases hjob
  | @Next s₀ s' past₀ run step ih =>
      obtain ⟨rfl, rfl⟩ := List.cons.inj htrace
      intro job hjob spec hspec
      obtain ⟨hfirst, hrest⟩ := hnames
      have hsettled := run.settled
      by_cases hold : ∃ prev ∈ s₀.objects, prev.kind = .Job ∧ prev.metadata.uid = job.metadata.uid
      · obtain ⟨prev, hprev, hkind, huid⟩ := hold
        have hjobKind := Agrees.job_of_spec
          ((Run.Next run step).settled.typed.agrees job hjob) hspec
        have hplace := (Run.Next run step).follows (R := SamePlace) .refl .trans
          (fun _ _ hs ht hw hm _ hold hkey => samePlace_write hs ht hw hm hold hkey)
          (List.mem_cons_of_mem _ List.mem_cons_self) hprev hjob (hkind.trans hjobKind.symm) huid
        obtain ⟨prevSpec, hprevSpec, hname, hdest⟩ := hplace spec hspec
        have hnamed := ih rfl hrest prev hprev prevSpec hprevSpec
        rwa [NamedAfter, hdest, hname] at hnamed
      · push Not at hold
        exact hfirst job hjob spec hspec hold

-- The Job that `create_pull_job` adds bears the name of what it was rendered from.
theorem createPullJob_names {s : Store} (hs : Store.Sound s) (env : Env) (cluster : ClusterSpec)
    (id : TitleId) (remote : RemoteFileStatus) (placement : Placement)
    (snapshot : List HomeObject) (authority : HomeObject) {job : HomeObject}
    (hjob : job ∈ (Controllers.createPullJob env s cluster id remote placement snapshot
      authority).2.objects) {spec : JobSpec} (hspec : job.spec = .Job spec) :
    job ∈ s.objects ∨ (job.metadata.name = SyncPlan.jobName id placement ∧
      PathSchema.render id placement = .ok spec.destRel) := by
  have htitle : s.get .Title id.render = none →
      job ∈ (s.write (Store.scheduledTitle id.render (s.rv + 1))).objects → job ∈ s.objects := by
    intro hfree hmem
    rcases hs.mem_write hmem with ⟨-, rfl⟩ | ⟨hold, -⟩
    · cases hspec
    · exact hold
  have hpulled := pull_cases hs env cluster id remote placement snapshot authority
  generalize (Controllers.createPullJob env s cluster id remote placement snapshot authority).2 =
    s' at hpulled hjob
  cases hpulled with
  | Skipped => exact .inl hjob
  | Opened habsent => exact .inl (htitle habsent hjob)
  | Queued s₁ destRel hopened hrender habsent hvalid =>
      have hs₁ : Store.Sound s₁ := by
        rcases hopened with rfl | ⟨hfree, rfl⟩
        · exact hs
        · exact hs.write (.Create (Store.created_scheduledTitle hfree))
      rcases hs₁.mem_write hjob with ⟨-, rfl⟩ | ⟨hold, -⟩
      · cases hspec
        exact .inr ⟨rfl, hrender⟩
      · rcases hopened with rfl | ⟨hfree, rfl⟩
        · exact .inl hold
        · exact .inl (htitle hfree hold)

-- Entries left to be queued have names of their own, and destinations of their own
-- where the destination keeps the file key. Every Job of `create_pull_job` bears the
-- name it was rendered for. In a run whose Jobs come into being under the name of
-- their destination, no two Jobs share a destination.
theorem one_destination :
    (∀ env objects listed request,
      (SyncPlan.evaluate env objects (SyncPlan.capture listed request)).Pairwise fun a b =>
        a.disposition = .WouldQueue → b.disposition = .WouldQueue → a.jobName ≠ b.jobName ∧
          (KeepsKey a → KeepsKey b → a.job.map JobSpec.destRel ≠ b.job.map JobSpec.destRel)) ∧
    (∀ s past, Run (s :: past) → ∀ env cluster id remote placement snapshot authority,
      ∀ job ∈ (Controllers.createPullJob env s cluster id remote placement snapshot
        authority).2.objects, ∀ spec, job.spec = .Job spec → job ∈ s.objects ∨
          (job.metadata.name = SyncPlan.jobName id placement ∧
            PathSchema.render id placement = .ok spec.destRel ∧
            ∀ read, placementOf spec.destRel = some (id, read) →
              read.fileKey = placement.fileKey → NamedAfter job.metadata.name spec)) ∧
    (∀ s past, Run (s :: past) → NamesJobs (s :: past) → ∀ a ∈ s.objects, ∀ b ∈ s.objects,
      ∀ x y, a.spec = .Job x → b.spec = .Job y → x.destRel = y.destRel → a = b) := by
  refine ⟨fun env objects listed request => ?_, ?_, ?_⟩
  · refine (evaluate_pairwise env objects listed request).imp_of_mem ?_
    intro a b ha hb hnames hqa hqb
    refine ⟨hnames hqa hqb, fun hka hkb hdest => ?_⟩
    have hka' := hka
    have hkb' := hkb
    obtain ⟨x, -, -, -, hx, -⟩ := hka
    obtain ⟨y, -, -, -, hy, -⟩ := hkb
    rw [hx, hy] at hdest
    have hnamedA := namedAfter_of_keepsKey (evaluate_capture ha hqa) hqa hka' hx
    have hnamedB := namedAfter_of_keepsKey (evaluate_capture hb hqb) hqb hkb' hy
    exact hnames hqa hqb (hnamedA.unique hnamedB (Option.some.inj hdest))
  · intro s past run env cluster id remote placement snapshot authority job hjob spec hspec
    rcases createPullJob_names run.settled.sound env cluster id remote placement snapshot authority
      hjob hspec with hold | ⟨hname, hrender⟩
    · exact .inl hold
    · refine .inr ⟨hname, hrender, fun read hread hkey => ?_⟩
      rw [hname]
      exact namedAfter_of_read hread hkey
  · intro s past run hnames a ha b hb x y hx hy hdest
    have hjobs := run.jobs_named hnames
    have htyped := run.settled.typed
    have hname := (hjobs a ha x hx).unique (hjobs b hb y hy) hdest
    have hkind : a.kind = b.kind :=
      (Agrees.job_of_spec (htyped.agrees a ha) hx).trans
        (Agrees.job_of_spec (htyped.agrees b hb) hy).symm
    exact Table.eq_of_key_eq run.settled.sound.keyed ha hb (Prod.ext hkind hname)

end

namespace Sample

def albums : ClusterSpec :=
  { cluster with roots := [{ id := "music", path := "/music", kind := some .Album }] }

def song (relPath : Text) : HomeObject :=
  .new .RemoteFile (remoteFileName "music" relPath) .RemoteFile (.RemoteFile {
    rootId := "music", relPath, len := 5, parseOk := true, titleId := "album:key:band.album"
    listGeneration := 1 })

-- The dash of the second name is trimmed, so its title begins with a track number.
def songs : List HomeObject := [
  .new .Cluster clusterName (.Cluster albums) (StatusBody.empty .Cluster),
  song "Band/Album.(2000)/12.Foo.flac",
  song "Band/Album.(2000)/-12.Foo.flac",
  node .Inventory
    { listGeneration := 1, listCompletedUnix := 100, ready := true, lastHeartbeatUnix := 100 }]

def evening : HomeObject :=
  .new .Sync "evening" (.Sync {})
    (.Sync { phase := .Captured, listGeneration := 1, cluster := some albums })

def film (name : Text) : HomeObject :=
  .new .Job name (.Job (SyncPlan.pullSpec cluster remote [] [] titleId destRel))
    (StatusBody.empty .Job)

def filmCalls : List (Actor × Serve.Request) :=
  [(.Controller, .Apply (film "one")), (.Controller, .Apply (film "another"))]

def upFilm : HomeObject :=
  .new .Job upName (.Job (SyncPlan.pullSpec cluster upRemote [] [] upId upRel)) (StatusBody.empty .Job)

-- Two films, each under the name of its destination.
def filmOnce [UnicodeTables] : Store := (Serve.apply env .empty .empty .Controller (film jobName)).2

def bothFilms [UnicodeTables] : Store := (Serve.apply env filmOnce filmOnce .Controller upFilm).2

end Sample

-- The API takes two Jobs of one destination from the controller role, and the
-- planner gives one destination to two files of one album.
theorem shared_destination :
    let := UnicodeTables.ascii
    (∃ s past, Run (s :: past) ∧ ∃ a ∈ s.objects, ∃ b ∈ s.objects, a ≠ b ∧
      (openPlace a).isSome ∧ openPlace a = openPlace b) ∧
    ¬(SyncPlan.evaluate Sample.emptyLibrary Sample.songs
        (SyncPlan.capture Sample.songs Sample.evening)).Pairwise fun a b =>
      a.disposition = .WouldQueue → b.disposition = .WouldQueue →
        a.job.map JobSpec.destRel ≠ b.job.map JobSpec.destRel := by
  intro _
  constructor
  · obtain ⟨past, run, -⟩ := session_reaches Run.Start Sample.env Sample.filmCalls
    exact ⟨_, past, run, by decide +kernel⟩
  · decide +kernel

-- The Jobs of a store that bear the names of their destinations.
def namesAfter [UnicodeTables] (s : Store) : Bool :=
  s.objects.all fun job => match job.spec with
    | .Job spec => NamedAfter job.metadata.name spec
    | _ => true

theorem namedAfter_of_namesAfter [UnicodeTables] {s : Store} (h : namesAfter s = true) :
    ∀ job ∈ s.objects, ∀ spec, job.spec = .Job spec → NamedAfter job.metadata.name spec := by
  intro job hjob spec hspec
  have hone := List.all_eq_true.mp h job hjob
  rw [hspec] at hone
  exact of_decide_eq_true hone

-- Two films applied under the names of their destinations.
theorem one_destination_film :
    let := UnicodeTables.ascii
    let trace := [Sample.bothFilms, Sample.filmOnce, .empty]
    Run trace ∧ NamesJobs trace ∧
      (∃ a ∈ Sample.bothFilms.objects, ∃ b ∈ Sample.bothFilms.objects, a ≠ b ∧
        (openPlace a).isSome ∧ (openPlace b).isSome) ∧
      ∀ a ∈ Sample.bothFilms.objects, ∀ b ∈ Sample.bothFilms.objects, ∀ x y, a.spec = .Job x →
        b.spec = .Job y → x.destRel = y.destRel → a = b := by
  intro _ trace
  have hrun : Run trace :=
    .Next (.Next .Start (.Request Sample.env .empty List.mem_cons_self .Controller
      (.Apply (Sample.film Sample.jobName)))) (.Request Sample.env Sample.filmOnce
        List.mem_cons_self .Controller (.Apply Sample.upFilm))
  obtain ⟨hboth, honce, hplaces⟩ : namesAfter Sample.bothFilms = true ∧
      namesAfter Sample.filmOnce = true ∧
      ∃ a ∈ Sample.bothFilms.objects, ∃ b ∈ Sample.bothFilms.objects, a ≠ b ∧
        (openPlace a).isSome ∧ (openPlace b).isSome := by decide +kernel
  have hnames : NamesJobs trace := by
    refine ⟨fun job hjob spec hspec _ => ?_, fun job hjob spec hspec _ => ?_, trivial⟩
    · exact namedAfter_of_namesAfter hboth job hjob spec hspec
    · exact namedAfter_of_namesAfter honce job hjob spec hspec
  exact ⟨hrun, hnames, hplaces, one_destination.2.2 _ _ hrun hnames⟩

end Mediaops.Api
