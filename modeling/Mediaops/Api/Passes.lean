import Mediaops.Api.Effects.Replies

namespace Mediaops.Api

-- A whole pass of a controller, with nothing in between, is a sequence of steps
-- of a run: every result about runs covers the passes.

variable [UnicodeTables]

-- The run goes on from its newest state to `s'`.
def Reaches (trace : List Store) (s' : Store) : Prop :=
  ∃ past, Run (s' :: past) ∧ trace <:+ s' :: past

namespace Reaches

variable {trace : List Store} {s s' : Store} {past : List Store}

theorem refl (run : Run (s :: past)) : Reaches (s :: past) s := ⟨past, run, List.suffix_rfl⟩

theorem step (run : Run (s :: past)) (h : Step (s :: past) s s') : Reaches (s :: past) s' :=
  ⟨s :: past, .Next run h, List.suffix_cons _ _⟩

theorem trans (h : Reaches trace s)
    (h' : ∀ past, Run (s :: past) → trace <:+ s :: past → Reaches (s :: past) s') :
    Reaches trace s' := by
  obtain ⟨past, run, hsuffix⟩ := h
  obtain ⟨past', run', hsuffix'⟩ := h' past run hsuffix
  exact ⟨past', run', hsuffix.trans hsuffix'⟩

-- The next part of a pass starts where the first one ended.
theorem andThen {first : Controllers.Outcome} {next : Store → Controllers.Outcome}
    (h : Reaches trace first.2)
    (h' : ∀ past, Run (first.2 :: past) → trace <:+ first.2 :: past →
      Reaches (first.2 :: past) (next first.2).2) :
    Reaches trace (Controllers.andThen first next).2 := by
  obtain ⟨result, s₁⟩ := first
  cases result with
  | error e => exact h
  | ok u => exact h.trans h'

end Reaches

theorem refuseJobs_reaches {s view : Store} {past : List Store} (run : Run (s :: past))
    (hview : view ∈ s :: past) (now : Int) (jobs : List HomeObject)
    (hjobs : ∀ job ∈ jobs, job ∈ view.objects) :
    Reaches (s :: past) (Controllers.refuseJobs (view.snapshot none).1 now s jobs).2 := by
  induction jobs generalizing s past with
  | nil => exact .refl run
  | cons job rest ih =>
      refine (Reaches.step run (.Refuse now view hview job (hjobs job List.mem_cons_self))).andThen
        fun past' run' hsuffix => ?_
      exact ih run' (hsuffix.subset hview) fun job hjob => hjobs job (List.mem_cons_of_mem _ hjob)

theorem refuseRevokedJobs_reaches {s : Store} {past : List Store} (run : Run (s :: past))
    (now : Int) : Reaches (s :: past) (Controllers.refuseRevokedJobs s now).2 := by
  refine refuseJobs_reaches run List.mem_cons_self now _ fun job hjob => ?_
  exact (mem_snapshot.mp (List.mem_of_mem_filter hjob)).1

theorem flagDrift_reaches {s view : Store} {past : List Store} (run : Run (s :: past))
    (hview : view ∈ s :: past) (disk : Disk) (root : Text) (titles : List HomeObject)
    (htitles : ∀ title ∈ titles, title ∈ view.objects) :
    Reaches (s :: past) (Controllers.flagDrift disk root s titles).2 := by
  induction titles generalizing s past with
  | nil => exact .refl run
  | cons title rest ih =>
      refine (Reaches.step run (.Drift disk root view hview title
        (htitles title List.mem_cons_self))).andThen fun past' run' hsuffix => ?_
      exact ih run' (hsuffix.subset hview) fun t ht => htitles t (List.mem_cons_of_mem _ ht)

theorem wantRemotes_reaches {s : Store} {past : List Store} (run : Run (s :: past))
    (pass : Controllers.Pass) (want : HomeObject) (titleId : Text) (id : TitleId)
    (acc : Bool × Bool) (remotes : List RemoteFileStatus) :
    Reaches (s :: past) (Controllers.wantRemotes pass want titleId id s acc remotes).1.2 := by
  induction remotes generalizing s past acc with
  | nil => exact .refl run
  | cons remote rest ih =>
      have hstep := Reaches.step run (.PullWanted pass want titleId id remote)
      obtain ⟨found, complete⟩ := acc
      unfold Controllers.wantRemotes
      split
      · next heq => rwa [heq] at hstep
      · next heq =>
          rw [heq] at hstep
          exact hstep.trans fun past' run' _ => ih run' _
      · next heq =>
          rw [heq] at hstep
          exact hstep.trans fun past' run' _ => ih run' _

theorem reconcileWant_reaches {s view : Store} {past : List Store} (run : Run (s :: past))
    (hview : view ∈ s :: past) (pass : Controllers.Pass) {want : HomeObject}
    (hwant : want ∈ view.objects) :
    Reaches (s :: past) (Controllers.reconcileWant pass s want).2 := by
  unfold Controllers.reconcileWant
  split
  · next spec status hspec hstatus =>
      split
      · exact .refl run
      split
      · exact .refl run
      next id hid =>
        have hloop := wantRemotes_reaches run pass want spec.titleId id (false, true) pass.remotes
        split
        · next heq => rwa [heq] at hloop
        · next s₁ found complete heq =>
            rw [heq] at hloop
            exact hloop.trans fun past' run' hsuffix =>
              .step run' (.SettleWant view (hsuffix.subset hview) want hwant found complete)
  · exact .refl run

theorem reconcileWants_reaches {s view : Store} {past : List Store} (run : Run (s :: past))
    (hview : view ∈ s :: past) (pass : Controllers.Pass) (wants : List HomeObject)
    (hwants : ∀ want ∈ wants, want ∈ view.objects) :
    Reaches (s :: past) (Controllers.reconcileWants pass s wants).2 := by
  induction wants generalizing s past with
  | nil => exact .refl run
  | cons want rest ih =>
      refine (reconcileWant_reaches run hview pass (hwants want List.mem_cons_self)).andThen
        fun past' run' hsuffix => ?_
      exact ih run' (hsuffix.subset hview) fun w hw => hwants w (List.mem_cons_of_mem _ hw)

theorem reconcileHolds_reaches {s : Store} {past : List Store} (run : Run (s :: past))
    (pass : Controllers.Pass) (holds : List HomeObject) :
    Reaches (s :: past) (Controllers.reconcileHolds pass s holds).2 := by
  induction holds generalizing s past with
  | nil => exact .refl run
  | cons hold rest ih =>
      exact (Reaches.step run (.PullHeld pass hold)).andThen fun past' run' _ => ih run'

theorem pullListed_reaches {s view : Store} {past : List Store} (run : Run (s :: past))
    (hview : view ∈ s :: past) (pass : Controllers.Pass) (hpass : ∀ obj ∈ pass.objects, obj ∈ view.objects)
    {cluster : HomeObject} (hcluster : cluster ∈ view.objects) :
    Reaches (s :: past) (Controllers.pullListed pass s cluster).2 := by
  refine (reconcileWants_reaches run hview pass _ fun want hwant =>
    hpass want (List.mem_of_mem_filter hwant)).andThen fun past₁ run₁ hsuffix₁ => ?_
  refine (reconcileHolds_reaches run₁ pass pass.holds).andThen fun past₂ run₂ hsuffix₂ => ?_
  exact .step run₂ (.AcceptCluster view ((hsuffix₁.trans hsuffix₂).subset hview) cluster hcluster)

theorem reconcileJobs_reaches {s : Store} {past : List Store} (run : Run (s :: past)) (env : Env) :
    Reaches (s :: past) (Controllers.reconcileJobs env s).2 := by
  refine (refuseRevokedJobs_reaches run env.now).andThen fun past₁ run₁ hsuffix₁ => ?_
  generalize hs₁ : (Controllers.refuseRevokedJobs s env.now).2 = s₁ at run₁ hsuffix₁
  have hmem : ∀ obj ∈ (s₁.snapshot none).1, obj ∈ s₁.objects := fun obj hobj =>
    (mem_snapshot.mp hobj).1
  refine (flagDrift_reaches run₁ List.mem_cons_self env.disk _ _ fun title htitle =>
    hmem title (List.mem_of_mem_filter htitle)).andThen fun past₂ run₂ hsuffix₂ => ?_
  generalize (Controllers.flagDrift env.disk _ s₁ _).2 = s₂ at run₂ hsuffix₂ ⊢
  split
  · exact .refl run₂
  next cluster hcluster =>
    split
    · split
      · exact .refl run₂
      split
      · exact .refl run₂
      split
      · exact .refl run₂
      · exact pullListed_reaches run₂ (hsuffix₂.subset List.mem_cons_self) _ hmem
          (hmem cluster (List.mem_of_find?_eq_some hcluster))
    · exact .refl run₂

theorem advance_reaches {s view : Store} {past : List Store} (run : Run (s :: past))
    (hview : view ∈ s :: past) (env : Env) {request : HomeObject}
    (hrequest : request ∈ view.objects) : Reaches (s :: past) (Sync.advance env s request).2 := by
  unfold Sync.advance
  dsimp only
  split
  · next status hstatus =>
      split
      · exact .step run (.Fail request _)
      split
      · exact .refl run
      split
      · next generation hphase _ =>
          exact .step run (.Capture env view s hview List.mem_cons_self request hrequest status
            hstatus hphase _)
      · next hphase _ =>
          exact .step run (.Schedule env env view s hview List.mem_cons_self request hrequest status
            hstatus hphase)
      · exact .refl run
  · exact .refl run

theorem reconcileRequests_reaches {s view : Store} {past : List Store} (run : Run (s :: past))
    (hview : view ∈ s :: past) (env : Env) (requests : List HomeObject)
    (hrequests : ∀ request ∈ requests, request ∈ view.objects) :
    Reaches (s :: past) (Sync.reconcileRequests env s requests).2 := by
  induction requests generalizing s past with
  | nil => exact .refl run
  | cons request rest ih =>
      have hone : Reaches (s :: past) (Sync.reconcileRequest env s request).2 := by
        unfold Sync.reconcileRequest
        split
        · split
          · exact .refl run
          have hadvance := advance_reaches run hview env (hrequests request List.mem_cons_self)
          split
          · next heq => rwa [heq] at hadvance
          · next heq =>
              rw [heq] at hadvance
              split
              · exact hadvance
              · exact hadvance.trans fun past' run' _ => .step run' (.Fail request _)
        · exact .refl run
      refine hone.andThen fun past' run' hsuffix => ?_
      exact ih run' (hsuffix.subset hview) fun r hr => hrequests r (List.mem_cons_of_mem _ hr)

theorem reconcileSync_reaches {s : Store} {past : List Store} (run : Run (s :: past)) (env : Env) :
    Reaches (s :: past) (Sync.reconcile env s).2 :=
  reconcileRequests_reaches run List.mem_cons_self env _ fun _ hrequest => (mem_list.mp hrequest).1

-- One undisturbed pass of the controllers, from any state of a run.
theorem reconcileOnce_reaches {s : Store} {past : List Store} (run : Run (s :: past)) (env : Env) :
    Reaches (s :: past) (Controllers.reconcileOnce env s).2 :=
  (reconcileSync_reaches run env).andThen fun _ run' _ => reconcileJobs_reaches run' env

-- Requests one after the other, each on the state the last one left.
def session (env : Env) (s : Store) (calls : List (Actor × Serve.Request)) : Store :=
  calls.foldl (fun s call => (Serve.serve env s s call.1 call.2).2) s

theorem session_reaches {s : Store} {past : List Store} (run : Run (s :: past)) (env : Env)
    (calls : List (Actor × Serve.Request)) : Reaches (s :: past) (session env s calls) := by
  induction calls generalizing s past with
  | nil => exact .refl run
  | cons call rest ih =>
      exact (Reaches.step run (.Request env s List.mem_cons_self call.1 call.2)).trans
        fun past' run' _ => ih run'

-- A home with one wanted film, from the empty store to the installed file.
namespace Sample

def titleId : Text := "movie:key:heat.1995"
def jobName : Text := "pull-movie-key-heat.1995-whole"
def destRel : Text := "movies/Heat.(1995)/Heat.(1995).mkv"
def digest : Blake3Hex := ⟨List.replicate 64 'a', by decide⟩

def env : Env where
  now := 100
  disk := {
    symlinkMetadata := fun path =>
      if path = "/library/".toList ++ destRel then
        .Found { isFile := true, isDir := false, len := 5, blocks := 1 }
      else .NotFound
    digest := fun _ => .ok digest
    freeBytes := fun _ => .ok 1000
    installFits := fun _ => .ok true }

def cluster : ClusterSpec where
  maxCopy := 50
  libraryRoot := "/library"
  roots := [{ id := "films", path := "/films" }]

def remote : RemoteFileStatus where
  rootId := "films"
  relPath := "Heat.(1995)/Heat.(1995).mkv"
  len := 5
  parseOk := true
  titleId := titleId
  listGeneration := 1

def node (worker : WorkerKind) (status : NodeStatus) : HomeObject :=
  .new .Node worker.nodeName (.Node { workerKind := worker }) (.Node status)

def setup : List (Actor × Serve.Request) := [
  (.Cli, .Apply (.new .Cluster clusterName (.Cluster cluster) (StatusBody.empty .Cluster))),
  (.Cli, .Apply (.new .Want titleId (.Want { titleId }) (StatusBody.empty .Want))),
  (.Inventory, .Apply (.new .RemoteFile (remoteFileName remote.rootId remote.relPath) .RemoteFile
    (.RemoteFile remote))),
  (.Inventory, .Apply (node .Inventory
    { listGeneration := 1, listCompletedUnix := 100, ready := true, lastHeartbeatUnix := 100 })),
  (.Pull, .Apply (node .Pull { ready := true, lastHeartbeatUnix := 100 }))]

def reported (rv : Int) (status : JobStatus) : HomeObject where
  kind := .Job
  metadata := { name := jobName, resourceVersion := rv }
  spec := .Job { nodeName := WorkerKind.Pull.nodeName, workerKind := WorkerKind.Pull.asStr }
  status := .Job status

def pulling : JobStatus := { phase := .Pulling, startedUnix := 100, attempts := 1 }

def observed (rv : Int) : HomeObject where
  kind := .Title
  metadata := { name := titleId, resourceVersion := rv }
  spec := .Title { titleId }
  status := .Title { files := [{ path := destRel, installB3 := digest, currentB3 := digest }] }

-- The bind, then the worker's reports; the controller's pass stops at revision 8.
def work : List (Actor × Serve.Request) := [
  (.Scheduler, .Patch .PatchBind (reported 7 {})),
  (.Pull, .Patch .PatchStatus (reported 9 pulling)),
  (.Pull, .Patch .PatchStatus
    (reported 10 { pulling with phase := .Verifying, verifiedB3 := some digest })),
  (.Pull, .Patch .PatchStatus (observed 6)),
  (.Pull, .Patch .PatchStatus (reported 11
    { pulling with phase := .Installed, verifiedB3 := some digest, bytesDone := 5 }))]

def queued : Store := (Controllers.reconcileOnce env (session env .empty setup)).2

def installed : Store := session env queued work

-- A second film that is wanted beside the first.
def upId : Text := "movie:key:up.2009"
def upName : Text := "pull-movie-key-up.2009-whole"
def upRel : Text := "movies/Up.(2009)/Up.(2009).mkv"

def upRemote : RemoteFileStatus :=
  { remote with relPath := "Up.(2009)/Up.(2009).mkv", titleId := upId }

def bothSetup : List (Actor × Serve.Request) := setup ++ [
  (.Cli, .Apply (.new .Want upId (.Want { titleId := upId }) (StatusBody.empty .Want))),
  (.Inventory, .Apply (.new .RemoteFile (remoteFileName upRemote.rootId upRemote.relPath) .RemoteFile
    (.RemoteFile upRemote)))]

def bothQueued : Store := (Controllers.reconcileOnce env (session env .empty bothSetup)).2

theorem bothQueued_reaches : Reaches [.empty] bothQueued :=
  (session_reaches .Start env bothSetup).trans fun _ run _ => reconcileOnce_reaches run env

theorem queued_reaches : Reaches [.empty] queued :=
  (session_reaches .Start env setup).trans fun _ run _ => reconcileOnce_reaches run env

theorem installed_reaches : Reaches [.empty] installed :=
  queued_reaches.trans fun _ run _ => session_reaches run env work

-- The same home asked for a one-shot sync instead, while nothing is installed.
def emptyLibrary : Env where
  now := 100
  disk := { Disk.empty with
    symlinkMetadata := fun path =>
      if path = "/library".toList then
        .Found { isFile := false, isDir := true, len := 0, blocks := 0 }
      else .NotFound }

def rescan : List (Actor × Serve.Request) := [
  (.Cli, .Sync "evening"),
  (.Inventory, .BeginInventory),
  (.Inventory, .Apply {
    kind := .RemoteFile
    metadata := { name := remoteFileName remote.rootId remote.relPath, resourceVersion := 3 }
    spec := .RemoteFile
    status := .RemoteFile { remote with listGeneration := 2 } }),
  (.Inventory, .Patch .PatchStatus {
    kind := .Node
    metadata := { name := WorkerKind.Inventory.nodeName, resourceVersion := 7 }
    spec := .Node { workerKind := .Inventory }
    status := .Node { listGeneration := 2, listCompletedUnix := 100, ready := true,
                      lastHeartbeatUnix := 100, scanStartedRv := 7, scanClusterGeneration := 1 } })]

def rescanned : Store := session emptyLibrary .empty (setup ++ rescan)

def scheduled : Store := (Sync.reconcile emptyLibrary (Sync.reconcile emptyLibrary rescanned).2).2

theorem scheduled_reaches : Reaches [.empty] scheduled := by
  refine (session_reaches .Start emptyLibrary (setup ++ rescan)).trans fun past run _ => ?_
  refine (reconcileSync_reaches run emptyLibrary).trans fun past' run' _ => ?_
  exact reconcileSync_reaches run' emptyLibrary

end Sample

end Mediaops.Api
