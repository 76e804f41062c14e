import Mediaops.Api.Serve

namespace Mediaops.Api

-- Runs of the whole control plane. A run is the list of the states it went
-- through, newest first. Every write of a controller may come from a snapshot of
-- any earlier state: between the snapshot and the write anything may happen. What
-- a pass carries besides its snapshot is left open, so a step here is any round a
-- pass can make.

variable [UnicodeTables]

-- One step: the locked section of a request, or one round of a controller's loop.
inductive Step (past : List Store) (s : Store) : Store → Prop where
  | Request (env : Env) (view : Store) (hview : view ∈ past) (actor : Actor)
      (request : Serve.Request) : Step past s (Serve.serve env view s actor request).2
  | Refuse (now : Int) (view : Store) (hview : view ∈ past) (job : HomeObject)
      (hjob : job ∈ view.objects) :
      Step past s (Controllers.refuseJob s (view.snapshot none).1 job now).2
  | Drift (disk : Disk) (root : Text) (view : Store) (hview : view ∈ past) (title : HomeObject)
      (htitle : title ∈ view.objects) : Step past s (Controllers.flagDriftOne disk s root title).2
  | PullWanted (pass : Controllers.Pass) (want : HomeObject) (titleId : Text) (id : TitleId)
      (remote : RemoteFileStatus) :
      Step past s (Controllers.wantRemote pass want titleId id s remote).1.2
  | PullHeld (pass : Controllers.Pass) (hold : HomeObject) :
      Step past s (Controllers.reconcileHold pass s hold).2
  | SettleWant (view : Store) (hview : view ∈ past) (want : HomeObject)
      (hwant : want ∈ view.objects) (found complete : Bool) :
      Step past s (Controllers.settleWant s want found complete).2
  | AcceptCluster (view : Store) (hview : view ∈ past) (cluster : HomeObject)
      (hcluster : cluster ∈ view.objects) : Step past s (Controllers.acceptCluster s cluster).2
  | Capture (env : Env) (view listed : Store) (hview : view ∈ past) (hlisted : listed ∈ past)
      (request : HomeObject) (hrequest : request ∈ view.objects) (status : SyncStatus)
      (hstatus : request.status = .Sync status) (hphase : status.phase = .WaitingInventory)
      (generation : Int) :
      Step past s (Sync.commitCapture env s (listed.snapshot none).1 request status generation).2
  | Schedule (env env' : Env) (view listed : Store) (hview : view ∈ past) (hlisted : listed ∈ past)
      (request : HomeObject) (hrequest : request ∈ view.objects) (status : SyncStatus)
      (hstatus : request.status = .Sync status) (hphase : status.phase = .Captured) :
      Step past s (Sync.commitSchedule env' s (listed.snapshot none).2 request
        (Sync.plannedStatus env (listed.snapshot none).1 status)).2
  | Fail (request : HomeObject) (message : Text) :
      Step past s (Sync.failRequest s request message).2

inductive Run : List Store → Prop where
  | Start : Run [Store.empty]
  | Next {s s' : Store} {past : List Store} (run : Run (s :: past)) (step : Step (s :: past) s s') :
      Run (s' :: s :: past)

-- What holds at the start and is preserved by a step holds in every state.
theorem Run.invariant {P : Store → Prop} (hstart : P Store.empty)
    (hstep : ∀ {past s s'}, Run (s :: past) → P s → Step (s :: past) s s' → P s')
    {trace : List Store} (run : Run trace) : ∀ s ∈ trace, P s := by
  induction run with
  | Start =>
      intro s hs
      rw [List.mem_singleton] at hs
      exact hs ▸ hstart
  | Next run step ih =>
      intro s hs
      rcases List.mem_cons.mp hs with rfl | hs
      · exact hstep run (ih _ List.mem_cons_self) step
      · exact ih s hs

end Mediaops.Api
