import Mediaops.Api.Effects.Requests
import Mediaops.Store.Replay

namespace Mediaops.Api

-- The effect of a controller round, from the snapshot it works on, and with it
-- the effect of every step of a run.

-- Everything the store held at `view` and has not rewritten since is unchanged.
structure Since (view s : Store) : Prop where
  counter : view.rv ≤ s.rv
  kept : ∀ cur ∈ s.objects, cur.metadata.resourceVersion ≤ view.rv → cur ∈ view.objects

namespace Since

variable {view s : Store}

theorem refl (s : Store) : Since s s := ⟨le_refl _, fun _ hcur _ => hcur⟩

theorem write (h : Since view s) (hs : Store.Sound s) {ev : StoreEvent} (hc : Store.Change s ev) :
    Since view (s.write ev) := by
  have hcounter := h.counter
  have hrv := hc.revision_eq
  have hnext : (s.write ev).rv = s.rv + 1 := rfl
  refine ⟨by omega, fun cur hcur hle => ?_⟩
  rcases hs.mem_write hcur with ⟨-, rfl⟩ | ⟨hold, -⟩
  · omega
  · exact h.kept cur hold hle

-- A revision names one row, in whichever state it is read.
theorem coherent (h : Since view s) (hv : Store.Sound view) {obj cur : HomeObject}
    (hobj : obj ∈ view.objects) (hcur : cur ∈ s.objects)
    (hrv : cur.metadata.resourceVersion = obj.metadata.resourceVersion) : obj = cur := by
  have hle := (hv.bound obj hobj).2
  exact hv.revisions obj hobj cur (h.kept cur hcur (by omega)) hrv.symm

end Since

structure Settled (past : List Store) (s : Store) : Prop where
  sound : Store.Sound s
  typed : Typed s
  views : ∀ view ∈ past, Store.Sound view ∧ Since view s
  typedViews : ∀ view ∈ past, Typed view

-- A write of a controller finds the row it read, or does nothing.
theorem patchStatus_from {past : List Store} {s view : Store} (h : Settled past s)
    (hview : view ∈ past) {obj : HomeObject} (hobj : obj ∈ view.objects) (kind : Kind)
    (status : StatusBody) :
    (s.patchStatus kind obj.metadata.name status obj.metadata.resourceVersion).2 = s ∨
      (obj ∈ s.objects ∧ obj.kind = kind ∧
        (s.patchStatus kind obj.metadata.name status obj.metadata.resourceVersion).2 =
          s.write ⟨.Modified, rewritten s { obj with status }⟩) := by
  obtain ⟨hv, hsince⟩ := h.views view hview
  rcases patchStatus_cases h.typed kind obj.metadata.name status obj.metadata.resourceVersion with
    hsame | ⟨old, hold, hrv, hwrite⟩
  · exact .inl hsame
  · have hmem := Store.get_mem hold
    obtain rfl := hsince.coherent hv hobj hmem hrv
    exact .inr ⟨hmem, congrArg Prod.fst (Store.get_key hold), hwrite⟩

section

variable [UnicodeTables]

theorem Settled.write {past : List Store} {s : Store} (h : Settled past s) {ev : StoreEvent}
    (hw : Write s ev) : Settled past (s.write ev) :=
  ⟨h.sound.write (hw.change h.sound), h.typed.write h.sound hw,
    fun view hview => ⟨(h.views view hview).1, (h.views view hview).2.write h.sound
      (hw.change h.sound)⟩, h.typedViews⟩

theorem Settled.trail {past : List Store} {s s' : Store} {evs : List StoreEvent}
    (h : Settled past s) (ht : Store.Trail Write s evs s') : Settled past s' :=
  ht.preserves (P := Settled past) (fun _ _ hs hw => hs.write hw) h

theorem entryRun_added {syncName : Text} {s s' : Store} {entry entry' : SyncEntry}
    (h : Store.EntryRun syncName s entry entry' s') :
    ∃ evs, Store.Trail Write s evs s' ∧ ∀ ev ∈ evs, ev.watch = .Added := by
  cases h with
  | Keep _ => exact ⟨[], .Done s, by simp⟩
  | Queue spec s₁ _ _ _ _ hnode habsent hvalid htitle =>
      have hv := HomeObject.validate_ok hvalid
      rcases htitle with ⟨-, rfl⟩ | ⟨hnone, rfl⟩
      · exact ⟨_, .single (.Job (.Created _ spec habsent hv hnode)), by simp [Store.scheduledJob]⟩
      · have hjob : (s.write (Store.scheduledTitle spec.titleId (s.rv + 1))).get .Job
            entry.jobName = none := by
          rw [Store.get_write_of_ne (by simp [HomeObject.key, Store.scheduledTitle]), habsent]
        exact ⟨_, .Write (.Title (.Opened _ hnone))
          (.single (.Job (.Created _ spec hjob hv hnode))),
          by simp [Store.scheduledTitle, Store.scheduledJob]⟩

-- The loop of a commit only adds rows.
theorem entriesRun_added {syncName : Text} {s s' : Store} {entries entries' : List SyncEntry}
    (h : Store.EntriesRun syncName s entries entries' s') :
    ∃ evs, Store.Trail Write s evs s' ∧ ∀ ev ∈ evs, ev.watch = .Added := by
  induction h with
  | Done s => exact ⟨[], .Done s, by simp⟩
  | Step head _ ih =>
      obtain ⟨evs, hevs, hadded⟩ := entryRun_added head
      obtain ⟨evs', hevs', hadded'⟩ := ih
      refine ⟨evs ++ evs', hevs.append hevs', fun ev hev => ?_⟩
      rcases List.mem_append.mp hev with hev | hev
      · exact hadded ev hev
      · exact hadded' ev hev

theorem entryRun_trail {syncName : Text} {s s' : Store} {entry entry' : SyncEntry}
    (h : Store.EntryRun syncName s entry entry' s') : ∃ evs, Store.Trail Write s evs s' :=
  (entryRun_added h).imp fun _ hadded => hadded.1

theorem entriesRun_trail {syncName : Text} {s s' : Store} {entries entries' : List SyncEntry}
    (h : Store.EntriesRun syncName s entries entries' s') : ∃ evs, Store.Trail Write s evs s' :=
  (entriesRun_added h).imp fun _ hadded => hadded.1

-- The loop of a commit leaves the Sync itself alone.
theorem Scheduled.sync_mem {s s' s₁ : Store} {old : HomeObject} {before after : SyncStatus}
    (h : Scheduled s s' old before after s₁) (hs : Store.Sound s) : old ∈ s₁.objects := by
  obtain ⟨env, objects, hrun⟩ := h.entries
  have hget := hs.get_of_mem h.mem
  rw [h.kind, ← hrun.get_other (by decide) (by decide)] at hget
  exact Store.get_mem hget

theorem Captured.write {s : Store} {old : HomeObject} {before : SyncStatus}
    {objects : List HomeObject} {generation now : Int}
    (h : Captured s old before objects generation now) :
    Write s ⟨.Modified, rewritten s { old with
      status := .Sync (Sync.capturedStatus objects old before generation) }⟩ := by
  refine .Sync (.Planned old before _ h.mem h.kind h.status ?_
    (.Capture objects generation h.waiting))
  rw [h.waiting]
  exact SyncPhase.noConfusion

theorem Effect.trail {s s' : Store} (hs : Store.Sound s) (h : Effect s s') :
    ∃ evs, Store.Trail Write s evs s' := by
  cases h with
  | Writes h => exact ⟨_, h.mono fun _ _ hw => hw.1⟩
  | Capture h => exact ⟨_, .single h.write⟩
  | @Schedule _ s₁ old before after h =>
      obtain ⟨env, objects, hrun⟩ := h.entries
      obtain ⟨evs, hevs⟩ := entriesRun_trail hrun
      obtain rfl := h.final
      have hphase : before.phase ≠ .Scheduled := by
        rw [h.captured]
        exact SyncPhase.noConfusion
      exact ⟨evs ++ [_], hevs.append (.single (.Sync (.Planned old before after (h.sync_mem hs)
        h.kind h.status hphase h.move)))⟩

-- Only the commit of a plan creates Jobs of a Sync.
theorem Effect.cases_unsynced {s s' : Store} (h : Effect s s') :
    (∃ evs, Store.Trail (fun s ev => Write s ev ∧ Unsynced ev) s evs s') ∨
      ∃ old before after s₁, Scheduled s s' old before after s₁ := by
  cases h with
  | Writes h => exact .inl ⟨_, h.mono fun _ _ hw => ⟨hw.1, hw.2.unsynced⟩⟩
  | Capture h => exact .inl ⟨_, .single ⟨h.write, fun h => WatchType.noConfusion h⟩⟩
  | Schedule h => exact .inr ⟨_, _, _, _, h⟩

theorem revocation_some {objects : List HomeObject} {job : HomeObject} {now : Int} {message : Text}
    (h : Controllers.revocation objects job now = some message) :
    ∃ spec status, job.spec = .Job spec ∧ job.status = .Job status ∧ spec.nodeName = [] ∧
      status.phase = .Pending := by
  unfold Controllers.revocation at h
  split at h
  · next spec status hspec hstatus =>
      by_cases hopen : spec.nodeName ≠ [] ∨ status.phase ≠ .Pending
      · rw [if_pos hopen] at h
        cases h
      · push Not at hopen
        exact ⟨spec, status, hspec, hstatus, hopen.1, hopen.2⟩
  · cases h

theorem refuse_effect {past : List Store} {s view : Store} (h : Settled past s)
    (hview : view ∈ past) {job : HomeObject} (hjob : job ∈ view.objects)
    (objects : List HomeObject) (now : Int) :
    Effect s (Controllers.refuseJob s objects job now).2 := by
  unfold Controllers.refuseJob
  split
  · next message status hrevoked hstatus =>
      obtain ⟨spec, before, hspec, hbefore, hnode, hphase⟩ := revocation_some hrevoked
      rw [hstatus] at hbefore
      cases hbefore
      rcases patchStatus_from h hview hjob .Job (.Job { status with phase := .Refused, message })
        with hsame | ⟨hmem, hkind, hwrite⟩
      · simp only [Controllers.wrote, hsame]
        exact .done s
      · simp only [Controllers.wrote, hwrite]
        exact .update h.typed (.Job (.Refused job spec status message hmem hkind hspec hstatus hnode
          hphase)) (by simp [rewritten, hkind])
  · exact .done s

theorem drift_effect {past : List Store} {s view : Store} (h : Settled past s)
    (hview : view ∈ past) {title : HomeObject} (htitle : title ∈ view.objects) (disk : Disk)
    (root : Text) : Effect s (Controllers.flagDriftOne disk s root title).2 := by
  unfold Controllers.flagDriftOne
  split
  · next spec status hspec hstatus =>
      split
      · exact .done s
      dsimp only
      split
      · exact .done s
      rcases patchStatus_from h hview htitle .Title
        (.Title (Controllers.driftStatus disk root status)) with hsame | ⟨hmem, hkind, hwrite⟩
      · simp only [Controllers.wrote, hsame]
        exact .done s
      · simp only [Controllers.wrote, hwrite]
        exact .update h.typed (.Title (.Drifted title status disk root hmem hkind hstatus))
          (by simp [rewritten, hkind])
  · exact .done s

theorem settle_effect {s : Store} (hs : Store.Sound s) (ht : Typed s) (want : HomeObject)
    (found complete : Bool) : Effect s (Controllers.settleWant s want found complete).2 := by
  unfold Controllers.settleWant
  split
  · generalize (if found && complete then WantPhase.Satisfied else WantPhase.Open) = phase
    dsimp only
    split
    · exact .done s
    · exact otherStatus_effect hs ht _ (.Want { phase }) _ rfl rfl
  · exact .done s

theorem accept_effect {s : Store} (hs : Store.Sound s) (ht : Typed s) (cluster : HomeObject) :
    Effect s (Controllers.acceptCluster s cluster).2 := by
  unfold Controllers.acceptCluster
  split
  · split
    · exact .done s
    · exact otherStatus_effect hs ht _ _ _ rfl rfl
  · exact .done s

theorem fail_effect {s : Store} (ht : Typed s) (request : HomeObject) (message : Text) :
    Effect s (Sync.failRequest s request message).2 := by
  unfold Sync.failRequest
  split
  · exact .done s
  next latest hlatest =>
    have hmem := Store.get_mem hlatest
    have hkey := Store.get_key hlatest
    split
    · next status hstatus =>
        split
        · exact .done s
        next hover =>
          push Not at hover
          rcases patchStatus_cases ht .Sync latest.metadata.name
            (.Sync { status with phase := .Failed, message }) latest.metadata.resourceVersion with
            hsame | ⟨old, hold, -, hwrite⟩
          · simp only [Controllers.wrote, hsame]
            exact .done s
          · simp only [Controllers.wrote, hwrite]
            have hname : latest.metadata.name = request.metadata.name := congrArg Prod.snd hkey
            obtain rfl : latest = old := by
              rw [hname, hlatest] at hold
              exact Option.some.inj hold
            exact .single (.Sync (.Planned latest status _ hmem (congrArg Prod.fst hkey) hstatus
              hover.1 (.Fail message hover))) (.of_phase (fun h => WatchType.noConfusion h) rfl
                (.inr rfl))
    · exact .done s

theorem capture_effect {past : List Store} {s view : Store} (h : Settled past s)
    (hview : view ∈ past) {request : HomeObject} (hrequest : request ∈ view.objects)
    {status : SyncStatus} (hstatus : request.status = .Sync status)
    (hphase : status.phase = .WaitingInventory) (env : Env) {objects : List HomeObject}
    (hagrees : ∀ obj ∈ objects, obj.Agrees) (generation : Int) :
    Effect s (Sync.commitCapture env s objects request status generation).2 := by
  unfold Sync.commitCapture
  dsimp only
  split
  · exact .done s
  next current hfresh =>
    by_cases hcurrent : current = some generation
    · rw [if_neg (not_not.mpr hcurrent)]
      by_cases hlisted : (s.snapshot none).1.filter Sync.isListed = objects.filter Sync.isListed
      · rw [if_neg (not_not.mpr hlisted)]
        rcases patchStatus_from h hview hrequest .Sync
          (.Sync (Sync.capturedStatus objects request status generation)) with
          hsame | ⟨hmem, hkind, hwrite⟩
        · simp only [Controllers.wrote, hsame]
          exact .done s
        · simp only [Controllers.wrote, hwrite]
          exact .Capture ⟨hmem, hkind, hstatus, hphase, hfresh.trans (by rw [hcurrent]), hlisted,
            hagrees⟩
      · rw [if_pos hlisted]
        exact .done s
    · rw [if_pos hcurrent]
      exact .done s

theorem schedule_effect {past : List Store} {s view : Store} (h : Settled past s)
    (hview : view ∈ past) {request : HomeObject} (hrequest : request ∈ view.objects)
    {status : SyncStatus} (hstatus : request.status = .Sync status)
    (hphase : status.phase = .Captured) (env env' : Env) (objects : List HomeObject)
    (revision : Int) :
    Effect s (Sync.commitSchedule env' s revision request
      (Sync.plannedStatus env objects status)).2 := by
  unfold Sync.commitSchedule
  split
  · exact fail_effect h.typed request _
  simp only [Controllers.wrote]
  cases hres : s.scheduleSync revision
      (Sync.withSync request (Sync.plannedStatus env objects status)) env'.now with
  | mk result s' =>
      cases result with
      | error e =>
          obtain rfl := Store.transaction_error (Store.quiet_scheduleSyncTx _ _ _) hres
          exact .done s'
      | ok obj =>
          have hy := Store.transaction_ok (Store.quiet_scheduleSyncTx _ _ _) hres
          obtain ⟨stored, status', entries, s₁, -, hstored, hrv, -, hplanned, -, hrun, rfl, rfl⟩ :=
            Store.yields_scheduleSyncTx hy
          obtain ⟨hv, hsince⟩ := h.views view hview
          have hmem := Store.get_mem hstored
          obtain rfl := hsince.coherent hv hrequest hmem hrv
          have hkind : request.kind = .Sync := congrArg Prod.fst (Store.get_key hstored)
          have hversion := h.typed.version request hmem
          cases hplanned
          have hscheduled : Scheduled s _ request status { status with
              entries, phase := .Scheduled, message := Store.planningComplete } s₁ :=
            ⟨hmem, hkind, hstatus, hphase, ⟨env, objects, hrun⟩, rfl,
              .Commit _ _ hphase ⟨env, objects, s, s₁, hrun⟩,
              ⟨_, _, _, _, hres⟩, by
                simp only [HomeObject.row, Sync.withSync, Sync.plannedStatus, rewritten, hversion]⟩
          exact .Schedule hscheduled

theorem render_ne_nil (id : TitleId) : id.render ≠ [] := by
  simp [TitleId.render]

-- The two writes of `create_pull_job`: the Title if there is none, then the Job.
inductive Pulled (s : Store) (cluster : ClusterSpec) (id : TitleId) (remote : RemoteFileStatus)
    (placement : Placement) (authority : HomeObject) : Store → Prop where
  | Skipped : Pulled s cluster id remote placement authority s
  | Opened (habsent : s.get .Title id.render = none) :
      Pulled s cluster id remote placement authority
        (s.write (Store.scheduledTitle id.render (s.rv + 1)))
  | Queued (s₁ : Store) (destRel : Text)
      (htitle : s₁ = s ∨ (s.get .Title id.render = none ∧
        s₁ = s.write (Store.scheduledTitle id.render (s.rv + 1))))
      (hrender : PathSchema.render id placement = .ok destRel)
      (habsent : s₁.get .Job (SyncPlan.jobName id placement) = none)
      (hvalid : (HomeObject.new .Job (SyncPlan.jobName id placement)
        (.Job (Controllers.pullJob cluster id remote authority destRel))
        (StatusBody.empty .Job)).Valid) :
      Pulled s cluster id remote placement authority
        (s₁.write (Store.scheduledJob (SyncPlan.jobName id placement)
          (Controllers.pullJob cluster id remote authority destRel) (s₁.rv + 1)))

theorem openTitle_cases {s : Store} (hs : Store.Sound s) (id : TitleId) :
    (Controllers.openTitle s id.render).2 = s ∨ (s.get .Title id.render = none ∧
      (Controllers.openTitle s id.render).2 =
        s.write (Store.scheduledTitle id.render (s.rv + 1))) := by
  unfold Controllers.openTitle
  by_cases htitle : (s.get .Title id.render).isNone = true
  · rw [if_pos htitle]
    have hfree := Option.isNone_iff_eq_none.mp htitle
    rcases apply_cases hs (Controllers.newTitle id.render) (render_ne_nil id) with
      hsame | ⟨old, hold, -⟩ | ⟨-, hwrite⟩
    · exact .inl hsame
    · have hsome : s.get .Title id.render = some old := hold
      rw [hfree] at hsome
      cases hsome
    · exact .inr ⟨hfree, hwrite⟩
  · rw [if_neg htitle]
    exact .inl rfl

theorem queueJob_cases {s : Store} (hs : Store.Sound s) {name : Text} (spec : JobSpec)
    (habsent : s.get .Job name = none) :
    (Controllers.queueJob s name spec).2 = s ∨
      ((HomeObject.new .Job name (.Job spec) (StatusBody.empty .Job)).Valid ∧
        (Controllers.queueJob s name spec).2 =
          s.write (Store.scheduledJob name spec (s.rv + 1))) := by
  unfold Controllers.queueJob
  dsimp only
  split
  · exact .inl rfl
  next hvalidate =>
    have hvalid := HomeObject.validate_ok hvalidate
    rcases apply_cases hs (.new .Job name (.Job spec) (StatusBody.empty .Job)) hvalid.name with
      hsame | ⟨old, hold, -⟩ | ⟨-, hwrite⟩
    · exact .inl hsame
    · have hsome : s.get .Job name = some old := hold
      rw [habsent] at hsome
      cases hsome
    · exact .inr ⟨hvalid, hwrite⟩

theorem pull_cases {s : Store} (hs : Store.Sound s) (env : Env)
    (cluster : ClusterSpec) (id : TitleId) (remote : RemoteFileStatus) (placement : Placement)
    (snapshot : List HomeObject) (authority : HomeObject) :
    Pulled s cluster id remote placement authority
      (Controllers.createPullJob env s cluster id remote placement snapshot authority).2 := by
  unfold Controllers.createPullJob
  split
  · exact .Skipped
  dsimp only
  split
  · exact .Skipped
  split
  · exact .Skipped
  next destRel hrender =>
    split
    · exact .Skipped
    next habsent =>
      split
      · exact .Skipped
      have hnone := Option.not_isSome_iff_eq_none.mp habsent
      have hopened := openTitle_cases hs id
      generalize Controllers.openTitle s id.render = opened at hopened
      obtain ⟨result, s₁⟩ := opened
      -- The Title step leaves the Jobs alone.
      have hmid : Store.Sound s₁ ∧ s₁.get .Job (SyncPlan.jobName id placement) = none ∧
          (s₁ = s ∨ (s.get .Title id.render = none ∧
            s₁ = s.write (Store.scheduledTitle id.render (s.rv + 1)))) := by
        refine ⟨?_, ?_, hopened⟩
        · rcases hopened with rfl | ⟨hfree, rfl⟩
          · exact hs
          · exact hs.write (.Create (Store.created_scheduledTitle hfree))
        · rcases hopened with rfl | ⟨hfree, rfl⟩
          · exact hnone
          · rw [Store.get_write_of_ne (by simp [HomeObject.key, Store.scheduledTitle]), hnone]
      have hleft : Pulled s cluster id remote placement authority s₁ := by
        rcases hopened with rfl | ⟨hfree, rfl⟩
        · exact .Skipped
        · exact .Opened hfree
      obtain ⟨hs₁, hnone₁, htitle⟩ := hmid
      cases result with
      | error e => exact hleft
      | ok u =>
          change Pulled s cluster id remote placement authority
            (Controllers.queueJob s₁ (SyncPlan.jobName id placement) _).2
          rcases queueJob_cases hs₁ (Controllers.pullJob cluster id remote authority destRel)
            hnone₁ with hskip | ⟨hvalid, hjob⟩
          · rw [hskip]
            exact hleft
          · rw [hjob]
            exact .Queued s₁ destRel htitle hrender hnone₁ hvalid

theorem pull_effect {s : Store} (hs : Store.Sound s) (env : Env)
    (cluster : ClusterSpec) (id : TitleId) (remote : RemoteFileStatus) (placement : Placement)
    (snapshot : List HomeObject) (authority : HomeObject) :
    Effect s (Controllers.createPullJob env s cluster id remote placement snapshot authority).2 := by
  have hopen : s.get .Title id.render = none →
      Store.Trail (fun s ev => Write s ev ∧ Plain ev) s
        [Store.scheduledTitle id.render (s.rv + 1)]
        (s.write (Store.scheduledTitle id.render (s.rv + 1))) := fun habsent =>
    .single ⟨.Title (.Opened id.render habsent),
      .of_kind ⟨rfl, rfl⟩ Kind.noConfusion fun _ => rfl⟩
  have hpulled := pull_cases hs env cluster id remote placement snapshot authority
  generalize (Controllers.createPullJob env s cluster id remote placement snapshot authority).2 =
    s' at hpulled ⊢
  cases hpulled with
  | Skipped => exact .done s
  | Opened habsent => exact .Writes (hopen habsent) (.inl (Nat.le_refl 1))
  | Queued s₁ destRel htitle hrender habsent hvalid =>
      have hjob : Store.Trail (fun s ev => Write s ev ∧ Plain ev) s₁ _ _ :=
        .single ⟨.Job (.Created _ _ habsent hvalid rfl),
          .of_kind ⟨rfl, rfl⟩ Kind.noConfusion fun _ => rfl⟩
      rcases htitle with rfl | ⟨hnone, rfl⟩
      · exact .Writes hjob (.inl (Nat.le_refl 1))
      · refine .Writes ((hopen hnone).append hjob) (.inr fun ev hev => ?_)
        simp only [List.cons_append, List.nil_append, List.mem_cons, List.not_mem_nil, or_false] at hev
        rcases hev with rfl | rfl <;> rfl

theorem step_effect {past : List Store} {s s' : Store} (h : Settled past s)
    (step : Step past s s') : Effect s s' := by
  cases step with
  | Request env view hview actor request =>
      exact serve_effect h.sound h.typed env view actor request
  | Refuse now view hview job hjob => exact refuse_effect h hview hjob _ now
  | Drift disk root view hview title htitle => exact drift_effect h hview htitle disk root
  | PullWanted pass want titleId id remote =>
      unfold Controllers.wantRemote
      split
      · exact .done s
      split
      · exact .done s
      dsimp only
      split
      · exact .done s
      · exact pull_effect h.sound _ _ _ _ _ _ _
  | PullHeld pass hold =>
      unfold Controllers.reconcileHold
      split
      · repeat' split
        all_goals first
          | exact .done s
          | exact pull_effect h.sound _ _ _ _ _ _ _
      · exact .done s
  | SettleWant view hview want hwant found complete =>
      exact settle_effect h.sound h.typed want found complete
  | AcceptCluster view hview cluster hcluster => exact accept_effect h.sound h.typed cluster
  | Capture env view listed hview hlisted request hrequest status hstatus hphase generation =>
      refine capture_effect h hview hrequest hstatus hphase env (fun obj hobj => ?_) generation
      rw [(Store.snapshot_perm listed none).mem_iff] at hobj
      exact (h.typedViews listed hlisted).agrees obj (List.mem_of_mem_filter hobj)
  | Schedule env env' view listed hview hlisted request hrequest status hstatus hphase =>
      exact schedule_effect h hview hrequest hstatus hphase env env' _ _
  | Fail request message => exact fail_effect h.typed request message

-- Every state of a run is settled with respect to the states before it.
theorem Run.settled {s : Store} {past : List Store} (run : Run (s :: past)) :
    Settled (s :: past) s := by
  generalize htrace : s :: past = trace at run
  induction run generalizing s past with
  | Start =>
      obtain ⟨rfl, rfl⟩ := List.cons.inj htrace
      have hempty : Settled [] Store.empty :=
        ⟨Store.sound_empty, ⟨by simp [Store.empty], by simp [Store.empty]⟩, by simp, by simp⟩
      refine ⟨hempty.sound, hempty.typed, fun view hview => ?_, fun view hview => ?_⟩
      · obtain rfl := List.mem_singleton.mp hview
        exact ⟨hempty.sound, .refl _⟩
      · obtain rfl := List.mem_singleton.mp hview
        exact hempty.typed
  | @Next s₀ s' past₀ run step ih =>
      obtain ⟨rfl, rfl⟩ := List.cons.inj htrace
      have hbefore := ih rfl
      obtain ⟨evs, htrail⟩ := (step_effect hbefore step).trail hbefore.sound
      have hafter := hbefore.trail htrail
      refine ⟨hafter.sound, hafter.typed, fun view hview => ?_, fun view hview => ?_⟩
      · rcases List.mem_cons.mp hview with rfl | hview
        · exact ⟨hafter.sound, .refl _⟩
        · exact hafter.views view hview
      · rcases List.mem_cons.mp hview with rfl | hview
        · exact hafter.typed
        · exact hafter.typedViews view hview

theorem Run.typed_of_mem {s : Store} {past : List Store} (run : Run (s :: past)) {view : Store}
    (hview : view ∈ s :: past) : Typed view := run.settled.typedViews view hview

theorem Run.effect {s s' : Store} {past : List Store} (run : Run (s :: past))
    (step : Step (s :: past) s s') : Effect s s' := step_effect run.settled step

-- An invariant of the writes is an invariant of the runs.
theorem Run.trail_invariant {P : Store → Prop} (hstart : P Store.empty)
    (hwrite : ∀ s ev, Store.Sound s → Typed s → P s → Write s ev → P (s.write ev))
    {s : Store} {past : List Store} (run : Run (s :: past)) : P s := by
  refine Run.invariant hstart (fun {past s s'} run hp step => ?_) run s List.mem_cons_self
  obtain ⟨evs, htrail⟩ := (run.effect step).trail run.settled.sound
  have hfinal : Store.Sound s' ∧ Typed s' ∧ P s' := by
    refine htrail.preserves (P := fun s => Store.Sound s ∧ Typed s ∧ P s) ?_
      ⟨run.settled.sound, run.settled.typed, hp⟩
    rintro s ev ⟨hs, ht, hp⟩ hw
    exact ⟨hs.write (hw.change hs), ht.write hs hw, hwrite s ev hs ht hp hw⟩
  exact hfinal.2.2

section Follows

-- A relation that every rewrite of a row keeps relates all rows of one identity.
variable {R : HomeObject → HomeObject → Prop} (hrefl : ∀ a, R a a)
  (htrans : ∀ {a b c}, R a b → R b c → R a c)

include hrefl htrans

theorem trail_origin {W : Store → StoreEvent → Prop} (hwrites : ∀ s ev, W s ev → Write s ev)
    (hrewrite : ∀ s ev, Store.Sound s → Typed s → W s ev → ev.watch = .Modified →
      ∀ old ∈ s.objects, old.key = ev.object.key → R old ev.object) {s s' : Store}
    {evs : List StoreEvent} (hs : Store.Sound s) (ht : Typed s) (htrail : Store.Trail W s evs s')
    {b : HomeObject} (hb : b ∈ s'.objects) :
    (∃ prev ∈ s.objects, prev.kind = b.kind ∧ prev.metadata.uid = b.metadata.uid ∧ R prev b) ∨
      ∃ born, s.rv < born ∧ b.metadata.uid = uidOf b.kind born := by
  induction htrail with
  | Done s => exact .inl ⟨b, hb, rfl, rfl, hrefl b⟩
  | @Write s s' ev evs hev _ ih =>
      have hw := hwrites s ev hev
      have hc := hw.change hs
      rcases ih (hs.write hc) (ht.write hs hw) hb with ⟨mid, hmid, hkind, huid, hr⟩ | ⟨born, hlt, hborn⟩
      · rcases hs.mem_write hmid with ⟨hkept, rfl⟩ | ⟨hold, -⟩
        · cases hc with
          | Create hc =>
              exact .inr ⟨s.rv + 1, by omega, by rw [← huid, hc.uid, hkind]⟩
          | Update prev hc =>
              have hprev := Store.get_mem hc.found
              have hkey := Store.get_key hc.found
              refine .inl ⟨prev, hprev, (congrArg Prod.fst hkey).trans hkind, ?_, ?_⟩
              · rw [← huid, hc.uid (hs.uid_ne_nil hprev)]
              · exact htrans (hrewrite s ev hs ht hev hc.watch prev hprev hkey) hr
          | Remove prev hc => exact absurd hc.watch hkept
        · exact .inl ⟨mid, hold, hkind, huid, hr⟩
      · have hnext : (s.write ev).rv = s.rv + 1 := rfl
        exact .inr ⟨born, by omega, hborn⟩

-- The same, for a row that was there before: its identity was given out earlier.
theorem trail_follows {W : Store → StoreEvent → Prop} (hwrites : ∀ s ev, W s ev → Write s ev)
    (hrewrite : ∀ s ev, Store.Sound s → Typed s → W s ev → ev.watch = .Modified →
      ∀ old ∈ s.objects, old.key = ev.object.key → R old ev.object) {s s' : Store}
    {evs : List StoreEvent} (hs : Store.Sound s) (ht : Typed s) (htrail : Store.Trail W s evs s')
    {a b : HomeObject} (ha : a ∈ s.objects) (hb : b ∈ s'.objects) (hkind : a.kind = b.kind)
    (huid : a.metadata.uid = b.metadata.uid) : R a b := by
  rcases trail_origin hrefl htrans hwrites hrewrite hs ht htrail hb with
    ⟨prev, hprev, hk, hu, hr⟩ | ⟨born, hlt, hborn⟩
  · rwa [hs.uidsDistinct a ha prev hprev (hkind.trans hk.symm) (huid.trans hu.symm)]
  · obtain ⟨born', hpos, hle, hborn'⟩ := hs.uids a ha
    rw [hborn, hborn', hkind] at huid
    have := Store.uidOf_injective (by omega) (by omega) huid
    omega

theorem Run.follows (hrewrite : ∀ s ev, Store.Sound s → Typed s → Write s ev →
      ev.watch = .Modified → ∀ old ∈ s.objects, old.key = ev.object.key → R old ev.object)
    {s : Store} {past : List Store} (run : Run (s :: past)) {view : Store}
    (hview : view ∈ s :: past) {a b : HomeObject} (ha : a ∈ view.objects) (hb : b ∈ s.objects)
    (hkind : a.kind = b.kind) (huid : a.metadata.uid = b.metadata.uid) : R a b := by
  have hself : ∀ s, Store.Sound s → ∀ a ∈ s.objects, ∀ b ∈ s.objects, a.kind = b.kind →
      a.metadata.uid = b.metadata.uid → R a b := by
    intro s hs a ha b hb hkind huid
    rw [hs.uidsDistinct a ha b hb hkind huid]
    exact hrefl b
  generalize htrace : s :: past = trace at run hview
  induction run generalizing s past b with
  | Start =>
      obtain ⟨rfl, rfl⟩ := List.cons.inj htrace
      cases hb
  | @Next s₀ s' past₀ run step ih =>
      obtain ⟨rfl, rfl⟩ := List.cons.inj htrace
      rcases List.mem_cons.mp hview with rfl | hview
      · exact hself _ (Run.Next run step).settled.sound a ha b hb hkind huid
      have hbefore := run.settled
      obtain ⟨evs, htrail⟩ := (run.effect step).trail hbefore.sound
      rcases trail_origin hrefl htrans (fun _ _ hw => hw) hrewrite hbefore.sound hbefore.typed
        htrail hb with
        ⟨prev, hprev, hk, hu, hr⟩ | ⟨born, hlt, hborn⟩
      · exact htrans (ih hprev (hkind.trans hk.symm) (huid.trans hu.symm) rfl hview) hr
      · -- An identity given out by this step is later than any of an earlier state.
        obtain ⟨hv, hsince⟩ := hbefore.views view hview
        obtain ⟨born', hpos, hle, hborn'⟩ := hv.uids a ha
        have hcounter := hsince.counter
        rw [hborn, hborn', hkind] at huid
        have := Store.uidOf_injective (by omega) (by omega) huid
        omega

end Follows

end

end Mediaops.Api
