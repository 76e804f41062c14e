import Mediaops.Api.SyncAuthority
import Mediaops.Api.SyncPlan.Theorems
import Mathlib.Logic.Relation

namespace Mediaops.Api

-- The phases of a Sync, over every run of the control plane, and the one commit
-- that creates its Jobs.

open Relation SyncPlan

inductive Moves : SyncPhase → SyncPhase → Prop where
  | Capture : Moves .WaitingInventory .Captured
  | Commit : Moves .Captured .Scheduled
  | Fail {phase : SyncPhase} (hopen : phase ≠ .Scheduled ∧ phase ≠ .Failed) : Moves phase .Failed

theorem Moves.open_ {a b : SyncPhase} (h : Moves a b) : a ≠ .Scheduled ∧ a ≠ .Failed := by
  cases h with
  | Capture => exact ⟨SyncPhase.noConfusion, SyncPhase.noConfusion⟩
  | Commit => exact ⟨SyncPhase.noConfusion, SyncPhase.noConfusion⟩
  | Fail hopen => exact hopen

def Over (status : SyncStatus) : Prop := status.phase = .Scheduled ∨ status.phase = .Failed

-- What may happen to a Sync as long as it lives.
structure SyncProgress (a b : HomeObject) (before after : SyncStatus) : Prop where
  phase : ReflTransGen Moves before.phase after.phase
  kept : Over before → b = a
  entries : before.phase = .Captured → after.entries.map frozen = before.entries.map frozen

def SyncFollows (a b : HomeObject) : Prop :=
  ∀ before, a.status = .Sync before → ∃ after, b.status = .Sync after ∧
    SyncProgress a b before after

theorem SyncProgress.refl (a : HomeObject) (status : SyncStatus) :
    SyncProgress a a status status := ⟨.refl, fun _ => rfl, fun _ => rfl⟩

theorem SyncFollows.refl (a : HomeObject) : SyncFollows a a :=
  fun before h => ⟨before, h, .refl a before⟩

-- From a captured phase the machine stays there or ends.
theorem captured_reaches {phase : SyncPhase} (h : ReflTransGen Moves .Captured phase) :
    phase = .Captured ∨ phase = .Scheduled ∨ phase = .Failed := by
  induction h with
  | refl => exact .inl rfl
  | tail _ hmove ih =>
      cases hmove with
      | Capture => rcases ih with h | h | h <;> cases h
      | Commit => exact .inr (.inl rfl)
      | Fail hopen => exact .inr (.inr rfl)

theorem SyncFollows.trans {a b c : HomeObject} (h : SyncFollows a b) (h' : SyncFollows b c) :
    SyncFollows a c := by
  intro before hbefore
  obtain ⟨mid, hmid, hfirst⟩ := h before hbefore
  obtain ⟨after, hafter, hsecond⟩ := h' mid hmid
  refine ⟨after, hafter, hfirst.phase.trans hsecond.phase, fun hover => ?_, fun hcaptured => ?_⟩
  · obtain rfl := hfirst.kept hover
    rw [hbefore] at hmid
    cases hmid
    exact hsecond.kept hover
  · have hreach := hfirst.phase
    rw [hcaptured] at hreach
    rcases captured_reaches hreach with hstill | hdone
    · exact (hsecond.entries hstill).trans (hfirst.entries hcaptured)
    · obtain rfl := hsecond.kept hdone
      rw [hmid] at hafter
      cases hafter
      exact hfirst.entries hcaptured

theorem Agrees.sync_of_status {obj : HomeObject} (h : obj.Agrees) {status : SyncStatus}
    (hstatus : obj.status = .Sync status) : obj.kind = .Sync := by
  rw [← h.2, hstatus]
  rfl

-- The row of a plain write of a Sync that was there: it failed.
def Fails (a b : HomeObject) : Prop :=
  ∀ before, a.status = .Sync before → b = a ∨ ((before.phase ≠ .Scheduled ∧
    before.phase ≠ .Failed) ∧ ∃ after, b.status = .Sync after ∧ after.phase = .Failed)

theorem Fails.trans {a b c : HomeObject} (h : Fails a b) (h' : Fails b c) : Fails a c := by
  intro before hbefore
  rcases h before hbefore with rfl | ⟨hopen, mid, hmid, hfailed⟩
  · exact h' before hbefore
  · rcases h' mid hmid with rfl | ⟨hstill, -⟩
    · exact .inr ⟨hopen, mid, hmid, hfailed⟩
    · exact absurd hfailed hstill.2

section

variable [UnicodeTables]

theorem entriesRun_frozen {syncName : Text} {s s' : Store} {entries entries' : List SyncEntry}
    (h : Store.EntriesRun syncName s entries entries' s') :
    entries'.map frozen = entries.map frozen := by
  induction h with
  | Done s => rfl
  | Step head tail ih =>
      rw [List.map_cons, List.map_cons, ih]
      congr 1
      cases head with
      | Keep hkeep => rfl
      | Queue spec s₁ hqueue hjob => rfl

theorem evaluate_frozen (env : Env) (objects : List HomeObject) (entries : List SyncEntry) :
    (evaluate env objects entries).map frozen = entries.map frozen := by
  unfold evaluate
  rw [List.map_map]
  exact List.map_congr_left fun entry _ => (evaluateEntry_kept env objects entry).1

theorem SyncMove.moves {before after : SyncStatus} {request : HomeObject}
    (h : SyncMove before request after) : Moves before.phase after.phase := by
  cases h with
  | Fail message hopen => exact .Fail hopen
  | Capture objects generation hwaiting =>
      rw [hwaiting]
      exact .Capture
  | Commit entries message hcaptured =>
      rw [hcaptured]
      exact .Commit

theorem SyncMove.progress {before after : SyncStatus} {request row : HomeObject}
    (h : SyncMove before request after) : SyncProgress request row before after := by
  refine ⟨.single h.moves, fun hover => ?_, fun hcaptured => ?_⟩
  · rcases hover with hover | hover
    · exact absurd hover h.moves.open_.1
    · exact absurd hover h.moves.open_.2
  · cases h with
    | Fail message hopen => rfl
    | Capture objects generation hwaiting =>
        rw [hcaptured] at hwaiting
        cases hwaiting
    | Commit entries message _ hentries =>
        obtain ⟨env, objects, s, s₁, hrun⟩ := hentries
        exact (entriesRun_frozen hrun).trans (evaluate_frozen env objects before.entries)

theorem syncFollows_write {s : Store} {ev : StoreEvent} (hs : Store.Sound s) (ht : Typed s)
    (hw : Write s ev) (hmodified : ev.watch = .Modified) {prev : HomeObject}
    (hprev : prev ∈ s.objects) (hkey : prev.key = ev.object.key) : SyncFollows prev ev.object := by
  intro before hbefore
  have hkind : ev.object.kind = .Sync :=
    (congrArg Prod.fst hkey).symm.trans (Agrees.sync_of_status (ht.agrees prev hprev) hbefore)
  cases hw.sync hkind with
  | Accepted obj status => cases hmodified
  | Planned old before' after hold _ hstatus _ hmove =>
      obtain rfl : prev = old := Table.eq_of_key_eq hs.keyed hprev hold hkey
      rw [hbefore] at hstatus
      cases hstatus
      exact ⟨after, rfl, hmove.progress⟩
  | Deleted old hold => cases hmodified

theorem fails_write {s : Store} {ev : StoreEvent} (hs : Store.Sound s) (ht : Typed s)
    (hw : Write s ev) (hp : Plain ev) (hmodified : ev.watch = .Modified) {prev : HomeObject}
    (hprev : prev ∈ s.objects) (hkey : prev.key = ev.object.key) : Fails prev ev.object := by
  intro before hbefore
  have hkind : ev.object.kind = .Sync :=
    (congrArg Prod.fst hkey).symm.trans (Agrees.sync_of_status (ht.agrees prev hprev) hbefore)
  have hkept : ev.watch ≠ .Deleted := by
    rw [hmodified]
    exact WatchType.noConfusion
  cases hw.sync hkind with
  | Accepted obj status => cases hmodified
  | Planned old before' after hold _ hstatus _ hmove =>
      obtain rfl : prev = old := Table.eq_of_key_eq hs.keyed hprev hold hkey
      rw [hbefore] at hstatus
      cases hstatus
      cases hmove with
      | Fail message hopen => exact .inr ⟨hopen, _, rfl, rfl⟩
      | Capture objects generation _ => exact absurd rfl (hp.uncaptured hkept _ rfl)
      | Commit entries message _ _ => exact absurd rfl (hp.unscheduled hkept _ rfl)
  | Deleted old hold => cases hmodified

-- The loop of a commit creates Jobs and Titles and nothing else.
theorem entriesRun_sync {syncName : Text} {s s₁ : Store} {entries entries' : List SyncEntry}
    (h : Store.EntriesRun syncName s entries entries' s₁) (hs₁ : Store.Sound s₁) {b : HomeObject}
    (hb : b ∈ s₁.objects) (hkind : b.kind = .Sync) : b ∈ s.objects := by
  have hget := hs₁.get_of_mem hb
  rw [hkind, h.get_other (by decide) (by decide)] at hget
  exact Store.get_mem hget

theorem Scheduled.mid_sound {s s' s₁ : Store} {old : HomeObject} {before after : SyncStatus}
    (h : Scheduled s s' old before after s₁) (hs : Store.Sound s) (ht : Typed s) :
    Store.Sound s₁ := by
  obtain ⟨env, objects, hrun⟩ := h.entries
  obtain ⟨evs, htrail⟩ := entriesRun_trail hrun
  have hmid : Settled [] s₁ := Settled.trail ⟨hs, ht, by simp, by simp⟩ htrail
  exact hmid.sound

-- One step leaves a Sync alone or moves it along one edge of the machine; the last
-- edge is the commit of its plan.
theorem sync_step {s s' : Store} (hs : Store.Sound s) (ht : Typed s) (h : Effect s s')
    {a b : HomeObject} (ha : a ∈ s.objects) (hb : b ∈ s'.objects) (hkind : b.kind = .Sync)
    (hkinds : a.kind = b.kind) (huid : a.metadata.uid = b.metadata.uid) {before : SyncStatus}
    (hbefore : a.status = .Sync before) :
    b = a ∨ ∃ after, b.status = .Sync after ∧ Moves before.phase after.phase ∧
      (after.phase = .Scheduled → ∃ s₁, Scheduled s s' a before after s₁) := by
  have hrow : ∀ old ∈ s.objects, old.kind = .Sync → old.metadata.uid = b.metadata.uid → a = old :=
    fun old hold hk hu => hs.uidsDistinct a ha old hold (hkinds.trans (hkind.trans hk.symm))
      (huid.trans hu.symm)
  cases h with
  | Writes htrail =>
      have hfails := trail_follows (R := Fails) (fun a before hstatus => .inl rfl) Fails.trans
        (fun _ _ hw => hw.1)
        (fun _ _ hs ht hw hm _ hold hkey => fails_write hs ht hw.1 hw.2 hm hold hkey)
        hs ht htrail ha hb hkinds huid
      rcases hfails before hbefore with heq | ⟨hopen, after, hafter, hfailed⟩
      · exact .inl heq
      · refine .inr ⟨after, hafter, by rw [hfailed]; exact .Fail hopen, fun hscheduled => ?_⟩
        cases hfailed.symm.trans hscheduled
  | @Capture old prev objects generation now h =>
      rcases hs.mem_write hb with ⟨-, rfl⟩ | ⟨hold, -⟩
      · obtain rfl := hrow old h.mem h.kind rfl
        rw [h.status] at hbefore
        cases hbefore
        refine .inr ⟨_, rfl, ?_, fun hscheduled => ?_⟩
        · rw [h.waiting]
          exact .Capture
        · cases hscheduled
      · exact .inl (hrow b hold hkind rfl).symm
  | @Schedule _ s₁ old prev after h =>
      have hs₁ := h.mid_sound hs ht
      obtain ⟨env, objects, hrun⟩ := h.entries
      rw [h.final] at hb
      rcases hs₁.mem_write hb with ⟨-, rfl⟩ | ⟨hold, -⟩
      · obtain rfl := hrow old h.mem h.kind rfl
        rw [h.status] at hbefore
        cases hbefore
        exact .inr ⟨after, rfl, h.move.moves, fun _ => ⟨s₁, h⟩⟩
      · exact .inl (hrow b (entriesRun_sync hrun hs₁ hold hkind) hkind rfl).symm

-- A captured plan has queued nothing yet.
def PlansOpen (s : Store) : Prop :=
  ∀ sync ∈ s.objects, ∀ status, sync.status = .Sync status → status.phase = .Captured →
    ∀ entry ∈ status.entries, entry.disposition ≠ .Queued

theorem plansOpen_write {s : Store} {ev : StoreEvent} (hs : Store.Sound s) (ht : Typed s)
    (hplans : PlansOpen s) (hw : Write s ev) : PlansOpen (s.write ev) := by
  intro sync hsync status hstatus hphase entry hentry
  rcases hs.mem_write hsync with ⟨hkept, rfl⟩ | ⟨hold, -⟩
  · cases hw.sync (Agrees.sync_of_status (hw.typed ht).1 hstatus) with
    | Accepted obj status' _ _ _ _ _ _ _ _ hstatus' hwaiting =>
        have hsame : obj.status = .Sync status := hstatus
        rw [hstatus'] at hsame
        cases hsame
        rw [hwaiting] at hphase
        cases hphase
    | Planned old before after hold _ _ _ hmove =>
        cases hstatus
        cases hmove with
        | Fail message hopen => cases hphase
        | Capture objects generation _ =>
            unfold Sync.capturedStatus at hentry
            dsimp only at hentry
            exact capture_unqueued hentry
        | Commit entries message _ _ => cases hphase
    | Deleted old hold => exact absurd rfl hkept
  · exact hplans sync hold status hstatus hphase entry hentry

theorem Run.plansOpen {s : Store} {past : List Store} (run : Run (s :: past)) : PlansOpen s :=
  run.trail_invariant (P := PlansOpen) (by intro sync hsync; cases hsync)
    fun _ _ hs ht hplans hw => plansOpen_write hs ht hplans hw

-- The Job was not there before the step.
def Fresh (s : Store) (job : HomeObject) : Prop :=
  ∀ prev ∈ s.objects, prev.kind = .Job → prev.metadata.uid ≠ job.metadata.uid

-- The Job of a queued entry.
def JobOf (syncName : Text) (entry : SyncEntry) (job : HomeObject) : Prop :=
  job.kind = .Job ∧ job.metadata.name = entry.jobName ∧ job.metadata.uid = entry.jobUid ∧
    ∃ spec, job.spec = .Job spec ∧ entry.job = some spec ∧ spec.syncName = syncName

-- The Jobs of one commit are those of its queued entries, one for each.
structure Commits (s s' : Store) (syncName : Text) (entries : List SyncEntry) : Prop where
  sound : ∀ entry ∈ entries, entry.disposition = .Queued →
    ∃ job ∈ s'.objects, Fresh s job ∧ JobOf syncName entry job
  complete : ∀ job ∈ s'.objects, Admission.isSyncJob job.spec = true → Fresh s job →
    ∃ entry ∈ entries, entry.disposition = .Queued ∧ JobOf syncName entry job
  once : (entries.filter fun entry => entry.disposition = .Queued).Pairwise
    fun a b => a.jobUid ≠ b.jobUid

-- What the loop of a commit leaves for a queued entry: a Job under a revision of
-- the commit's own.
theorem entriesRun_queued {syncName : Text} {s s' : Store} {entries entries' : List SyncEntry}
    (hs : Store.Sound s) (h : Store.EntriesRun syncName s entries entries' s')
    (hopen : ∀ entry ∈ entries, entry.disposition ≠ .Queued) {entry : SyncEntry}
    (hentry : entry ∈ entries') (hqueued : entry.disposition = .Queued) :
    ∃ born spec, s.rv < born ∧ entry.jobUid = uidOf .Job born ∧ entry.job = some spec ∧
      spec.syncName = syncName ∧ (Store.scheduledJob entry.jobName spec born).object ∈ s'.objects := by
  induction h with
  | Done s => cases hentry
  | @Step s s₁ s' head head' rest rest' hhead htail ih =>
      obtain ⟨evs, htrail⟩ := hhead.trail
      obtain ⟨evs', htrail'⟩ := htail.trail
      have hgrown := htrail.grown hs
      have hgrown' := htrail'.grown hgrown.sound
      rcases List.mem_cons.mp hentry with rfl | hentry
      · cases hhead with
        | Keep _ => exact absurd hqueued (hopen entry List.mem_cons_self)
        | Queue spec s₂ _ hjob hsync _ _ _ _ htitle =>
            have hcounter : s.rv ≤ s₂.rv := by
              rcases htitle with ⟨-, rfl⟩ | ⟨-, rfl⟩
              · exact le_refl _
              · exact Int.le_add_one (le_refl _)
            refine ⟨s₂.rv + 1, spec, by omega, rfl, hjob, hsync, hgrown'.kept _ ?_⟩
            exact Store.Sound.mem_write_self WatchType.noConfusion
      · obtain ⟨born, spec, hborn, hrest⟩ :=
          ih hgrown.sound (fun e he => hopen e (List.mem_cons_of_mem _ he)) hentry
        have hcounter := hgrown.counter
        exact ⟨born, spec, by omega, hrest⟩

theorem entriesRun_once {syncName : Text} {s s' : Store} {entries entries' : List SyncEntry}
    (hs : Store.Sound s) (h : Store.EntriesRun syncName s entries entries' s')
    (hopen : ∀ entry ∈ entries, entry.disposition ≠ .Queued) :
    (entries'.filter fun entry => entry.disposition = .Queued).Pairwise
      fun a b => a.jobUid ≠ b.jobUid := by
  induction h with
  | Done s => exact .nil
  | @Step s s₁ s' head head' rest rest' hhead htail ih =>
      obtain ⟨evs, htrail⟩ := hhead.trail
      have hgrown := htrail.grown hs
      have hrest := ih hgrown.sound fun e he => hopen e (List.mem_cons_of_mem _ he)
      by_cases hqueued : head'.disposition = .Queued
      · rw [List.filter_cons_of_pos (by simpa using hqueued)]
        refine .cons (fun other hother huid => ?_) hrest
        obtain ⟨hmem, hotherQueued⟩ := List.mem_filter.mp hother
        obtain ⟨born, -, hborn, huid', -⟩ := entriesRun_queued hgrown.sound htail
          (fun e he => hopen e (List.mem_cons_of_mem _ he)) hmem (by simpa using hotherQueued)
        cases hhead with
        | Keep _ => exact hopen _ List.mem_cons_self hqueued
        | Queue spec s₂ =>
            have hlast : (s₂.write (Store.scheduledJob head.jobName spec (s₂.rv + 1))).rv =
                s₂.rv + 1 := rfl
            have huids : uidOf .Job (s₂.rv + 1) = uidOf .Job born := huid.trans huid'
            have hcounter := hgrown.sound.counter
            have := Store.uidOf_injective (by omega) (by omega) huids
            omega
      · rw [List.filter_cons_of_neg (by simpa using hqueued)]
        exact hrest

theorem Scheduled.commits {s s' s₁ : Store} {old : HomeObject} {before after : SyncStatus}
    (hs : Store.Sound s) (ht : Typed s) (hplans : PlansOpen s)
    (h : Scheduled s s' old before after s₁) : Commits s s' old.metadata.name after.entries := by
  obtain ⟨env, objects, hrun⟩ := h.entries
  have hs₁ := h.mid_sound hs ht
  have hopen : ∀ entry ∈ evaluate env objects before.entries, entry.disposition ≠ .Queued := by
    intro entry hentry
    obtain ⟨e, he, rfl⟩ := List.mem_map.mp hentry
    exact (evaluateEntry_kept env objects e).2 (hplans old h.mem before h.status h.captured e he)
  have hsyncKey : (rewritten s₁ { old with status := .Sync after }).kind = .Sync := h.kind
  refine ⟨fun entry hentry hqueued => ?_, fun job hjob hsync hfresh => ?_,
    entriesRun_once hs hrun hopen⟩
  · obtain ⟨born, spec, hborn, huid, hspec, hname, hmem⟩ :=
      entriesRun_queued hs hrun hopen hentry hqueued
    refine ⟨(Store.scheduledJob entry.jobName spec born).object, ?_,
      fun prev hprev hkind huid' => ?_, rfl, rfl, huid.symm, spec, rfl, hspec, hname⟩
    · rw [h.final]
      refine hs₁.mem_write_of_ne hmem fun hkey => ?_
      cases (congrArg Prod.fst hkey).trans hsyncKey
    · obtain ⟨first, hpos, hle, hfirst⟩ := hs.uids prev hprev
      rw [hfirst, hkind] at huid'
      have := Store.uidOf_injective (by omega) (by omega) huid'
      omega
  · obtain ⟨spec, hspec⟩ : ∃ spec, job.spec = .Job spec := by
      cases hbody : job.spec with
      | Job spec => exact ⟨spec, rfl⟩
      | _ =>
          rw [hbody] at hsync
          cases hsync
    have hmem : job ∈ s₁.objects := by
      rw [h.final] at hjob
      rcases hs₁.mem_write hjob with ⟨-, rfl⟩ | ⟨hold, -⟩
      · have hagrees := (ht.agrees old h.mem).1
        have hjobSpec : old.spec = .Job spec := hspec
        rw [hjobSpec, h.kind] at hagrees
        cases hagrees
      · exact hold
    obtain ⟨evs, htrail⟩ := entriesRun_trail hrun
    have hmid : Settled [] s₁ := Settled.trail ⟨hs, ht, by simp, by simp⟩ htrail
    have hkind := Agrees.job_of_spec (hmid.typed.agrees job hmem) hspec
    rcases entriesRun_jobs hs ht hrun hmem hspec with
      hold | ⟨hname, entry, hentry, hqueued, hn, hu, hj⟩
    · exact absurd rfl (hfresh job hold hkind)
    · exact ⟨entry, hentry, hqueued, hkind, hn.symm, hu.symm, spec, hspec, hj, hname⟩

-- Between any two states of a run a Sync of one identity only moves forward: once
-- scheduled or failed it stays as it is, once captured its entries stay what they
-- are about. One step makes at most one move. A Job of a Sync comes into being only
-- in the step that schedules its Sync, which was not scheduled before, and that step
-- creates one Job for each entry that it queues.
theorem sync_phases {s : Store} {past : List Store} (run : Run (s :: past)) :
    (∀ view ∈ s :: past, ∀ a ∈ view.objects, ∀ b ∈ s.objects, a.kind = .Sync → b.kind = .Sync →
      a.metadata.uid = b.metadata.uid → ∃ before after, a.status = .Sync before ∧
        b.status = .Sync after ∧ SyncProgress a b before after) ∧
    (∀ s', Step (s :: past) s s' →
      (∀ a ∈ s.objects, ∀ b ∈ s'.objects, a.kind = .Sync → b.kind = .Sync →
        a.metadata.uid = b.metadata.uid → b = a ∨ ∃ before after, a.status = .Sync before ∧
          b.status = .Sync after ∧ Moves before.phase after.phase ∧
          (after.phase = .Scheduled → Commits s s' a.metadata.name after.entries)) ∧
      (∀ job ∈ s'.objects, ∀ spec, job.spec = .Job spec → spec.syncName ≠ [] → Fresh s job →
        ∃ a ∈ s.objects, ∃ b ∈ s'.objects, a.key = (.Sync, spec.syncName) ∧
          b.metadata.uid = a.metadata.uid ∧ ∃ before after, a.status = .Sync before ∧
            b.status = .Sync after ∧ before.phase = .Captured ∧ after.phase = .Scheduled ∧
            Commits s s' spec.syncName after.entries ∧
            ∀ view ∈ s :: past, ∀ c ∈ view.objects, c.kind = .Sync →
              c.metadata.uid = a.metadata.uid → ∀ status, c.status = .Sync status →
                ¬Over status)) := by
  have hsettled := run.settled
  have hfollows : ∀ view ∈ s :: past, ∀ a ∈ view.objects, ∀ b ∈ s.objects, a.kind = .Sync →
      b.kind = .Sync → a.metadata.uid = b.metadata.uid → SyncFollows a b :=
    fun view hview a ha b hb hka hkb huid => run.follows (R := SyncFollows) .refl .trans
      (fun _ _ hs ht hw hm _ hold hkey => syncFollows_write hs ht hw hm hold hkey)
      hview ha hb (hka.trans hkb.symm) huid
  refine ⟨fun view hview a ha b hb hka hkb huid => ?_, fun s' step => ⟨?_, ?_⟩⟩
  · obtain ⟨before, hbefore⟩ := statusOf_sync (run.typed_of_mem hview |>.agrees a ha) hka
    obtain ⟨after, hafter, hprogress⟩ := hfollows view hview a ha b hb hka hkb huid before hbefore
    exact ⟨before, after, hbefore, hafter, hprogress⟩
  · intro a ha b hb hka hkb huid
    obtain ⟨before, hbefore⟩ := statusOf_sync (hsettled.typed.agrees a ha) hka
    have heffect := run.effect step
    rcases sync_step hsettled.sound hsettled.typed heffect ha hb hkb (hka.trans hkb.symm) huid
      hbefore with heq | ⟨after, hafter, hmoves, hcommit⟩
    · exact .inl heq
    · refine .inr ⟨before, after, hbefore, hafter, hmoves, fun hscheduled => ?_⟩
      obtain ⟨s₁, h⟩ := hcommit hscheduled
      exact h.commits hsettled.sound hsettled.typed run.plansOpen
  · intro job hjob spec hspec hsync hfresh
    have hsyncJob : Admission.isSyncJob job.spec = true := by
      rw [hspec]
      simpa [Admission.isSyncJob] using hsync
    rcases (run.effect step).cases_unsynced with ⟨evs, htrail⟩ | ⟨old, before, after, s₁, h⟩
    · obtain ⟨prev, hprev, hkind, huid, -⟩ :=
        syncJob_origin hsettled.sound hsettled.typed htrail hjob hsyncJob
      exact absurd huid (hfresh prev hprev hkind)
    · have hcommits := h.commits hsettled.sound hsettled.typed run.plansOpen
      obtain ⟨entry, -, -, hof⟩ := hcommits.complete job hjob hsyncJob hfresh
      obtain ⟨-, -, -, spec', hspec', -, hname⟩ := hof
      rw [hspec] at hspec'
      cases hspec'
      have hnew : rewritten s₁ { old with status := .Sync after } ∈ s'.objects := by
        rw [h.final]
        exact Store.Sound.mem_write_self WatchType.noConfusion
      refine ⟨old, h.mem, _, hnew, Prod.ext h.kind hname.symm, rfl, before, after, h.status, rfl,
        h.captured, h.phase, hname ▸ hcommits, ?_⟩
      intro view hview c hc hkind huid status hstatus hover
      obtain ⟨now, hnow, hprogress⟩ :=
        hfollows view hview c hc old h.mem hkind h.kind huid status hstatus
      obtain rfl := hprogress.kept hover
      rw [h.status] at hstatus
      cases hstatus
      rcases hover with hover | hover <;> cases h.captured.symm.trans hover

end

def isScheduled : StatusBody → Bool
  | .Sync status => status.phase = .Scheduled &&
      status.entries.any fun entry => entry.disposition = .Queued
  | _ => false

-- The request `evening`, scheduled with its one Job.
theorem sync_phases_evening :
    let := UnicodeTables.ascii
    ∃ past, Run (Sample.scheduled :: past) ∧
      (∃ sync ∈ Sample.scheduled.objects, isScheduled sync.status = true) ∧
      ∀ view ∈ Sample.scheduled :: past, ∀ a ∈ view.objects, ∀ b ∈ Sample.scheduled.objects,
        a.kind = .Sync → b.kind = .Sync → a.metadata.uid = b.metadata.uid →
          ∃ before after, a.status = .Sync before ∧ b.status = .Sync after ∧
            SyncProgress a b before after := by
  intro _
  obtain ⟨past, run, -⟩ := Sample.scheduled_reaches
  exact ⟨past, run, by decide +kernel, (sync_phases run).1⟩

end Mediaops.Api
