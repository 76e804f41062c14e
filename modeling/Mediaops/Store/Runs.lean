import Mediaops.Store.Theorems

namespace Mediaops.Store

-- Runs of the store: any number of calls, each with its own faults.

-- The arguments of a mutating call. A body is of its object's kind: a patch takes
-- the kind from its body, an object carries the agreement.
inductive Op where
  | Apply (obj : HomeObject) (agrees : obj.Agrees)
  | PatchStatus (name : Text) (status : StatusBody) (expectedRv : Int)
  | PatchSpec (name : Text) (spec : Spec) (expectedRv : Int)
  | Delete (kind : Kind) (name : Text) (expectedRv : Int)
  | ScheduleSync (expectedSnapshotRv : Int) (request : HomeObject) (agrees : request.Agrees)
      (now : Int)

structure Call where
  op : Op
  faults : List Bool := []

section

variable [UnicodeTables]

def Op.body : Op → StoreTx HomeObject
  | Apply obj _ => do
      let (written, _) ← applyTx obj
      pure written
  | PatchStatus name status expectedRv => patchStatusTx status.kind name status expectedRv
  | PatchSpec name spec expectedRv => patchSpecTx spec.kind name spec expectedRv
  | Delete kind name expectedRv => deleteTx kind name expectedRv
  | ScheduleSync expectedSnapshotRv request _ now => scheduleSyncTx expectedSnapshotRv request now

def exec (s : Store) (call : Call) : Except StoreError HomeObject × Store :=
  s.transaction call.faults call.op.body

def run (s : Store) (calls : List Call) : Store := calls.foldl (fun s call => (exec s call).2) s

theorem run_append (s : Store) (pre post : List Call) :
    run s (pre ++ post) = run (run s pre) post := List.foldl_append

theorem run_concat (s : Store) (pre : List Call) (call : Call) :
    run s (pre ++ [call]) = (exec (run s pre) call).2 := run_append s pre [call]

theorem quiet_body (op : Op) : Tx.Quiet op.body := by
  cases op with
  | Apply obj _ => exact (quiet_applyTx obj).bind fun _ => Tx.quiet_pure _
  | PatchStatus name status rv => exact quiet_patchStatusTx _ name status rv
  | PatchSpec name spec rv => exact quiet_patchSpecTx _ name spec rv
  | Delete kind name rv => exact quiet_deleteTx kind name rv
  | ScheduleSync rv request _ now => exact quiet_scheduleSyncTx rv request now

-- An apply is the same transaction whether its caller keeps the watch type or not.
theorem exec_error {s s' : Store} {call : Call} {e : StoreError}
    (h : exec s call = (.error e, s')) : s' = s := transaction_error (quiet_body call.op) h

theorem exec_ok {s s' : Store} {call : Call} {obj : HomeObject}
    (h : exec s call = (.ok obj, s')) : Tx.Yields call.op.body s obj s' :=
  transaction_ok (quiet_body call.op) h

end

-- A sequence of writes, each allowed in the state it starts from.
inductive Trail (allowed : Store → StoreEvent → Prop) :
    Store → List StoreEvent → Store → Prop where
  | Done (s : Store) : Trail allowed s [] s
  | Write {s s' : Store} {ev : StoreEvent} {evs : List StoreEvent} (hev : allowed s ev)
      (rest : Trail allowed (s.write ev) evs s') : Trail allowed s (ev :: evs) s'

namespace Trail

variable {allowed allowed' : Store → StoreEvent → Prop} {s s₁ s' : Store}
  {evs evs' : List StoreEvent}

theorem mono (hsub : ∀ s ev, allowed s ev → allowed' s ev) (h : Trail allowed s evs s') :
    Trail allowed' s evs s' := by
  induction h with
  | Done s => exact .Done s
  | Write hev _ ih => exact .Write (hsub _ _ hev) ih

theorem append (h : Trail allowed s evs s₁) (h' : Trail allowed s₁ evs' s') :
    Trail allowed s (evs ++ evs') s' := by
  induction h with
  | Done s => exact h'
  | Write hev _ ih => exact .Write hev (ih h')

theorem single {ev : StoreEvent} (hev : allowed s ev) : Trail allowed s [ev] (s.write ev) :=
  .Write hev (.Done _)

-- What one allowed write preserves, the sequence preserves.
theorem preserves {P : Store → Prop} (hstep : ∀ s ev, P s → allowed s ev → P (s.write ev))
    (h : Trail allowed s evs s') (hs : P s) : P s' := by
  induction h with
  | Done s => exact hs
  | Write hev _ ih => exact ih (hstep _ _ hs hev)

end Trail

-- The write takes the next revision.
def Fresh (s : Store) (ev : StoreEvent) : Prop := ev.revision = s.rv + 1

-- A row that was not there, with a new identity.
structure Created (s : Store) (ev : StoreEvent) : Prop where
  watch : ev.watch = .Added
  absent : s.get ev.object.kind ev.object.metadata.name = none
  uid : ev.object.metadata.uid = uidOf ev.object.kind (s.rv + 1)
  generation : ev.object.metadata.generation = 1
  revision : ev.revision = s.rv + 1

-- A row that was there, with its identity kept and its generation counting specs.
structure Updated (s : Store) (ev : StoreEvent) (prev : HomeObject) : Prop where
  watch : ev.watch = .Modified
  found : s.get ev.object.kind ev.object.metadata.name = some prev
  uid : prev.metadata.uid ≠ [] → ev.object.metadata.uid = prev.metadata.uid
  generation : ev.object.metadata.generation =
    if ev.object.spec = prev.spec then prev.metadata.generation else prev.metadata.generation + 1
  revision : ev.revision = s.rv + 1

structure Removed (s : Store) (ev : StoreEvent) (prev : HomeObject) : Prop where
  watch : ev.watch = .Deleted
  found : s.get ev.object.kind ev.object.metadata.name = some prev
  revision : ev.revision = s.rv + 1

-- Everything a write can be.
inductive Change (s : Store) (ev : StoreEvent) : Prop where
  | Create (h : Created s ev)
  | Update (prev : HomeObject) (h : Updated s ev prev)
  | Remove (prev : HomeObject) (h : Removed s ev prev)

theorem Change.fresh {s : Store} {ev : StoreEvent} (h : Change s ev) : Fresh s ev := by
  cases h with
  | Create h => exact h.revision
  | Update prev h => exact h.revision
  | Remove prev h => exact h.revision

theorem get_write_self {s : Store} {ev : StoreEvent} (hw : ev.watch ≠ .Deleted) :
    (s.write ev).get ev.object.kind ev.object.metadata.name = some ev.object := by
  obtain ⟨watch, obj⟩ := ev
  cases watch with
  | Deleted => exact absurd rfl hw
  | Added => exact Table.lookup_upsert_self obj s.objects
  | Modified => exact Table.lookup_upsert_self obj s.objects

theorem get_write_of_ne {s : Store} {ev : StoreEvent} {kind : Kind} {name : Text}
    (hne : ev.object.key ≠ (kind, name)) : (s.write ev).get kind name = s.get kind name := by
  obtain ⟨watch, obj⟩ := ev
  cases watch with
  | Added => exact Table.lookup_upsert_of_ne hne s.objects
  | Modified => exact Table.lookup_upsert_of_ne hne s.objects
  | Deleted => exact Table.lookup_erase_of_ne hne s.objects

theorem created_scheduledTitle {s : Store} {titleId : Text} (h : s.get .Title titleId = none) :
    Created s (scheduledTitle titleId (s.rv + 1)) := ⟨rfl, h, rfl, rfl, rfl⟩

theorem created_scheduledJob {s : Store} {name : Text} {spec : JobSpec}
    (h : s.get .Job name = none) : Created s (scheduledJob name spec (s.rv + 1)) :=
  ⟨rfl, h, rfl, rfl, rfl⟩

section

variable [UnicodeTables]

theorem EntryRun.trail {syncName : Text} {s s' : Store} {entry entry' : SyncEntry}
    (h : EntryRun syncName s entry entry' s') : ∃ evs, Trail Created s evs s' := by
  cases h with
  | Keep _ => exact ⟨[], .Done s⟩
  | Queue spec s₁ _ _ _ _ _ habsent _ htitle =>
      rcases htitle with ⟨-, rfl⟩ | ⟨hnone, rfl⟩
      · exact ⟨_, .single (created_scheduledJob habsent)⟩
      · have hjob : (s.write (scheduledTitle spec.titleId (s.rv + 1))).get .Job entry.jobName =
            none := by
          rw [get_write_of_ne (by simp [HomeObject.key, scheduledTitle]), habsent]
        exact ⟨_, .Write (created_scheduledTitle hnone) (.single (created_scheduledJob hjob))⟩

theorem EntriesRun.trail {syncName : Text} {s s' : Store} {entries entries' : List SyncEntry}
    (h : EntriesRun syncName s entries entries' s') : ∃ evs, Trail Created s evs s' := by
  induction h with
  | Done s => exact ⟨[], .Done s⟩
  | Step head _ ih =>
      obtain ⟨evs, hevs⟩ := head.trail
      obtain ⟨evs', hevs'⟩ := ih
      exact ⟨evs ++ evs', hevs.append hevs'⟩

-- The loop creates Jobs and Titles only.
theorem EntryRun.get_other {syncName : Text} {s s' : Store} {entry entry' : SyncEntry}
    (h : EntryRun syncName s entry entry' s') {kind : Kind} (hjob : kind ≠ .Job)
    (htitle : kind ≠ .Title) (name : Text) : s'.get kind name = s.get kind name := by
  cases h with
  | Keep _ => rfl
  | Queue spec s₁ _ _ _ _ _ _ _ hs₁ =>
      have hj : (scheduledJob entry.jobName spec (s₁.rv + 1)).object.key ≠ (kind, name) :=
        fun e => hjob (congrArg Prod.fst e).symm
      have ht : (scheduledTitle spec.titleId (s.rv + 1)).object.key ≠ (kind, name) :=
        fun e => htitle (congrArg Prod.fst e).symm
      rw [get_write_of_ne hj]
      rcases hs₁ with ⟨-, rfl⟩ | ⟨-, rfl⟩
      · rfl
      · rw [get_write_of_ne ht]

theorem EntriesRun.get_other {syncName : Text} {s s' : Store} {entries entries' : List SyncEntry}
    (h : EntriesRun syncName s entries entries' s') {kind : Kind} (hjob : kind ≠ .Job)
    (htitle : kind ≠ .Title) (name : Text) : s'.get kind name = s.get kind name := by
  induction h with
  | Done s => rfl
  | Step head _ ih => rw [ih, head.get_other hjob htitle]

end

-- The planner hands back the stored Sync with only its status changed.
def Op.Faithful (s : Store) : Op → Prop
  | ScheduleSync _ request _ _ => request.kind = .Sync ∧
      ∀ stored, s.get .Sync request.metadata.name = some stored →
        stored.metadata.resourceVersion = request.metadata.resourceVersion →
        request = { stored with status := request.status }
  | _ => True

-- One apply is one write: a create or an update.
theorem change_applyTx {arg obj : HomeObject} {watch : WatchType} {s s' : Store}
    (h : Tx.Yields (applyTx arg) s (obj, watch) s') :
    Change s ⟨watch, obj.row⟩ ∧ s' = s.write ⟨watch, obj.row⟩ := by
  obtain ⟨name, made, -, hover, rfl, hs'⟩ := yields_applyTx h
  refine ⟨?_, hs'⟩
  cases hget : s.get arg.kind name with
  | none =>
      rw [hget] at hover
      obtain ⟨rfl, -, -, rfl⟩ := applyOver_none hover
      exact .Create ⟨rfl, hget, rfl, rfl, rfl⟩
  | some prev =>
      rw [hget] at hover
      obtain ⟨rfl, -, rfl⟩ := applyOver_some hover
      refine .Update prev ⟨rfl, hget, fun hne => if_neg hne, ?_, rfl⟩
      simp only [HomeObject.row, ne_eq, ite_not]

-- A patch rewrites the row it read.
theorem change_modify {s s' : Store} {kind : Kind} {name : Text} {prev arg obj : HomeObject}
    (hprev : s.get kind name = some prev) (h : Tx.Yields (modify arg) s obj s')
    (hkey : arg.key = prev.key) (huid : arg.metadata.uid = prev.metadata.uid)
    (hgen : arg.metadata.generation =
      if arg.spec = prev.spec then prev.metadata.generation else prev.metadata.generation + 1) :
    Change s ⟨.Modified, obj.row⟩ ∧ s' = s.write ⟨.Modified, obj.row⟩ := by
  obtain ⟨rfl, rfl⟩ := yields_modify h
  have hfound : s.get arg.kind arg.metadata.name = some prev := by
    have hk := hkey.trans (get_key hprev)
    rw [(Prod.mk.inj hk).1, (Prod.mk.inj hk).2, hprev]
  exact ⟨.Update prev ⟨rfl, hfound, fun _ => huid, hgen, rfl⟩, rfl⟩

section

variable [UnicodeTables]

-- A schedule creates its rows and then rewrites the Sync.
theorem change_scheduled {s s' : Store} {rv now : Int} {request obj : HomeObject}
    {agrees : request.Agrees} (hf : (Op.ScheduleSync rv request agrees now).Faithful s)
    (h : Tx.Yields (scheduleSyncTx rv request now) s obj s') :
    ∃ evs s₁, Trail Created s evs s₁ ∧ Change s₁ ⟨.Modified, obj.row⟩ ∧
      s' = s₁.write ⟨.Modified, obj.row⟩ := by
  obtain ⟨stored, status, entries, s₁, -, hstored, hrv, -, -, -, hrun, rfl, rfl⟩ :=
    yields_scheduleSyncTx h
  obtain ⟨hkind, hreq⟩ := hf
  obtain ⟨evs, htrail⟩ := hrun.trail
  have hget : s₁.get .Sync request.metadata.name = some stored := by
    rw [hrun.get_other (by decide) (by decide), hstored]
  have heq := hreq stored hstored hrv
  refine ⟨evs, s₁, htrail, .Update stored ⟨rfl, ?_, fun _ => ?_, ?_, rfl⟩, rfl⟩
  · simpa only [HomeObject.row, hkind] using hget
  · rw [heq]; rfl
  · have hspec : request.spec = stored.spec := by rw [heq]
    have hgen : request.metadata.generation = stored.metadata.generation := by rw [heq]
    simp only [HomeObject.row, hspec, hgen, if_true]

-- A successful call creates some rows and then makes exactly one further change.
theorem body_shape {s s' : Store} {op : Op} {obj : HomeObject} (hf : op.Faithful s)
    (h : Tx.Yields op.body s obj s') :
    ∃ evs s₁ ev, Trail Created s evs s₁ ∧ Change s₁ ev ∧ s' = s₁.write ev := by
  cases op with
  | Apply arg _ =>
      obtain ⟨⟨written, watch⟩, s₁, ha, hp⟩ := Tx.yields_bind h
      obtain ⟨rfl, rfl⟩ := Tx.yields_pure hp
      obtain ⟨hchange, rfl⟩ := change_applyTx ha
      exact ⟨[], s, _, .Done s, hchange, rfl⟩
  | PatchStatus name status rv =>
      obtain ⟨prev, s₁, hg, hm⟩ := Tx.yields_bind h
      obtain ⟨hprev, -, rfl⟩ := yields_getExpected hg
      obtain ⟨hchange, rfl⟩ := change_modify hprev hm rfl rfl (by simp)
      exact ⟨[], s₁, _, .Done s₁, hchange, rfl⟩
  | PatchSpec name spec rv =>
      obtain ⟨prev, s₁, hg, hm⟩ := Tx.yields_bind h
      obtain ⟨hprev, -, rfl⟩ := yields_getExpected hg
      obtain ⟨hchange, rfl⟩ := change_modify hprev hm rfl rfl (by simp [eq_comm])
      exact ⟨[], s₁, _, .Done s₁, hchange, rfl⟩
  | Delete kind name rv =>
      obtain ⟨prev, hprev, -, rfl, rfl⟩ := yields_deleteTx h
      have hkey := get_key hprev
      refine ⟨[], s, _, .Done s, .Remove prev ⟨rfl, ?_, rfl⟩, rfl⟩
      have hk : prev.kind = kind := congrArg Prod.fst hkey
      have hn : prev.metadata.name = name := congrArg Prod.snd hkey
      simp only [HomeObject.row, hk, hn, hprev]
  | ScheduleSync rv request _ now =>
      obtain ⟨evs, s₁, htrail, hchange, rfl⟩ := change_scheduled hf h
      exact ⟨evs, s₁, _, htrail, hchange, rfl⟩

-- Whatever a caller passes, a successful call takes consecutive new revisions.
theorem body_fresh {s s' : Store} {op : Op} {obj : HomeObject} (h : Tx.Yields op.body s obj s') :
    ∃ evs, evs ≠ [] ∧ Trail Fresh s evs s' := by
  cases op with
  | ScheduleSync rv request agrees now =>
      obtain ⟨stored, status, entries, s₁, -, -, -, -, -, -, hrun, rfl, rfl⟩ :=
        yields_scheduleSyncTx h
      obtain ⟨evs, htrail⟩ := hrun.trail
      have hcreated := htrail.mono fun _ _ hc => (Change.Create hc).fresh
      exact ⟨evs ++ [_], by simp, hcreated.append (.single rfl)⟩
  | _ =>
      obtain ⟨evs, s₁, ev, htrail, hchange, rfl⟩ := body_shape (by exact trivial) h
      have hcreated := htrail.mono fun _ _ hc => (Change.Create hc).fresh
      exact ⟨evs ++ [ev], by simp, hcreated.append (.single hchange.fresh)⟩

end

end Mediaops.Store
