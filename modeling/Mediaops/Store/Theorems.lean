import Mediaops.Store

namespace Mediaops

-- What each operation of the store does when it succeeds. Every change of the
-- store is a sequence of writes: one row put or removed under the next revision,
-- with its event.

def StoreEvent.change (ev : StoreEvent) : Journal.Change HomeObject :=
  match ev.watch with
  | .Added | .Modified => .Put ev.object
  | .Deleted => .Remove ev.object

theorem StoreEvent.row_change (ev : StoreEvent) : ev.change.row = ev.object := by
  obtain ⟨watch, obj⟩ := ev
  cases watch <;> rfl

namespace Store

def write (s : Store) (ev : StoreEvent) : Store where
  objects := Journal.applyChange HomeObject.key s.objects ev.change
  rv := s.rv + 1
  floor := max s.floor (s.rv + 1 - watchHistoryLimit)
  history := (s.history ++ [ev]).filter fun old => s.rv + 1 - watchHistoryLimit < old.revision

theorem yields_getObject {kind : Kind} {name : Text} {s s' : Store} {found : Option HomeObject}
    (h : Tx.Yields (getObject kind name) s found s') : found = s.get kind name ∧ s' = s :=
  Tx.yields_read (Tx.yields_statement_bind h)

theorem yields_currentRevision {s s' : Store} {rv : Int}
    (h : Tx.Yields currentRevision s rv s') : rv = s.rv ∧ s' = s :=
  Tx.yields_read (Tx.yields_statement_bind h)

theorem yields_nextRv {s s' : Store} {rv : Int} (h : Tx.Yields nextRv s rv s') :
    rv = s.rv + 1 ∧ s.rv + 1 ≤ i64Max ∧ s' = { s with rv := s.rv + 1 } := by
  have hu := Tx.yields_update_bind (Tx.yields_statement_bind h)
  obtain ⟨rv', s₁, hr, hg⟩ := Tx.yields_bind hu
  obtain ⟨rfl, rfl⟩ := yields_currentRevision hr
  obtain ⟨hmax, hp⟩ := Tx.yields_guard hg
  obtain ⟨rfl, rfl⟩ := Tx.yields_pure hp
  exact ⟨rfl, not_lt.mp hmax, rfl⟩

theorem yields_upsert {obj : HomeObject} {s s' : Store} {u : Unit}
    (h : Tx.Yields (upsert obj) s u s') :
    s' = { s with objects := Table.upsert HomeObject.key obj.row s.objects } :=
  Tx.yields_update (Tx.yields_statement_bind h)

theorem yields_remove {kind : Kind} {name : Text} {s s' : Store} {u : Unit}
    (h : Tx.Yields (remove kind name) s u s') :
    s' = { s with objects := Table.erase HomeObject.key (kind, name) s.objects } :=
  Tx.yields_update (Tx.yields_statement_bind h)

theorem yields_recordEvent {obj : HomeObject} {watch : WatchType} {s s' : Store} {u : Unit}
    (h : Tx.Yields (recordEvent obj watch) s u s') :
    s' = { s with
      history := (s.history ++ [StoreEvent.mk watch obj.row]).filter fun old =>
        obj.metadata.resourceVersion - watchHistoryLimit < old.revision
      floor := max s.floor (obj.metadata.resourceVersion - watchHistoryLimit) } := by
  have hg := Tx.yields_read_bind (Tx.yields_statement_bind h)
  have hi := Tx.yields_update_bind (Tx.yields_guard hg).2
  have hd := Tx.yields_update_bind (Tx.yields_statement_bind hi)
  exact Tx.yields_update (Tx.yields_statement_bind hd)

-- The common tail of every operation that puts a row.
private theorem put_write {obj : HomeObject} {watch : WatchType} {s s₂ s₃ s' : Store} {u u' : Unit}
    (hw : watch ≠ .Deleted) (hrv : obj.metadata.resourceVersion = s.rv + 1)
    (hs : s₂ = { s with rv := s.rv + 1 }) (hu : Tx.Yields (upsert obj) s₂ u s₃)
    (hr : Tx.Yields (recordEvent obj watch) s₃ u' s') : s' = s.write ⟨watch, obj.row⟩ := by
  obtain rfl := yields_upsert hu
  obtain rfl := yields_recordEvent hr
  subst hs
  cases watch with
  | Deleted => exact absurd rfl hw
  | Added => simp only [write, StoreEvent.change, Journal.applyChange, hrv]
  | Modified => simp only [write, StoreEvent.change, Journal.applyChange, hrv]

theorem yields_getExpected {kind : Kind} {name : Text} {expectedRv : Int} {s s' : Store}
    {obj : HomeObject} (h : Tx.Yields (getExpected kind name expectedRv) s obj s') :
    s.get kind name = some obj ∧ expectedRv = obj.metadata.resourceVersion ∧ s' = s := by
  obtain ⟨found, s₁, hg, hm⟩ := Tx.yields_bind h
  obtain ⟨hfound, rfl⟩ := yields_getObject hg
  cases found with
  | none => exact absurd hm Tx.not_yields_throw
  | some prev =>
      obtain ⟨hrv, hp⟩ := Tx.yields_guard hm
      obtain ⟨rfl, rfl⟩ := Tx.yields_pure hp
      exact ⟨hfound.symm, not_not.mp hrv, rfl⟩

theorem yields_modify {arg obj : HomeObject} {s s' : Store} (h : Tx.Yields (modify arg) s obj s') :
    obj = { arg with metadata := { arg.metadata with resourceVersion := s.rv + 1 } } ∧
      s' = s.write ⟨.Modified, obj.row⟩ := by
  obtain ⟨rv, s₁, hn, h⟩ := Tx.yields_bind h
  obtain ⟨rfl, -, hs₁⟩ := yields_nextRv hn
  obtain ⟨_, s₂, hu, h⟩ := Tx.yields_bind h
  obtain ⟨_, s₃, hr, h⟩ := Tx.yields_bind h
  obtain ⟨rfl, rfl⟩ := Tx.yields_pure h
  exact ⟨rfl, put_write (by decide) rfl hs₁ hu hr⟩

theorem yields_create {arg obj : HomeObject} {s s' : Store} (h : Tx.Yields (create arg) s obj s') :
    obj = { arg with metadata := { arg.metadata with
      generation := 1, resourceVersion := s.rv + 1, uid := uidOf arg.kind (s.rv + 1) } } ∧
      s' = s.write ⟨.Added, obj.row⟩ := by
  obtain ⟨rv, s₁, hn, h⟩ := Tx.yields_bind h
  obtain ⟨rfl, -, hs₁⟩ := yields_nextRv hn
  obtain ⟨_, s₂, hu, h⟩ := Tx.yields_bind h
  obtain ⟨_, s₃, hr, h⟩ := Tx.yields_bind h
  obtain ⟨rfl, rfl⟩ := Tx.yields_pure h
  exact ⟨rfl, put_write (by decide) rfl hs₁ hu hr⟩

theorem applyOver_some {obj prev made : HomeObject} {watch : WatchType}
    (h : applyOver obj (some prev) = .ok (made, watch)) :
    watch = .Modified ∧ obj.metadata.resourceVersion = prev.metadata.resourceVersion ∧
      made = { obj with
        metadata := { obj.metadata with
          generation := if obj.spec ≠ prev.spec then prev.metadata.generation + 1
            else prev.metadata.generation
          uid := prev.metadata.uid }
        status := if obj.spec.isStatusOnly then obj.status else prev.status } := by
  simp only [applyOver] at h
  by_cases hrv : obj.metadata.resourceVersion ≠ prev.metadata.resourceVersion
  · rw [if_pos hrv] at h
    cases h
  · rw [if_neg hrv] at h
    obtain ⟨rfl, rfl⟩ := Prod.mk.inj (Except.ok.inj h)
    exact ⟨rfl, not_not.mp hrv, rfl⟩

theorem applyOver_none {obj made : HomeObject} {watch : WatchType}
    (h : applyOver obj none = .ok (made, watch)) :
    watch = .Added ∧ obj.metadata.resourceVersion = 0 ∧ obj.metadata.name ≠ [] ∧
      made = { obj with
        metadata := { obj.metadata with generation := 1, uid := [] }
        status := if obj.kind = .Want then StatusBody.empty .Want else obj.status } := by
  simp only [applyOver] at h
  by_cases hrv : obj.metadata.resourceVersion ≠ 0
  · rw [if_pos hrv] at h
    cases h
  · rw [if_neg hrv] at h
    by_cases hname : obj.metadata.name = []
    · rw [if_pos hname] at h
      cases h
    · rw [if_neg hname] at h
      obtain ⟨rfl, rfl⟩ := Prod.mk.inj (Except.ok.inj h)
      exact ⟨rfl, not_not.mp hrv, hname, rfl⟩

private theorem applyOver_ne_deleted {obj made : HomeObject} {existing : Option HomeObject}
    {watch : WatchType} (h : applyOver obj existing = .ok (made, watch)) : watch ≠ .Deleted := by
  cases existing with
  | none => rw [(applyOver_none h).1]; decide
  | some prev => rw [(applyOver_some h).1]; decide

-- The object that an apply stores, given what was there.
theorem yields_applyTx {arg obj : HomeObject} {watch : WatchType} {s s' : Store}
    (h : Tx.Yields (applyTx arg) s (obj, watch) s') :
    ∃ name made, name = (if arg.metadata.name = [] then defaultName arg.kind else arg.metadata.name) ∧
      applyOver { arg with metadata := { arg.metadata with name } } (s.get arg.kind name) =
        .ok (made, watch) ∧
      obj = { made with metadata := { made.metadata with
        resourceVersion := s.rv + 1
        uid := if made.metadata.uid = [] then uidOf made.kind (s.rv + 1) else made.metadata.uid } } ∧
      s' = s.write ⟨watch, obj.row⟩ := by
  obtain ⟨existing, s₁, hg, hl⟩ := Tx.yields_bind h
  obtain ⟨rfl, rfl⟩ := yields_getObject hg
  obtain ⟨⟨made, watch'⟩, hover, hn⟩ := Tx.yields_lift_bind hl
  obtain ⟨rv, s₂, hn, hp⟩ := Tx.yields_bind hn
  obtain ⟨rfl, -, hs₂⟩ := yields_nextRv hn
  obtain ⟨_, s₃, hu, hp⟩ := Tx.yields_bind hp
  obtain ⟨_, s₄, hr, hp⟩ := Tx.yields_bind hp
  obtain ⟨hpair, rfl⟩ := Tx.yields_pure hp
  obtain ⟨rfl, rfl⟩ := Prod.mk.inj hpair
  exact ⟨_, made, rfl, hover, rfl, put_write (applyOver_ne_deleted hover) rfl hs₂ hu hr⟩

theorem yields_patchStatusTx {kind : Kind} {name : Text} {status : StatusBody} {expectedRv : Int}
    {s s' : Store} {obj : HomeObject}
    (h : Tx.Yields (patchStatusTx kind name status expectedRv) s obj s') :
    ∃ prev, s.get kind name = some prev ∧ expectedRv = prev.metadata.resourceVersion ∧
      obj = { prev with
        status, metadata := { prev.metadata with resourceVersion := s.rv + 1 } } ∧
      s' = s.write ⟨.Modified, obj.row⟩ := by
  obtain ⟨prev, s₁, hg, hm⟩ := Tx.yields_bind h
  obtain ⟨hprev, hrv, rfl⟩ := yields_getExpected hg
  exact ⟨prev, hprev, hrv, yields_modify hm⟩

theorem yields_patchSpecTx {kind : Kind} {name : Text} {spec : Spec} {expectedRv : Int}
    {s s' : Store} {obj : HomeObject}
    (h : Tx.Yields (patchSpecTx kind name spec expectedRv) s obj s') :
    ∃ prev, s.get kind name = some prev ∧ expectedRv = prev.metadata.resourceVersion ∧
      obj = { prev with
        spec
        metadata := { prev.metadata with
          generation := if prev.spec ≠ spec then prev.metadata.generation + 1
            else prev.metadata.generation
          resourceVersion := s.rv + 1 } } ∧
      s' = s.write ⟨.Modified, obj.row⟩ := by
  obtain ⟨prev, s₁, hg, hm⟩ := Tx.yields_bind h
  obtain ⟨hprev, hrv, rfl⟩ := yields_getExpected hg
  exact ⟨prev, hprev, hrv, yields_modify hm⟩

theorem get_key {s : Store} {kind : Kind} {name : Text} {obj : HomeObject}
    (h : s.get kind name = some obj) : obj.key = (kind, name) := (Table.lookup_some h).2

theorem get_mem {s : Store} {kind : Kind} {name : Text} {obj : HomeObject}
    (h : s.get kind name = some obj) : obj ∈ s.objects := (Table.lookup_some h).1

theorem yields_deleteTx {kind : Kind} {name : Text} {expectedRv : Int} {s s' : Store}
    {obj : HomeObject} (h : Tx.Yields (deleteTx kind name expectedRv) s obj s') :
    ∃ prev, s.get kind name = some prev ∧ expectedRv = prev.metadata.resourceVersion ∧
      obj = { prev with metadata := { prev.metadata with resourceVersion := s.rv + 1 } } ∧
      s' = s.write ⟨.Deleted, obj.row⟩ := by
  obtain ⟨prev, s₁, hg, hm⟩ := Tx.yields_bind h
  obtain ⟨hprev, hrv, rfl⟩ := yields_getExpected hg
  obtain ⟨_, s₂, hd, hn⟩ := Tx.yields_bind hm
  obtain rfl := yields_remove hd
  obtain ⟨rv, s₃, hn, hr⟩ := Tx.yields_bind hn
  obtain ⟨rfl, -, rfl⟩ := yields_nextRv hn
  obtain ⟨_, s₄, hr, hp⟩ := Tx.yields_bind hr
  obtain ⟨rfl, rfl⟩ := Tx.yields_pure hp
  refine ⟨prev, hprev, hrv, rfl, ?_⟩
  have hkey : (kind, name) = HomeObject.key prev := (get_key hprev).symm
  rw [yields_recordEvent hr, write]
  simp only [StoreEvent.change, Journal.applyChange, hkey]
  rfl

section

variable [UnicodeTables]

def scheduledTitle (titleId : Text) (rv : Int) : StoreEvent where
  watch := .Added
  object := {
    kind := .Title
    metadata := { name := titleId, uid := uidOf .Title rv, generation := 1, resourceVersion := rv }
    spec := .Title { titleId, desiredPresent := true }
    status := StatusBody.empty .Title }

def scheduledJob (name : Text) (spec : JobSpec) (rv : Int) : StoreEvent where
  watch := .Added
  object := {
    kind := .Job
    metadata := { name, uid := uidOf .Job rv, generation := 1, resourceVersion := rv }
    spec := .Job spec
    status := StatusBody.empty .Job }

-- One round of the scheduling loop: an entry that is not to be queued is kept,
-- any other gets its Job, after its Title when that is missing.
inductive EntryRun (syncName : Text) (s : Store) (entry : SyncEntry) :
    SyncEntry → Store → Prop where
  | Keep (hkeep : entry.disposition ≠ .WouldQueue) : EntryRun syncName s entry entry s
  | Queue (spec : JobSpec) (s₁ : Store) (hqueue : entry.disposition = .WouldQueue)
      (hjob : entry.job = some spec) (hsync : spec.syncName = syncName) (hname : entry.jobName ≠ [])
      (hnode : spec.nodeName = []) (habsent : s.get .Job entry.jobName = none)
      (hvalid : (HomeObject.new .Job entry.jobName (.Job spec)
        (StatusBody.empty .Job)).validate = .ok ())
      (htitle : ((s.get .Title spec.titleId).isSome ∧ s₁ = s) ∨
        (s.get .Title spec.titleId = none ∧
          s₁ = s.write (scheduledTitle spec.titleId (s.rv + 1)))) :
      EntryRun syncName s entry
        { entry with jobUid := uidOf .Job (s₁.rv + 1), disposition := .Queued }
        (s₁.write (scheduledJob entry.jobName spec (s₁.rv + 1)))

inductive EntriesRun (syncName : Text) : Store → List SyncEntry → List SyncEntry → Store → Prop where
  | Done (s : Store) : EntriesRun syncName s [] [] s
  | Step {s s₁ s' : Store} {entry entry' : SyncEntry} {rest rest' : List SyncEntry}
      (head : EntryRun syncName s entry entry' s₁) (tail : EntriesRun syncName s₁ rest rest' s') :
      EntriesRun syncName s (entry :: rest) (entry' :: rest') s'

theorem yields_scheduleEntry {syncName : Text} {entry entry' : SyncEntry} {s s' : Store}
    (h : Tx.Yields (scheduleEntry syncName entry) s entry' s') :
    EntryRun syncName s entry entry' s' := by
  unfold scheduleEntry at h
  by_cases hdisp : entry.disposition ≠ .WouldQueue
  · rw [if_pos hdisp] at h
    obtain ⟨rfl, rfl⟩ := Tx.yields_pure h
    exact .Keep hdisp
  · rw [if_neg hdisp] at h
    cases hjob : entry.job with
    | none =>
        simp only [hjob] at h
        exact absurd h Tx.not_yields_throw
    | some spec =>
        simp only [hjob] at h
        obtain ⟨hauth, h₁⟩ := Tx.yields_guard h
        push Not at hauth
        obtain ⟨found, s₁, hg, h₂⟩ := Tx.yields_bind h₁
        obtain ⟨rfl, rfl⟩ := yields_getObject hg
        obtain ⟨habsent, h₃⟩ := Tx.yields_guard h₂
        obtain ⟨⟨⟩, hvalid, h₄⟩ := Tx.yields_lift_bind h₃
        obtain ⟨title, s₂, ht, h₅⟩ := Tx.yields_bind h₄
        obtain ⟨rfl, rfl⟩ := yields_getObject ht
        have hv : (HomeObject.new .Job entry.jobName (.Job spec)
            (StatusBody.empty .Job)).validate = .ok () := by
          cases hres : (HomeObject.new .Job entry.jobName (.Job spec)
              (StatusBody.empty .Job)).validate with
          | ok u => rfl
          | error e => rw [hres] at hvalid; cases hvalid
        have hn : s₂.get .Job entry.jobName = none := by simpa using habsent
        cases htitle : s₂.get .Title spec.titleId with
        | some title =>
            simp only [htitle, Option.isNone_some, Bool.false_eq_true, if_false] at h₅
            obtain ⟨job, s₃, hc, hp⟩ := Tx.yields_bind h₅
            obtain ⟨rfl, rfl⟩ := yields_create hc
            obtain ⟨rfl, rfl⟩ := Tx.yields_pure hp
            rw [← hjob]
            exact .Queue spec s₂ (not_not.mp hdisp) hjob hauth.1 hauth.2.1 hauth.2.2 hn hv
              (.inl ⟨by simp [htitle], rfl⟩)
        | none =>
            simp only [htitle, Option.isNone_none, if_true] at h₅
            obtain ⟨made, s₃, hc, h₆⟩ := Tx.yields_bind h₅
            obtain ⟨rfl, rfl⟩ := yields_create hc
            obtain ⟨job, s₄, hc', hp⟩ := Tx.yields_bind h₆
            obtain ⟨rfl, rfl⟩ := yields_create hc'
            obtain ⟨rfl, rfl⟩ := Tx.yields_pure hp
            rw [← hjob]
            exact .Queue spec _ (not_not.mp hdisp) hjob hauth.1 hauth.2.1 hauth.2.2 hn hv
              (.inr ⟨htitle, rfl⟩)

theorem yields_scheduleEntries {syncName : Text} {entries entries' : List SyncEntry} {s s' : Store}
    (h : Tx.Yields (scheduleEntries syncName entries) s entries' s') :
    EntriesRun syncName s entries entries' s' := by
  induction entries generalizing s entries' with
  | nil =>
      obtain ⟨rfl, rfl⟩ := Tx.yields_pure h
      exact .Done s'
  | cons entry rest ih =>
      obtain ⟨entry', s₁, he, h₁⟩ := Tx.yields_bind h
      obtain ⟨rest', s₂, hr, hp⟩ := Tx.yields_bind h₁
      obtain ⟨rfl, rfl⟩ := Tx.yields_pure hp
      exact .Step (yields_scheduleEntry he) (ih hr)

def planningComplete : Text := "Planning complete; Pull Jobs execute independently"

theorem yields_scheduleSyncTx {expectedSnapshotRv now : Int} {request obj : HomeObject}
    {s s' : Store} (h : Tx.Yields (scheduleSyncTx expectedSnapshotRv request now) s obj s') :
    ∃ stored status entries s₁, s.rv = expectedSnapshotRv ∧
      s.get .Sync request.metadata.name = some stored ∧
      stored.metadata.resourceVersion = request.metadata.resourceVersion ∧
      isCaptured stored.status = true ∧ request.status = .Sync status ∧ now < status.deadlineUnix ∧
      EntriesRun request.metadata.name s status.entries entries s₁ ∧
      obj = { request with
        metadata := { request.metadata with resourceVersion := s₁.rv + 1 }
        status := .Sync { status with
          entries, phase := .Scheduled, message := planningComplete } } ∧
      s' = s₁.write ⟨.Modified, obj.row⟩ := by
  obtain ⟨rv, s₁, hr, h₁⟩ := Tx.yields_bind h
  obtain ⟨rfl, rfl⟩ := yields_currentRevision hr
  obtain ⟨found, s₂, hg, h₂⟩ := Tx.yields_bind h₁
  obtain ⟨rfl, rfl⟩ := yields_getObject hg
  obtain ⟨hguard, h₃⟩ := Tx.yields_guard h₂
  push Not at hguard
  cases hstored : s₂.get .Sync request.metadata.name with
  | none => simp [hstored] at hguard
  | some stored =>
      have hmatch : stored.metadata.resourceVersion = request.metadata.resourceVersion ∧
          isCaptured stored.status = true := by simpa [hstored] using hguard.2
      split at h₃
      · next status hstatus =>
          obtain ⟨hdeadline, h₄⟩ := Tx.yields_guard h₃
          obtain ⟨entries, s₃, he, hm⟩ := Tx.yields_bind h₄
          exact ⟨stored, status, entries, s₃, hguard.1, rfl, hmatch.1, hmatch.2, hstatus,
            not_le.mp hdeadline, yields_scheduleEntries he, yields_modify hm⟩
      · exact absurd h₃ Tx.not_yields_throw

end

-- No operation makes anything durable before its commit.

theorem quiet_getObject (kind : Kind) (name : Text) : Tx.Quiet (getObject kind name) :=
  (Tx.quiet_statement _).bind fun _ => Tx.quiet_read _

theorem quiet_currentRevision : Tx.Quiet currentRevision :=
  (Tx.quiet_statement _).bind fun _ => Tx.quiet_read _

theorem quiet_nextRv : Tx.Quiet nextRv :=
  (Tx.quiet_statement _).bind fun _ => (Tx.quiet_update _).bind fun _ =>
    quiet_currentRevision.bind fun _ => Tx.Quiet.guard (Tx.quiet_pure _)

theorem quiet_upsert (obj : HomeObject) : Tx.Quiet (upsert obj) :=
  (Tx.quiet_statement _).bind fun _ => Tx.quiet_update _

theorem quiet_recordEvent (obj : HomeObject) (watch : WatchType) :
    Tx.Quiet (recordEvent obj watch) :=
  (Tx.quiet_statement _).bind fun _ => (Tx.quiet_read _).bind fun _ =>
    Tx.Quiet.guard ((Tx.quiet_update _).bind fun _ => (Tx.quiet_statement _).bind fun _ =>
      (Tx.quiet_update _).bind fun _ => (Tx.quiet_statement _).bind fun _ => Tx.quiet_update _)

theorem quiet_applyTx (arg : HomeObject) : Tx.Quiet (applyTx arg) :=
  (quiet_getObject _ _).bind fun _ => (Tx.quiet_lift _).bind fun _ => quiet_nextRv.bind fun _ =>
    (quiet_upsert _).bind fun _ => (quiet_recordEvent _ _).bind fun _ => Tx.quiet_pure _

theorem quiet_getExpected (kind : Kind) (name : Text) (expectedRv : Int) :
    Tx.Quiet (getExpected kind name expectedRv) := by
  refine (quiet_getObject _ _).bind fun found => ?_
  cases found with
  | none => exact Tx.quiet_throw _
  | some obj => exact Tx.Quiet.guard (Tx.quiet_pure _)

theorem quiet_modify (obj : HomeObject) : Tx.Quiet (modify obj) :=
  quiet_nextRv.bind fun _ => (quiet_upsert _).bind fun _ => (quiet_recordEvent _ _).bind fun _ =>
    Tx.quiet_pure _

theorem quiet_patchStatusTx (kind : Kind) (name : Text) (status : StatusBody) (expectedRv : Int) :
    Tx.Quiet (patchStatusTx kind name status expectedRv) :=
  (quiet_getExpected _ _ _).bind fun _ => quiet_modify _

theorem quiet_patchSpecTx (kind : Kind) (name : Text) (spec : Spec) (expectedRv : Int) :
    Tx.Quiet (patchSpecTx kind name spec expectedRv) :=
  (quiet_getExpected _ _ _).bind fun _ => quiet_modify _

theorem quiet_deleteTx (kind : Kind) (name : Text) (expectedRv : Int) :
    Tx.Quiet (deleteTx kind name expectedRv) :=
  (quiet_getExpected _ _ _).bind fun _ =>
    ((Tx.quiet_statement _).bind fun _ => Tx.quiet_update _).bind fun _ =>
      quiet_nextRv.bind fun _ => (quiet_recordEvent _ _).bind fun _ => Tx.quiet_pure _

theorem quiet_create (obj : HomeObject) : Tx.Quiet (create obj) :=
  quiet_nextRv.bind fun _ => (quiet_upsert _).bind fun _ => (quiet_recordEvent _ _).bind fun _ =>
    Tx.quiet_pure _

theorem quiet_scheduleEntry [UnicodeTables] (syncName : Text) (entry : SyncEntry) :
    Tx.Quiet (scheduleEntry syncName entry) := by
  unfold scheduleEntry
  split
  · exact Tx.quiet_pure _
  · split
    · exact Tx.quiet_throw _
    · refine Tx.Quiet.guard ((quiet_getObject _ _).bind fun _ => Tx.Quiet.guard ?_)
      refine (Tx.quiet_lift _).bind fun _ => (quiet_getObject _ _).bind fun title => ?_
      have hlast : ∀ (job : HomeObject) (queued : HomeObject → SyncEntry),
          Tx.Quiet (create job >>= fun job => pure (queued job)) :=
        fun job _ => (quiet_create job).bind fun _ => Tx.quiet_pure _
      dsimp only
      split
      · exact (quiet_create _).bind fun _ => hlast _ _
      · exact hlast _ _

theorem quiet_scheduleEntries [UnicodeTables] (syncName : Text) (entries : List SyncEntry) :
    Tx.Quiet (scheduleEntries syncName entries) := by
  induction entries with
  | nil => exact Tx.quiet_pure _
  | cons entry rest ih =>
      exact (quiet_scheduleEntry _ _).bind fun _ => ih.bind fun _ => Tx.quiet_pure _

theorem quiet_scheduleSyncTx [UnicodeTables] (expectedSnapshotRv : Int) (request : HomeObject)
    (now : Int) : Tx.Quiet (scheduleSyncTx expectedSnapshotRv request now) := by
  refine quiet_currentRevision.bind fun _ => (quiet_getObject _ _).bind fun _ => Tx.Quiet.guard ?_
  dsimp only
  split
  · exact Tx.Quiet.guard ((quiet_scheduleEntries _ _).bind fun _ => quiet_modify _)
  · exact Tx.quiet_throw _

-- A transaction that reports success has run its body on the store; one that
-- reports an error has changed nothing.
theorem transaction_ok {α : Type} {body : StoreTx α} (hq : Tx.Quiet body) {s s' : Store}
    {faults : List Bool} {a : α} (h : s.transaction faults body = (.ok a, s')) :
    Tx.Yields body s a s' := by
  rcases Tx.run_atomically hq h with ⟨b, hb, hy⟩ | ⟨e, he, -⟩
  · cases hb
    exact hy
  · cases he

theorem transaction_error {α : Type} {body : StoreTx α} (hq : Tx.Quiet body) {s s' : Store}
    {faults : List Bool} {e : StoreError} (h : s.transaction faults body = (.error e, s')) :
    s' = s := by
  rcases Tx.run_atomically hq h with ⟨b, hb, -⟩ | ⟨e, -, hs⟩
  · cases hb
  · exact hs

end Store

end Mediaops
