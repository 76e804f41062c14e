import Mediaops.Tui.Cache

namespace Mediaops.Tui

-- What a subscription knows as it reads: the List is ahead of the snapshot, every Get
-- is ahead of both, and the stream catches up with them.

open Incarnations (Known View Absent lastOf)
open Serve (itemOf maybeRedact Stream redact_kind redact_metadata redact_key)
open Store (evKey evUid evDead Logged)

section Requests

variable {s : Store} {actor : Actor} {kind : Kind} {name : Text}

theorem parse_asStr (kind : Kind) : Kind.parse kind.asStr = .ok kind := by cases kind <;> rfl

theorem get_ok {current : HomeObject}
    (h : Serve.get s actor kind.asStr name = .ok current) :
    ∃ row, s.get kind name = some row ∧ current = maybeRedact actor row := by
  unfold Serve.get at h
  rw [parse_asStr] at h
  simp only [bind, Except.bind] at h
  split at h
  · cases h
  split_ifs at h
  cases hrow : s.get kind name with
  | none =>
      rw [hrow] at h
      cases h
  | some row =>
      rw [hrow] at h
      exact ⟨row, rfl, (Except.ok.inj h).symm⟩

theorem get_notFound {kind' : Kind} {name' : Text}
    (h : Serve.get s actor kind.asStr name = .error (.NotFound kind' name')) :
    s.get kind name = none := by
  unfold Serve.get at h
  rw [parse_asStr] at h
  simp only [bind, Except.bind, admitOp] at h
  split at h
  · next herror =>
      split_ifs at herror
      · cases herror
      · rw [Except.error.inj h] at herror
        cases herror
  split_ifs at h
  · cases h
  · cases hrow : s.get kind name with
    | none => rfl
    | some row =>
        rw [hrow] at h
        cases h

theorem list_ok {objects : List HomeObject} (h : Serve.list s actor [] = .ok objects) :
    objects = (s.list none).map (maybeRedact actor) := (Except.ok.inj h).symm

theorem watch_ok {items : List Serve.WatchItem} {stream : Stream}
    (h : Serve.watch s actor [] 0 = .ok (items, stream)) :
    items = (s.snapshot none).1.map (fun obj => (.Added, maybeRedact actor obj)) ∧
      stream = { kind := none, after := s.rv } := by
  obtain ⟨rfl, rfl⟩ := Prod.mk.inj (Except.ok.inj h)
  exact ⟨rfl, rfl⟩

end Requests

variable {log : List StoreEvent} {s : Store} {c : Nat} {key : ObjectKey}

theorem rows_perm (s : Store) : (s.list none).Perm s.objects := by
  have hall : s.objects.filter (Store.ofKind none) = s.objects :=
    List.filter_eq_self.mpr fun _ _ => rfl
  unfold Store.list
  rw [hall]
  exact List.perm_insertionSort _ _

theorem snapshot_rows (s : Store) : (s.snapshot none).1.Perm s.objects := by
  exact (List.perm_insertionSort _ _).trans (rows_perm s)

-- A live row is the last event of its key.
theorem row_known (hl : Logged log s) {row : HomeObject} (hrow : s.get key.1 key.2 = some row) :
    ∃ i ev, log[i]? = some ev ∧ ev.object = row ∧
      Known evKey evUid evDead log key log.length (.Live i) := by
  have hlast := hl.rows key.1 key.2
  rw [hrow] at hlast
  cases hfind : lastOf evKey (key.1, key.2) log with
  | none =>
      rw [hfind] at hlast
      cases hlast
  | some ev =>
      rw [hfind] at hlast
      simp only [Store.rowAfter] at hlast
      split_ifs at hlast with hwatch
      have hlive : evDead ev = false := by simp [evDead, hwatch]
      obtain ⟨i, hi, hknown⟩ :
          ∃ i, log[i]? = some ev ∧ Known evKey evUid evDead log key log.length (.Live i) :=
        Incarnations.known_last hfind hlive
      exact ⟨i, ev, hi, (Option.some.inj hlast).symm, hknown⟩

theorem absent_row (hl : Logged log s) :
    s.get key.1 key.2 = none ↔ Absent evKey evDead key log := by
  rw [hl.rows key.1 key.2]
  have hkey : (key.1, key.2) = key := rfl
  rw [hkey]
  cases hfind : lastOf evKey key log with
  | none => simp [Store.rowAfter, Absent, hfind]
  | some ev => simp [Store.rowAfter, Absent, hfind, evDead]

-- What the subscription makes of an event is still true, and later than what it knew.
theorem resolve_recorded (hl : Logged log s) {observed : ObjectCache} {event event' : WatchEvent}
    {epoch i : Nat} {ev : StoreEvent}
    (hrec : Recorded log c event.2.key (entryOf epoch event) i ev) (hc : c ≤ log.length)
    (hres : resolve s observed event = .ok event') :
    event'.2.key = event.2.key ∧
      (∃ i' ev', Recorded log c event.2.key (entryOf epoch event') i' ev') ∧
      (observed.get event.2.key ≠ none → event' = event) := by
  unfold resolve at hres
  dsimp only at hres
  by_cases hask : event.1 ≠ .Deleted ∧ observed.get event.2.key = none
  · rw [if_pos hask] at hres
    split at hres
    · next current hget =>
        -- The object is there, as it is now.
        obtain ⟨row, hrow, rfl⟩ := get_ok hget
        obtain rfl := Except.ok.inj hres
        have hfound : s.get event.2.key.1 event.2.key.2 = some row := hrow
        obtain ⟨j, last, hj, rfl, hknown⟩ := row_known hl hfound
        have hentry : entryOf epoch (.Added, maybeRedact .Cli last.object) =
            ObjectCache.liveEntry epoch last.object.redact := by
          simp [entryOf, maybeRedact]
        refine ⟨?_, ⟨j, last, ?_⟩, fun hsome => absurd hask.2 hsome⟩
        · show (maybeRedact .Cli last.object).key = event.2.key
          rw [maybeRedact, if_pos rfl, redact_key]
          exact Store.get_key hrow
        · rw [hentry]
          exact recorded_live hl epoch hj (hknown.earlier (by simp) hc)
    · next hget =>
        -- It is gone, and so is what the event told of.
        obtain rfl := Except.ok.inj hres
        have hmissing : s.get event.2.key.1 event.2.key.2 = none := get_notFound hget
        have hlive : entryOf epoch event = ObjectCache.liveEntry epoch event.2 := by
          rw [entryOf, if_neg hask.1]
        rw [hlive] at hrec
        have hknown : Known evKey evUid evDead log event.2.key c (.Live i) := by
          simpa [ObjectCache.liveEntry] using hrec.known
        have hobj : event.2 = ev.object.redact := by
          simpa [ObjectCache.liveEntry] using hrec.object
        have hdead : entryOf epoch (.Deleted, event.2) = ObjectCache.deadEntry epoch event.2 := by
          simp [entryOf]
        refine ⟨rfl, ⟨i, ev, ?_⟩, fun hsome => absurd hask.2 hsome⟩
        rw [hdead]
        exact recorded_dead hl epoch hrec.event
          (hknown.ended hl.lawful ((absent_row hl).mp hmissing)) (by rw [hobj, redact_metadata])
    · cases hres
  · rw [if_neg hask] at hres
    obtain rfl := Except.ok.inj hres
    exact ⟨rfl, ⟨i, ev, hrec⟩, fun _ => rfl⟩

-- What a watch has still to say: what is left of the snapshot, then the log from `c` on,
-- then at most the error that ended it.
structure Feed (log : List StoreEvent) (c : Nat) (snap : List HomeObject) (watched : Watched) :
    Prop where
  rows : ∀ obj ∈ snap, ∃ i ev, log[i]? = some ev ∧ ev.object = obj ∧
    Known evKey evUid evDead log obj.key c (.Live i)
  le : c ≤ log.length
  pending : ∃ n tail, c + n ≤ log.length ∧
    watched.pending = snap.map (fun obj => .ok (.Added, obj.redact)) ++
      (((log.drop c).take n).map (fun ev => .ok (itemOf .Cli ev)) ++ tail) ∧
    ((watched.stream = some { kind := none, after := ((c + n : Nat) : Int) } ∧ tail = []) ∨
      (watched.stream = none ∧ ∃ e, tail = [.error e]))

theorem Feed.append {snap : List HomeObject} {watched : Watched} (h : Feed log c snap watched)
    (more : List StoreEvent) : Feed (log ++ more) c snap watched where
  rows obj hobj := by
    obtain ⟨i, ev, hev, hrow, hknown⟩ := h.rows obj hobj
    exact ⟨i, ev, Incarnations.getElem?_append_of_some hev, hrow, hknown.append h.le more⟩
  le := by
    have := h.le
    simp only [List.length_append]
    omega
  pending := by
    obtain ⟨n, tail, hn, hpending, hend⟩ := h.pending
    have hdrop : ((log ++ more).drop c).take n = (log.drop c).take n := by
      rw [List.drop_append_of_le_length h.le, List.take_append_of_le_length]
      rw [List.length_drop]
      omega
    refine ⟨n, tail, ?_, by rw [hdrop, hpending], hend⟩
    simp only [List.length_append]
    omega

-- One turn of the server's stream.
theorem poll_log (hl : Logged log s) {n : Nat} (hn : n ≤ log.length) :
    (∃ e, Serve.poll s .Cli { kind := none, after := (n : Int) } = ([.error e], none)) ∨
    Serve.poll s .Cli { kind := none, after := (n : Int) } =
      (((log.drop n).take watchPageLimit).map fun ev => .ok (itemOf .Cli ev),
        some { kind := none,
               after := ((n + ((log.drop n).take watchPageLimit).length : Nat) : Int) }) := by
  have hj := hl.journaled
  have hnonneg := hj.floorNonneg
  by_cases hfloor : (n : Int) < s.floor
  · left
    unfold Serve.poll Store.eventsAfter
    dsimp only
    rw [if_pos hfloor]
    exact ⟨_, rfl⟩
  · right
    obtain ⟨m, hm⟩ : ∃ m : Nat, (n : Int) = s.floor + m := ⟨((n : Int) - s.floor).toNat, by omega⟩
    have hpage : s.eventsAfter (n : Int) = .ok ((log.drop n).take watchPageLimit) := by
      rw [hm, Store.eventsAfter_above_floor, Journal.page_numbered hj.history_numbered,
        hj.history_eq_drop, List.drop_drop]
      congr 3
      omega
    have hnumbered : Journal.NumberedFrom StoreEvent.revision (n : Int)
        ((log.drop n).take watchPageLimit) := by
      have hdrop := hj.numbered.drop hn
      rw [Int.zero_add, ← List.take_append_drop watchPageLimit (log.drop n),
        Journal.numberedFrom_append] at hdrop
      exact hdrop.1
    unfold Serve.poll
    dsimp only
    rw [hpage]
    dsimp only
    have hkinds : ∀ events : List StoreEvent,
        (events.filter fun ev => Store.ofKind none ev.object) = events :=
      fun events => List.filter_eq_self.mpr fun _ _ => rfl
    rw [hkinds]
    refine Prod.ext rfl ?_
    dsimp only
    congr 2
    by_cases hne : (log.drop n).take watchPageLimit = []
    · rw [hne]
      simp
    · rw [List.getLast?_eq_some_getLast hne, Option.map_some, Option.getD_some,
        hnumbered.getLast hne]
      omega

theorem Feed.polled (hl : Logged log s) {snap : List HomeObject} {watched : Watched}
    (h : Feed log c snap watched) {stream : Stream} (hstream : watched.stream = some stream)
    {w : World} (hw : w.store = s) : Feed log c snap (w.polled watched stream) where
  rows := h.rows
  le := h.le
  pending := by
    obtain ⟨n, tail, hn, hpending, hend⟩ := h.pending
    rcases hend with ⟨hopen, rfl⟩ | ⟨hclosed, -⟩
    · obtain rfl := Option.some.inj (hstream.symm.trans hopen)
      unfold World.polled
      rw [hw]
      rcases poll_log hl hn with ⟨e, hpoll⟩ | hpoll
      · rw [hpoll]
        exact ⟨n, [.error e], hn, by simp [hpending], .inr ⟨rfl, e, rfl⟩⟩
      · rw [hpoll]
        set got := (log.drop (c + n)).take watchPageLimit with hgot
        have hlen : got.length ≤ log.length - (c + n) := by simp [hgot]
        have hmore : (log.drop c).take (n + got.length) = (log.drop c).take n ++ got := by
          have hcut : (log.drop (c + n)).take got.length = got := by
            rw [hgot, List.length_take, ← List.take_eq_take_min]
          rw [List.take_add, List.drop_drop, hcut]
        refine ⟨n + got.length, [], by omega, ?_, .inl ⟨?_, rfl⟩⟩
        · rw [hmore]
          simp [hpending]
        · dsimp only
          rw [Nat.add_assoc]
    · rw [hclosed] at hstream
      cases hstream

-- The next message: a row of the snapshot, or the next event of the log.
theorem Feed.next {snap : List HomeObject} {event : WatchEvent} {rest : Watched}
    (h : Feed log c snap { rest with pending := .ok event :: rest.pending }) :
    (∃ obj snap', snap = obj :: snap' ∧ event = (.Added, obj.redact) ∧ Feed log c snap' rest) ∨
    (snap = [] ∧ ∃ ev, log[c]? = some ev ∧ event = itemOf .Cli ev ∧ Feed log (c + 1) [] rest) := by
  obtain ⟨n, tail, hn, hpending, hend⟩ := h.pending
  dsimp only at hpending hend
  cases snap with
  | cons obj snap' =>
      left
      rw [List.map_cons, List.cons_append] at hpending
      obtain ⟨hhead, htail⟩ := List.cons.inj hpending
      refine ⟨obj, snap', rfl, Except.ok.inj hhead, ?_, h.le, n, tail, hn, htail, hend⟩
      exact fun other hother => h.rows other (List.mem_cons_of_mem _ hother)
  | nil =>
      right
      refine ⟨rfl, ?_⟩
      rw [List.map_nil, List.nil_append] at hpending
      cases n with
      | zero =>
          rw [List.take_zero, List.map_nil, List.nil_append] at hpending
          rcases hend with ⟨-, rfl⟩ | ⟨-, e, rfl⟩
          · cases hpending
          · cases (List.cons.inj hpending).1
      | succ n =>
          have hlt : c < log.length := by omega
          rw [List.drop_eq_getElem_cons hlt, List.take_succ_cons, List.map_cons,
            List.cons_append] at hpending
          obtain ⟨hhead, htail⟩ := List.cons.inj hpending
          refine ⟨log[c], List.getElem?_eq_getElem hlt, Except.ok.inj hhead, ?_, by omega, n, tail,
            by omega, by simpa using htail, ?_⟩
          · intro obj hobj
            cases hobj
          · have hsum : c + (n + 1) = c + 1 + n := by omega
            rwa [hsum] at hend

-- What the next message says, and what is left after it.
theorem Feed.recorded (hl : Logged log s) (epoch : Nat) {snap : List HomeObject}
    {event : WatchEvent} {rest : Watched}
    (h : Feed log c snap { rest with pending := .ok event :: rest.pending }) :
    ∃ c' snap' i ev, Feed log c' snap' rest ∧
      Recorded log c' event.2.key (entryOf epoch event) i ev ∧
      ((c' = c ∧ ∀ obj ∈ snap, obj ∈ snap' ∨ obj.key = event.2.key) ∨
        (c' = c + 1 ∧ i = c ∧ snap = [])) := by
  rcases h.next with ⟨obj, snap', rfl, rfl, hrest⟩ | ⟨rfl, ev, hev, rfl, hrest⟩
  · obtain ⟨i, ev, hev, rfl, hrow⟩ := h.rows obj List.mem_cons_self
    refine ⟨c, snap', i, ev, hrest, ?_, .inl ⟨rfl, fun other hother => ?_⟩⟩
    · have hentry : entryOf epoch (.Added, ev.object.redact) =
          ObjectCache.liveEntry epoch ev.object.redact := by simp [entryOf]
      rw [hentry]
      dsimp only
      rw [redact_key]
      exact recorded_live hl _ hev hrow
    · rcases List.mem_cons.mp hother with rfl | hother
      · exact .inr (redact_key _).symm
      · exact .inl hother
  · have hkey : (itemOf .Cli ev).2.key = evKey ev := by simp [itemOf, maybeRedact, evKey]
    refine ⟨c + 1, [], c, ev, hrest, ?_, .inr ⟨rfl, rfl, rfl⟩⟩
    rw [hkey]
    exact recorded_item hl _ hev

-- What holds in each phase of a subscription.
def Stage (log : List StoreEvent) : Phase → Prop
  | .Connecting | .Done => True
  | .Watching watched => ∃ c snap, Feed log c snap watched ∧
      ∀ key, Absent evKey evDead key (log.take c) ∨ ∃ obj ∈ snap, obj.key = key
  | .Following observed watched => observed.epoch = localEpoch ∧ ∃ c snap, Feed log c snap watched ∧
      ∀ key, Learned log c key (observed.get key) ∨
        (observed.get key = none ∧ ∃ obj ∈ snap, obj.key = key)

theorem Stage.append {phase : Phase} (h : Stage log phase) (more : List StoreEvent) :
    Stage (log ++ more) phase := by
  cases phase with
  | Connecting => trivial
  | Done => trivial
  | Watching watched =>
      obtain ⟨c, snap, hfeed, hrows⟩ := h
      refine ⟨c, snap, hfeed.append more, fun key => (hrows key).imp_left fun habsent => ?_⟩
      rwa [List.take_append_of_le_length hfeed.le]
  | Following observed watched =>
      obtain ⟨hepoch, c, snap, hfeed, hknown⟩ := h
      exact ⟨hepoch, c, snap, hfeed.append more, fun key =>
        (hknown key).imp_left fun hlearned => hlearned.append hfeed.le more⟩

theorem stage_watch (hl : Logged log s) {items : List Serve.WatchItem} {stream : Stream}
    (h : Serve.watch s .Cli [] 0 = .ok (items, stream)) :
    Stage log (.Watching { pending := items.map .ok, stream := some stream }) := by
  obtain ⟨rfl, rfl⟩ := watch_ok h
  have hlen : s.rv = log.length := hl.journaled.length
  have hmem : ∀ obj, obj ∈ (s.snapshot none).1 ↔ obj ∈ s.objects := fun obj =>
    (snapshot_rows s).mem_iff
  refine ⟨log.length, (s.snapshot none).1, ⟨fun obj hobj => ?_, le_refl _, 0, [], ?_, ?_, ?_⟩,
    fun key => ?_⟩
  · have hrow : s.get obj.key.1 obj.key.2 = some obj :=
      Table.lookup_of_mem hl.journaled.keyed ((hmem obj).mp hobj)
    exact row_known hl hrow
  · exact le_refl _
  · simp [maybeRedact]
  · exact .inl ⟨by rw [hlen, Nat.add_zero], rfl⟩
  · rw [List.take_length]
    cases hrow : s.get key.1 key.2 with
    | none => exact .inl ((absent_row hl).mp hrow)
    | some obj =>
        obtain ⟨hobj, hkey⟩ := Table.lookup_some hrow
        exact .inr ⟨obj, (hmem obj).mpr hobj, hkey⟩

-- The baseline, whatever the epoch it is installed for.
theorem get_baseline (hl : Logged log s) {objects : List HomeObject}
    (h : Serve.list s .Cli [] = .ok objects) {cache : ObjectCache} {epoch : Nat}
    (hepoch : cache.epoch = epoch) (hfresh : ∀ entry ∈ cache.entries, entry.2.epoch ≠ epoch)
    (key : ObjectKey) :
    (cache.installBaseline epoch objects).get key =
      (s.get key.1 key.2).map fun obj => ObjectCache.liveEntry epoch obj.redact := by
  obtain rfl := list_ok h
  have hcli : maybeRedact .Cli = HomeObject.redact := by
    funext obj
    simp [maybeRedact]
  have hkeyed : Table.Keyed HomeObject.key (s.list none) :=
    hl.journaled.keyed.perm (rows_perm s).symm
  have hredacted : Table.Keyed HomeObject.key ((s.list none).map HomeObject.redact) := by
    unfold Table.Keyed
    rw [List.map_map]
    have hkey : HomeObject.key ∘ HomeObject.redact = HomeObject.key := funext fun obj => redact_key obj
    rwa [hkey]
  have hlookup : Table.lookup HomeObject.key key ((s.list none).map HomeObject.redact) =
      (s.get key.1 key.2).map HomeObject.redact := by
    cases hrow : s.get key.1 key.2 with
    | none =>
        rw [Option.map_none]
        refine List.find?_eq_none.mpr fun other hother => ?_
        obtain ⟨obj, hobj, rfl⟩ := List.mem_map.mp hother
        have hne := Table.lookup_none hrow ((rows_perm s).mem_iff.mp hobj)
        simpa using hne
    | some obj =>
        obtain ⟨hobj, hkey⟩ := Table.lookup_some hrow
        have hfound := Table.lookup_of_mem hredacted
          (List.mem_map_of_mem ((rows_perm s).mem_iff.mpr hobj))
        rwa [redact_key, hkey] at hfound
  rw [ObjectCache.installBaseline_fresh hepoch hfresh, hcli, ObjectCache.get_upserts hredacted,
    hlookup, Option.map_map]
  have hempty : ({ cache with entries := [] } : ObjectCache).get key = none := rfl
  rw [hempty, Option.or_none]
  rfl

theorem get_observed (hl : Logged log s) {objects : List HomeObject}
    (h : Serve.list s .Cli [] = .ok objects) (key : ObjectKey) :
    (observedBaseline objects).get key =
      (s.get key.1 key.2).map fun obj => ObjectCache.liveEntry localEpoch obj.redact := by
  show (ObjectCache.installBaseline ({} : ObjectCache).bumpEpoch _ objects).get key = _
  exact get_baseline hl h rfl (fun entry hentry => by cases hentry) key

theorem stage_list (hl : Logged log s) {watched : Watched} (hstage : Stage log (.Watching watched))
    {objects : List HomeObject} (h : Serve.list s .Cli [] = .ok objects) :
    Stage log (.Following (observedBaseline objects) watched) := by
  obtain ⟨c, snap, hfeed, hrows⟩ := hstage
  refine ⟨ObjectCache.installBaseline_epoch objects, c, snap, hfeed, fun key => ?_⟩
  rw [get_observed hl h]
  cases hrow : s.get key.1 key.2 with
  | some row =>
      obtain ⟨i, ev, hev, rfl, hknown⟩ := row_known hl hrow
      exact .inl ⟨i, ev, recorded_live hl _ hev (hknown.earlier (by simp) hfeed.le)⟩
  | none => exact (hrows key).imp id fun hsnap => ⟨rfl, hsnap⟩

-- What the subscription takes from a message is in the log.
theorem item_recorded (hl : Logged log s) {observed : ObjectCache} {event event' : WatchEvent}
    {rest : Watched}
    (hstage : Stage log (.Following observed { rest with pending := .ok event :: rest.pending }))
    (hres : resolve s observed event = .ok event') (epoch : Nat) :
    ∃ i ev, Recorded log 0 event'.2.key (entryOf epoch event') i ev := by
  obtain ⟨-, c, snap, hfeed, -⟩ := hstage
  obtain ⟨c', snap', i, ev, hrest, hrec, -⟩ := hfeed.recorded hl epoch
  obtain ⟨hkey, ⟨i', ev', hrec'⟩, -⟩ := resolve_recorded hl hrec hrest.le hres
  rw [hkey]
  exact ⟨i', ev', hrec'.earlier (Nat.zero_le _)⟩

-- The subscription has read one more message.
theorem stage_receive (hl : Logged log s) {observed : ObjectCache} {event event' : WatchEvent}
    {rest : Watched}
    (hstage : Stage log (.Following observed { rest with pending := .ok event :: rest.pending }))
    (hres : resolve s observed event = .ok event') :
    Stage log (.Following (observed.applyEvent localEpoch event').2 rest) := by
  obtain ⟨hepoch, c, snap, hfeed, hknown⟩ := hstage
  refine ⟨(ObjectCache.applyEvent_epoch event').trans hepoch, ?_⟩
  obtain ⟨c', snap', i, ev, hrest, hrec, hcursor⟩ := hfeed.recorded hl localEpoch
  refine ⟨c', snap', hrest, fun key => ?_⟩
  obtain ⟨hkey, ⟨i', ev', hrec'⟩, hsame⟩ := resolve_recorded hl hrec hrest.le hres
  rw [ObjectCache.get_applyEvent hepoch, hkey]
  by_cases hmine : event.2.key = key
  · subst hmine
    rw [if_pos rfl]
    left
    have hold : observed.get event.2.key ≠ none → Learned log c event.2.key
        (observed.get event.2.key) := fun hsome =>
      (hknown event.2.key).resolve_right fun hnone => hsome hnone.1
    by_cases hnone : observed.get event.2.key = none
    · rw [hnone]
      exact ⟨i', ev', hrec'⟩
    · obtain rfl := hsame hnone
      refine Learned.accepted hold hrec ?_
      rcases hcursor with ⟨hc, -⟩ | ⟨hc, hi, -⟩
      · exact .inl hc
      · exact .inr ⟨hc, fun _ => hi⟩
  · rw [if_neg hmine]
    rcases hcursor with ⟨rfl, hsnap⟩ | ⟨rfl, rfl, rfl⟩
    · refine (hknown key).imp_right fun ⟨hnone, obj, hobj, hkey⟩ => ⟨hnone, obj, ?_, hkey⟩
      exact (hsnap obj hobj).resolve_right fun hevent => hmine (hevent.symm.trans hkey)
    · left
      have hlearned := (hknown key).resolve_right (by simp)
      refine hlearned.skip fun other hother hkey => hmine ?_
      obtain rfl := Option.some.inj (hrec.event.symm.trans hother)
      exact hrec.key_eq.symm.trans hkey

end Mediaops.Tui
