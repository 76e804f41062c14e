import Mediaops.Api.Redaction
import Mediaops.Tui

namespace Mediaops.Tui

-- What a cache entry says about the log of the store, and what an event changes in it.

open Incarnations (Known View Absent lastOf)
open Serve (itemOf redact_kind redact_metadata redact_key)
open Store (evKey evUid evDead Logged)

def entryOf (epoch : Nat) (event : WatchEvent) : CacheEntry :=
  if event.1 = .Deleted then ObjectCache.deadEntry epoch event.2
  else ObjectCache.liveEntry epoch event.2

namespace ObjectCache

variable {cache : ObjectCache} {epoch : Nat}

theorem get_insert (key k : ObjectKey) (entry : CacheEntry) :
    (cache.insert key entry).get k = if key = k then some entry else cache.get k := by
  unfold get insert
  dsimp only
  by_cases h : key = k
  · subst h
    rw [if_pos rfl]
    exact congrArg (Option.map Prod.snd) (Table.lookup_upsert_self (key, entry) cache.entries)
  · rw [if_neg h]
    exact congrArg (Option.map Prod.snd) (Table.lookup_upsert_of_ne h cache.entries)

theorem keyed_insert (h : Table.Keyed Prod.fst cache.entries) (key : ObjectKey)
    (entry : CacheEntry) : Table.Keyed Prod.fst (cache.insert key entry).entries := h.upsert _

theorem mem_of_get {key : ObjectKey} {entry : CacheEntry} (h : cache.get key = some entry) :
    (key, entry) ∈ cache.entries := by
  obtain ⟨row, hrow, rfl⟩ := Option.map_eq_some_iff.mp h
  obtain ⟨hmem, rfl⟩ := Table.lookup_some hrow
  exact hmem

theorem get_of_mem (hk : Table.Keyed Prod.fst cache.entries) {row : ObjectKey × CacheEntry}
    (h : row ∈ cache.entries) : cache.get row.1 = some row.2 := by
  unfold get
  rw [Table.lookup_of_mem hk h]
  rfl

theorem mem_live (hk : Table.Keyed Prod.fst cache.entries) {obj : HomeObject} :
    obj ∈ cache.live ↔ ∃ key entry, cache.get key = some entry ∧ entry.object = some obj := by
  unfold live
  rw [List.mem_filterMap]
  constructor
  · rintro ⟨row, hrow, hobj⟩
    exact ⟨row.1, row.2, get_of_mem hk hrow, hobj⟩
  · rintro ⟨key, entry, hget, hobj⟩
    exact ⟨(key, entry), mem_of_get hget, hobj⟩

-- An event puts its entry under its key or changes nothing.
theorem applyEvent_eq (h : cache.epoch = epoch) (event : WatchEvent) :
    cache.applyEvent epoch event =
      if (cache.get event.2.key).any fun existing => !acceptRevision existing
          event.2.metadata.resourceVersion event.2.metadata.uid event then (false, cache)
      else (true, cache.insert event.2.key (entryOf epoch event)) := by
  unfold applyEvent
  rw [if_neg (not_not.mpr h.symm)]
  dsimp only
  split
  · rfl
  · unfold entryOf
    obtain ⟨watch, obj⟩ := event
    cases watch <;> rfl

theorem applyEvent_epoch (event : WatchEvent) :
    (cache.applyEvent epoch event).2.epoch = cache.epoch := by
  by_cases h : cache.epoch = epoch
  · rw [applyEvent_eq h]
    split <;> rfl
  · rw [applyEvent, if_pos (Ne.symm h)]

theorem applyEvent_keyed (hk : Table.Keyed Prod.fst cache.entries) (event : WatchEvent) :
    Table.Keyed Prod.fst (cache.applyEvent epoch event).2.entries := by
  by_cases h : cache.epoch = epoch
  · rw [applyEvent_eq h]
    split
    · exact hk
    · exact keyed_insert hk _ _
  · rwa [applyEvent, if_pos (Ne.symm h)]

-- What an event makes of the entry under its key.
def accepted (epoch : Nat) (event : WatchEvent) : Option CacheEntry → CacheEntry
  | some existing =>
      if acceptRevision existing event.2.metadata.resourceVersion event.2.metadata.uid event then
        entryOf epoch event
      else existing
  | none => entryOf epoch event

theorem get_applyEvent (h : cache.epoch = epoch) (event : WatchEvent) (key : ObjectKey) :
    (cache.applyEvent epoch event).2.get key =
      if event.2.key = key then some (accepted epoch event (cache.get key)) else cache.get key := by
  rw [applyEvent_eq h]
  by_cases hkey : event.2.key = key
  · subst hkey
    rw [if_pos rfl]
    cases hget : cache.get event.2.key with
    | none => simp [accepted, get_insert]
    | some existing =>
        by_cases hrevision : acceptRevision existing event.2.metadata.resourceVersion
            event.2.metadata.uid event
        · simp [accepted, hrevision, get_insert]
        · simp [accepted, hrevision, hget]
  · rw [if_neg hkey]
    split
    · rfl
    · rw [get_insert, if_neg hkey]

theorem upserts_epoch (objects : List HomeObject) :
    (objects.foldl (fun cache obj => cache.upsertLive epoch obj) cache).epoch = cache.epoch := by
  induction objects generalizing cache with
  | nil => rfl
  | cons obj objects ih => exact ih

theorem upserts_keyed (hk : Table.Keyed Prod.fst cache.entries) (objects : List HomeObject) :
    Table.Keyed Prod.fst
      (objects.foldl (fun cache obj => cache.upsertLive epoch obj) cache).entries := by
  induction objects generalizing cache with
  | nil => exact hk
  | cons obj objects ih => exact ih (keyed_insert hk _ _)

theorem get_upserts {objects : List HomeObject} (hk : Table.Keyed HomeObject.key objects)
    (key : ObjectKey) :
    (objects.foldl (fun cache obj => cache.upsertLive epoch obj) cache).get key =
      ((Table.lookup HomeObject.key key objects).map (liveEntry epoch)).or (cache.get key) := by
  induction objects generalizing cache with
  | nil => rfl
  | cons obj objects ih =>
      obtain ⟨hout, hrest⟩ := List.nodup_cons.mp hk
      rw [List.foldl_cons, ih hrest]
      unfold upsertLive
      rw [get_insert]
      by_cases h : obj.key = key
      · have hnone : Table.lookup HomeObject.key key objects = none := by
          cases hfind : Table.lookup HomeObject.key key objects with
          | none => rfl
          | some other =>
              obtain ⟨hmem, hother⟩ := Table.lookup_some hfind
              exact absurd (List.mem_map.mpr ⟨other, hmem, hother.trans h.symm⟩) hout
        have hhead : Table.lookup HomeObject.key key (obj :: objects) = some obj := by
          simp [Table.lookup, h]
        simp [hnone, hhead, h]
      · have htail : Table.lookup HomeObject.key key (obj :: objects) =
            Table.lookup HomeObject.key key objects := by
          simp [Table.lookup, h]
        simp [htail, h]

-- With nothing of this epoch in it, the cache is the baseline.
theorem installBaseline_fresh (h : cache.epoch = epoch)
    (hfresh : ∀ entry ∈ cache.entries, entry.2.epoch ≠ epoch) (objects : List HomeObject) :
    cache.installBaseline epoch objects =
      objects.foldl (fun cache obj => cache.upsertLive epoch obj) { cache with entries := [] } := by
  have hoverlay : (cache.entries.filter fun entry => entry.2.epoch = epoch) = [] := by
    rw [List.filter_eq_nil_iff]
    intro entry hentry
    simpa using hfresh entry hentry
  unfold installBaseline
  rw [if_neg (not_not.mpr h.symm)]
  dsimp only
  rw [hoverlay]
  rfl

theorem overlays_epoch (overlay : List (ObjectKey × CacheEntry)) :
    (overlay.foldl overlayEntry cache).epoch = cache.epoch := by
  induction overlay generalizing cache with
  | nil => rfl
  | cons entry overlay ih =>
      rw [List.foldl_cons, ih]
      unfold overlayEntry
      split
      · split <;> rfl
      · rfl

theorem overlays_keyed (hk : Table.Keyed Prod.fst cache.entries)
    (overlay : List (ObjectKey × CacheEntry)) :
    Table.Keyed Prod.fst (overlay.foldl overlayEntry cache).entries := by
  induction overlay generalizing cache with
  | nil => exact hk
  | cons entry overlay ih =>
      refine ih ?_
      unfold overlayEntry
      split
      · split
        · exact keyed_insert hk _ _
        · exact hk
      · exact keyed_insert hk _ _

theorem installBaseline_epoch (objects : List HomeObject) :
    (cache.installBaseline epoch objects).epoch = cache.epoch := by
  unfold installBaseline
  split
  · rfl
  · rw [overlays_epoch, upserts_epoch]

theorem installBaseline_keyed (hk : Table.Keyed Prod.fst cache.entries)
    (objects : List HomeObject) :
    Table.Keyed Prod.fst (cache.installBaseline epoch objects).entries := by
  unfold installBaseline
  split
  · exact hk
  · refine overlays_keyed (upserts_keyed ?_ _) _
    exact List.nodup_nil

-- Where the entries of a cache come from.
theorem applyEvent_mem {event : WatchEvent} {row : ObjectKey × CacheEntry}
    (h : row ∈ (cache.applyEvent epoch event).2.entries) :
    row ∈ cache.entries ∨ row = (event.2.key, entryOf epoch event) := by
  by_cases hepoch : cache.epoch = epoch
  · rw [applyEvent_eq hepoch] at h
    split at h
    · exact .inl h
    · exact (Table.mem_of_mem_upsert h).symm
  · rw [applyEvent, if_pos (Ne.symm hepoch)] at h
    exact .inl h

theorem upserts_mem {objects : List HomeObject} {row : ObjectKey × CacheEntry}
    (h : row ∈ (objects.foldl (fun cache obj => cache.upsertLive epoch obj) cache).entries) :
    row ∈ cache.entries ∨ ∃ obj ∈ objects, row = (obj.key, liveEntry epoch obj) := by
  induction objects generalizing cache with
  | nil => exact .inl h
  | cons obj objects ih =>
      rcases ih h with h | ⟨other, hother, rfl⟩
      · rcases Table.mem_of_mem_upsert h with rfl | h
        · exact .inr ⟨obj, List.mem_cons_self, rfl⟩
        · exact .inl h
      · exact .inr ⟨other, List.mem_cons_of_mem _ hother, rfl⟩

theorem overlays_mem {overlay : List (ObjectKey × CacheEntry)} {row : ObjectKey × CacheEntry}
    (h : row ∈ (overlay.foldl overlayEntry cache).entries) :
    row ∈ cache.entries ∨ row ∈ overlay := by
  induction overlay generalizing cache with
  | nil => exact .inl h
  | cons entry overlay ih =>
      have hstep : ∀ {row}, row ∈ (overlayEntry cache entry).entries →
          row ∈ cache.entries ∨ row = entry := by
        intro row hrow
        unfold overlayEntry at hrow
        split at hrow
        · split at hrow
          · exact (Table.mem_of_mem_upsert hrow).symm
          · exact .inl hrow
        · exact (Table.mem_of_mem_upsert hrow).symm
      rcases ih h with h | h
      · rcases hstep h with h | rfl
        · exact .inl h
        · exact .inr List.mem_cons_self
      · exact .inr (List.mem_cons_of_mem _ h)

-- A baseline leaves nothing of an earlier epoch.
theorem installBaseline_mem (hepoch : cache.epoch = epoch) {objects : List HomeObject}
    {row : ObjectKey × CacheEntry} (h : row ∈ (cache.installBaseline epoch objects).entries) :
    (row ∈ cache.entries ∧ row.2.epoch = epoch) ∨
      ∃ obj ∈ objects, row = (obj.key, liveEntry epoch obj) := by
  unfold installBaseline at h
  rw [if_neg (not_not.mpr hepoch.symm)] at h
  rcases overlays_mem h with h | h
  · rcases upserts_mem h with h | h
    · cases h
    · exact .inr h
  · obtain ⟨hrow, hsame⟩ := List.mem_filter.mp h
    exact .inl ⟨hrow, of_decide_eq_true hsame⟩

end ObjectCache

open ObjectCache

section Recorded

-- An entry made from the event at `i` of the log, and what it says of its key after the
-- first `c` events.
structure Recorded (log : List StoreEvent) (c : Nat) (key : ObjectKey) (entry : CacheEntry)
    (i : Nat) (ev : StoreEvent) : Prop where
  event : log[i]? = some ev
  uid : entry.uid = evUid ev
  revision : entry.resourceVersion = (i : Int) + 1
  object : entry.object = if entry.tombstone then none else some ev.object.redact
  known : Known evKey evUid evDead log key c (if entry.tombstone then .Dead i else .Live i)

def Learned (log : List StoreEvent) (c : Nat) (key : ObjectKey) : Option CacheEntry → Prop
  | none => Absent evKey evDead key (log.take c)
  | some entry => ∃ i ev, Recorded log c key entry i ev

variable {log : List StoreEvent} {s : Store} {c i : Nat} {key : ObjectKey} {entry : CacheEntry}
  {ev : StoreEvent}

theorem Recorded.key_eq (h : Recorded log c key entry i ev) : evKey ev = key := by
  have hknown := h.known
  split_ifs at hknown
  · cases hknown with
    | Dead he hkey => rwa [Option.some.inj (h.event.symm.trans he)]
  · cases hknown with
    | Live he hkey => rwa [Option.some.inj (h.event.symm.trans he)]

theorem Recorded.with_known (h : Recorded log c key entry i ev) {log' : List StoreEvent} {c' : Nat}
    (hevent : log'[i]? = some ev)
    (hknown : ∀ view, view ≠ .Unknown → Known evKey evUid evDead log key c view →
      Known evKey evUid evDead log' key c' view) : Recorded log' c' key entry i ev := by
  refine ⟨hevent, h.uid, h.revision, h.object, hknown _ ?_ h.known⟩
  split_ifs <;> simp

theorem Recorded.append (h : Recorded log c key entry i ev) (hc : c ≤ log.length)
    (more : List StoreEvent) : Recorded (log ++ more) c key entry i ev :=
  h.with_known (Incarnations.getElem?_append_of_some h.event) fun _ _ hknown =>
    hknown.append hc more

theorem Recorded.earlier (h : Recorded log c key entry i ev) {c' : Nat} (hc : c' ≤ c) :
    Recorded log c' key entry i ev :=
  h.with_known h.event fun _ hview hknown => hknown.earlier hview hc

theorem recorded_live (hl : Logged log s) (epoch : Nat) (hev : log[i]? = some ev)
    (hknown : Known evKey evUid evDead log key c (.Live i)) :
    Recorded log c key (liveEntry epoch ev.object.redact) i ev where
  event := hev
  uid := by simp [liveEntry, evUid]
  revision := by simpa [liveEntry] using hl.revision_eq hev
  object := by simp [liveEntry]
  known := by simpa [liveEntry] using hknown

theorem recorded_dead (hl : Logged log s) (epoch : Nat) (hev : log[i]? = some ev)
    (hknown : Known evKey evUid evDead log key c (.Dead i)) {obj : HomeObject}
    (hobj : obj.metadata = ev.object.metadata) :
    Recorded log c key (deadEntry epoch obj) i ev where
  event := hev
  uid := by simp [deadEntry, evUid, hobj]
  revision := by simpa [deadEntry, hobj] using hl.revision_eq hev
  object := by simp [deadEntry]
  known := by simpa [deadEntry] using hknown

-- The next event of the log, as the stream hands it out.
theorem recorded_item (hl : Logged log s) (epoch : Nat) (hev : log[c]? = some ev) :
    Recorded log (c + 1) (evKey ev) (entryOf epoch (itemOf .Cli ev)) c ev := by
  by_cases hdead : ev.watch = .Deleted
  · have hentry : entryOf epoch (itemOf .Cli ev) = deadEntry epoch ev.object.redact := by
      simp [entryOf, itemOf, hdead, Serve.maybeRedact]
    rw [hentry]
    exact recorded_dead hl epoch hev (Incarnations.known_removed hev (by simp [evDead, hdead]))
      (by simp)
  · have hentry : entryOf epoch (itemOf .Cli ev) = liveEntry epoch ev.object.redact := by
      simp [entryOf, itemOf, hdead, Serve.maybeRedact]
    rw [hentry]
    exact recorded_live hl epoch hev (Incarnations.known_put hev (by simp [evDead, hdead]))

theorem Learned.append {known : Option CacheEntry} (h : Learned log c key known)
    (hc : c ≤ log.length) (more : List StoreEvent) : Learned (log ++ more) c key known := by
  cases known with
  | none =>
      have hknown : Absent evKey evDead key (log.take c) := h
      show Absent evKey evDead key ((log ++ more).take c)
      rwa [List.take_append_of_le_length hc]
  | some entry =>
      obtain ⟨i, ev, hrec⟩ := h
      exact ⟨i, ev, hrec.append hc more⟩

-- An event of another key.
theorem Learned.skip {known : Option CacheEntry} (h : Learned log c key known)
    (hother : ∀ ev, log[c]? = some ev → evKey ev ≠ key) : Learned log (c + 1) key known := by
  cases known with
  | none =>
      have hknown : Known evKey evUid evDead log key c .Unknown := .Unknown h
      cases hknown.skip hother with
      | Unknown hnext => exact hnext
  | some entry =>
      obtain ⟨i, ev, hrec⟩ := h
      exact ⟨i, ev, hrec.with_known hrec.event fun _ _ hknown => hknown.skip hother⟩

-- An event the entry refuses tells nothing that the entry does not say already.
theorem Recorded.refused {event : WatchEvent} {epoch : Nat} {i' : Nat} {ev' : StoreEvent}
    (h : Recorded log c key entry i ev)
    (hnew : Recorded log (c + 1) key (entryOf epoch event) i' ev') (hi : i' = c)
    (hrefused : ¬acceptRevision entry event.2.metadata.resourceVersion event.2.metadata.uid event) :
    Recorded log (c + 1) key entry i ev := by
  have huid : event.2.metadata.uid = evUid ev' := by
    rw [← hnew.uid]
    unfold entryOf
    split <;> rfl
  have hrv : event.2.metadata.resourceVersion = (c : Int) + 1 := by
    rw [← hi, ← hnew.revision]
    unfold entryOf
    split <;> rfl
  have hlast : log[c]? = some ev' := hi ▸ hnew.event
  have hrevision := h.revision
  have hknown := h.known
  refine ⟨h.event, h.uid, h.revision, h.object, ?_⟩
  rw [acceptRevision, huid, hrv, h.uid] at hrefused
  cases htomb : entry.tombstone with
  | false =>
      rw [htomb] at hknown hrefused
      have hi : c ≤ i := by
        by_contra hlt
        have hnlt : ¬((c : Int) + 1 < entry.resourceVersion) := by omega
        have hne : ¬((c : Int) + 1 = entry.resourceVersion) := by omega
        simp [hnlt, hne] at hrefused
      exact hknown.live_ahead hi
  | true =>
      rw [htomb] at hknown hrefused
      by_cases hsame : evUid ev' = evUid ev
      · exact hknown.dead_same h.event hlast hsame
      · have hi : c ≤ i := by
          by_contra hlt
          have hnlt : ¬((c : Int) + 1 < entry.resourceVersion) := by omega
          simp [hnlt, hsame] at hrefused
        exact hknown.dead_ahead hi

-- What is known of a key after an event of it.
theorem Learned.accepted {known : Option CacheEntry} {event : WatchEvent}
    {epoch c' i' : Nat} {ev' : StoreEvent} (h : known ≠ none → Learned log c key known)
    (hnew : Recorded log c' key (entryOf epoch event) i' ev')
    (hc : c' = c ∨ (c' = c + 1 ∧ (known ≠ none → i' = c))) :
    Learned log c' key (some (ObjectCache.accepted epoch event known)) := by
  cases known with
  | none => exact ⟨i', ev', hnew⟩
  | some existing =>
      obtain ⟨i, ev, hrec⟩ := h (by simp)
      unfold ObjectCache.accepted
      dsimp only
      split_ifs with haccept
      · exact ⟨i', ev', hnew⟩
      · rcases hc with rfl | ⟨rfl, hi⟩
        · exact ⟨i, ev, hrec⟩
        · exact ⟨i, ev, hrec.refused hnew (hi (by simp)) haccept⟩

end Recorded

end Mediaops.Tui
