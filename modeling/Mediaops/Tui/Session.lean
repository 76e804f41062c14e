import Mediaops.Tui.Feed

namespace Mediaops.Tui

-- The session hears what the subscription sends, in order and once.

open Incarnations (Known View Absent lastOf)
open Serve (itemOf maybeRedact Stream redact_kind redact_metadata redact_key)
open Store (evKey evUid evDead Logged)

-- An event that changes the cache of a session in its epoch.
def SessionEvent.Carries (epoch : Nat) : SessionEvent → Prop
  | .Watch e _ | .Baseline e _ => e = epoch
  | _ => False

-- What the subscription sends as it goes from one phase to the next.
inductive Sends (w : World) : Phase → List SessionEvent → Prop where
  | Open (hphase : w.phase = .Connecting) (items : List Serve.WatchItem) (stream : Stream)
      (hwatch : Serve.watch w.store .Cli [] 0 = .ok (items, stream)) :
      Sends w (.Watching { pending := items.map .ok, stream := some stream }) []
  | Wait (watched : Watched) (hphase : w.phase = .Watching watched) (stream : Stream)
      (hstream : watched.stream = some stream) :
      Sends w (.Watching (w.polled watched stream)) []
  | Baseline (watched : Watched) (hphase : w.phase = .Watching watched)
      (objects : List HomeObject) (hlist : Serve.list w.store .Cli [] = .ok objects) :
      Sends w (.Following (observedBaseline objects) watched)
        [.Connected w.epoch, .Baseline w.epoch objects]
  | Poll (observed : ObjectCache) (watched : Watched)
      (hphase : w.phase = .Following observed watched) (stream : Stream)
      (hstream : watched.stream = some stream) :
      Sends w (.Following observed (w.polled watched stream)) []
  | Item (observed : ObjectCache) (event event' : WatchEvent) (rest : Watched)
      (hphase : w.phase = .Following observed { rest with pending := .ok event :: rest.pending })
      (hres : resolve w.store observed event = .ok event') :
      Sends w (.Following (observed.applyEvent localEpoch event').2 rest)
        (if (observed.applyEvent localEpoch event').1 then [.Watch w.epoch event'] else [])
  | Close (event : SessionEvent) (hquiet : ¬event.Carries w.epoch) : Sends w .Done [event]

-- A step writes, sends or delivers.
theorem step_cases {w w' : World} (h : Step w w') :
    (∃ ev, Store.Lawful w.store ev ∧
      w' = { w with store := w.store.write ev, log := w.log ++ [ev] }) ∨
    (∃ phase events, Sends w phase events ∧ w' = w.send phase events) ∨
    (∃ event rest, w.queue = event :: rest ∧ w' = w.deliver event rest) := by
  have hclose : ∀ event : SessionEvent, ¬event.Carries w.epoch →
      ∃ phase events, Sends w phase events ∧ w.send .Done [event] = w.send phase events :=
    fun event hquiet => ⟨_, _, .Close event hquiet, rfl⟩
  cases h with
  | Write ev hev => exact .inl ⟨ev, hev, rfl⟩
  | Refused _ message => exact .inr (.inl (hclose _ fun h => h))
  | Watch hphase items stream hwatch =>
      exact .inr (.inl ⟨_, _, .Open hphase items stream hwatch, rfl⟩)
  | List watched hphase objects hlist =>
      exact .inr (.inl ⟨_, _, .Baseline watched hphase objects hlist, rfl⟩)
  | ListFailed _ _ message => exact .inr (.inl (hclose _ fun h => h))
  | PollWatching watched hphase stream hstream =>
      exact .inr (.inl ⟨_, _, .Wait watched hphase stream hstream, rfl⟩)
  | Poll observed watched hphase stream hstream =>
      exact .inr (.inl ⟨_, _, .Poll observed watched hphase stream hstream, rfl⟩)
  | Receive observed item rest hphase =>
      unfold World.receive
      cases item with
      | error e => exact .inr (.inl (hclose _ fun h => h))
      | ok event =>
          dsimp only
          split
          · exact .inr (.inl (hclose _ fun h => h))
          · next event' hres => exact .inr (.inl ⟨_, _, .Item observed event event' rest hphase hres, rfl⟩)
  | Ended _ _ => exact .inr (.inl (hclose _ fun h => h))
  | Failed _ message => exact .inr (.inl (hclose _ fun h => h))
  | Deliver event rest hqueue => exact .inr (.inr ⟨event, rest, hqueue, rfl⟩)

namespace Session

variable {session : Session}

theorem applyEvent_other {event : SessionEvent} (h : event.epoch ≠ session.cache.epoch) :
    session.applyEvent event = session := by
  unfold applyEvent
  dsimp only
  rw [if_pos (.inl h)]

theorem applyEvent_failed {event : SessionEvent}
    (h : session.failedEpoch = some session.cache.epoch) : session.applyEvent event = session := by
  unfold applyEvent
  dsimp only
  by_cases hepoch : event.epoch = session.cache.epoch
  · rw [if_pos (.inr (by rw [h, hepoch]))]
  · rw [if_pos (.inl hepoch)]

-- An event that carries nothing leaves the cache.
theorem applyEvent_quiet {event : SessionEvent} (h : ¬event.Carries session.cache.epoch) :
    (session.applyEvent event).cache = session.cache := by
  by_cases hepoch : event.epoch = session.cache.epoch
  · unfold applyEvent
    dsimp only
    split
    · rfl
    · cases event with
      | ConnectFailed e message =>
          dsimp only
          split <;> rfl
      | Baseline e objects => exact absurd hepoch h
      | Watch e event => exact absurd hepoch h
      | _ => rfl
  · rw [applyEvent_other hepoch]

theorem applyEvent_watch (event : WatchEvent) {epoch : Nat} (h : session.cache.epoch = epoch)
    (hok : session.failedEpoch ≠ some epoch) :
    session.applyEvent (.Watch epoch event) =
      { session with cache := (session.cache.applyEvent epoch event).2 } := by
  unfold applyEvent
  dsimp only [SessionEvent.epoch]
  rw [if_neg (by simp [h, hok])]

theorem applyEvent_baseline (objects : List HomeObject) {epoch : Nat}
    (h : session.cache.epoch = epoch) (hok : session.failedEpoch ≠ some epoch) :
    (session.applyEvent (.Baseline epoch objects)).cache =
        session.cache.installBaseline epoch objects ∧
      (session.applyEvent (.Baseline epoch objects)).failedEpoch = session.failedEpoch := by
  unfold applyEvent
  dsimp only [SessionEvent.epoch]
  rw [if_neg (by simp [h, hok])]
  exact ⟨rfl, rfl⟩

theorem applyEvent_connected (epoch : Nat) :
    (session.applyEvent (.Connected epoch)).cache = session.cache ∧
      (session.applyEvent (.Connected epoch)).failedEpoch = session.failedEpoch := by
  unfold applyEvent
  dsimp only
  split <;> exact ⟨rfl, rfl⟩

-- Whatever the event, the cache takes a baseline, a watch event or nothing.
theorem applyEvent_cache (event : SessionEvent) :
    (session.applyEvent event).cache = session.cache ∨
    (∃ change, event = .Watch session.cache.epoch change ∧
      (session.applyEvent event).cache =
        (session.cache.applyEvent session.cache.epoch change).2) ∨
    (∃ objects, event = .Baseline session.cache.epoch objects ∧
      (session.applyEvent event).cache =
        session.cache.installBaseline session.cache.epoch objects) := by
  by_cases hfailed : session.failedEpoch = some session.cache.epoch
  · exact .inl (by rw [applyEvent_failed hfailed])
  by_cases hquiet : event.Carries session.cache.epoch
  · cases event with
    | Watch e change =>
        obtain rfl : e = session.cache.epoch := hquiet
        exact .inr (.inl ⟨change, rfl, by rw [applyEvent_watch change rfl hfailed]⟩)
    | Baseline e objects =>
        obtain rfl : e = session.cache.epoch := hquiet
        exact .inr (.inr ⟨objects, rfl, (applyEvent_baseline objects rfl hfailed).1⟩)
    | _ => exact False.elim hquiet
  · exact .inl (applyEvent_quiet hquiet)

theorem applyEvent_epoch (event : SessionEvent) :
    (session.applyEvent event).cache.epoch = session.cache.epoch := by
  rcases session.applyEvent_cache event with h | ⟨change, -, h⟩ | ⟨objects, -, h⟩
  · rw [h]
  · rw [h, ObjectCache.applyEvent_epoch]
  · rw [h, ObjectCache.installBaseline_epoch]

theorem applyEvent_keyed (hk : Table.Keyed Prod.fst session.cache.entries) (event : SessionEvent) :
    Table.Keyed Prod.fst (session.applyEvent event).cache.entries := by
  rcases session.applyEvent_cache event with h | ⟨change, -, h⟩ | ⟨objects, -, h⟩
  · rwa [h]
  · rw [h]
    exact ObjectCache.applyEvent_keyed hk change
  · rw [h]
    exact ObjectCache.installBaseline_keyed hk objects

end Session

theorem step_epoch {w w' : World} (h : Step w w') : w'.epoch = w.epoch := by
  rcases step_cases h with ⟨ev, -, rfl⟩ | ⟨phase, events, -, rfl⟩ | ⟨event, rest, -, rfl⟩
  · rfl
  · rfl
  · exact w.session.applyEvent_epoch event

section Settled

-- The session once all that is in its channel has reached it.
def settled (session : Session) (queue : List SessionEvent) : Session :=
  queue.foldl Session.applyEvent session

theorem settled_append (session : Session) (queue more : List SessionEvent) :
    settled session (queue ++ more) = settled (settled session queue) more := List.foldl_append

theorem settled_epoch (session : Session) (queue : List SessionEvent) :
    (settled session queue).cache.epoch = session.cache.epoch := by
  induction queue generalizing session with
  | nil => rfl
  | cons event queue ih =>
      rw [settled, List.foldl_cons]
      exact (ih _).trans (session.applyEvent_epoch event)

theorem settled_other {session : Session} {queue : List SessionEvent}
    (h : ∀ event ∈ queue, event.epoch ≠ session.cache.epoch) :
    settled session queue = session := by
  induction queue with
  | nil => rfl
  | cons event queue ih =>
      rw [settled, List.foldl_cons, Session.applyEvent_other (h event List.mem_cons_self)]
      exact ih fun other hother => h other (List.mem_cons_of_mem _ hother)

def CacheEntry.atEpoch (epoch : Nat) (entry : CacheEntry) : CacheEntry := { entry with epoch }

structure Mirrored (session : Session) (epoch : Nat) (observed : ObjectCache) : Prop where
  entries : ∀ key, session.cache.get key = (observed.get key).map (CacheEntry.atEpoch epoch)
  failed : session.failedEpoch ≠ some epoch

-- The session will be where the subscription is.
def Mirror (w : World) : Prop :=
  match w.phase with
  | .Connecting | .Watching _ =>
      (∀ event ∈ w.queue, event.epoch ≠ w.epoch) ∧
      (∀ entry ∈ w.session.cache.entries, entry.2.epoch ≠ w.epoch) ∧
      w.session.failedEpoch ≠ some w.epoch
  | .Following observed _ => Mirrored (settled w.session w.queue) w.epoch observed
  | .Done => True

theorem acceptRevision_atEpoch (epoch : Nat) (entry : CacheEntry) (rv : Int) (uid : Text)
    (event : WatchEvent) :
    acceptRevision (entry.atEpoch epoch) rv uid event = acceptRevision entry rv uid event := rfl

theorem accepted_atEpoch (epoch epoch' : Nat) (event : WatchEvent) (known : Option CacheEntry) :
    ObjectCache.accepted epoch event (known.map (CacheEntry.atEpoch epoch)) =
      (ObjectCache.accepted epoch' event known).atEpoch epoch := by
  have hentry : entryOf epoch event = (entryOf epoch' event).atEpoch epoch := by
    unfold entryOf
    split <;> rfl
  cases known with
  | none => exact hentry
  | some existing =>
      have hsame := acceptRevision_atEpoch epoch existing event.2.metadata.resourceVersion
        event.2.metadata.uid event
      rw [Option.map_some]
      unfold ObjectCache.accepted
      dsimp only
      by_cases haccept : acceptRevision existing event.2.metadata.resourceVersion
          event.2.metadata.uid event
      · rw [if_pos haccept, if_pos (hsame.trans haccept)]
        exact hentry
      · rw [if_neg haccept, if_neg (by rwa [hsame])]

theorem mirror_send {w : World} (hl : Logged w.log w.store) (hstage : Stage w.log w.phase)
    (h : Mirror w) {phase : Phase} {events : List SessionEvent} (hsends : Sends w phase events) :
    Mirror (w.send phase events) := by
  cases hsends with
  | Open hphase items stream hwatch =>
      rw [Mirror, hphase] at h
      simpa [Mirror, World.send, World.epoch] using h
  | Wait watched hphase stream hstream =>
      rw [Mirror, hphase] at h
      simpa [Mirror, World.send, World.epoch] using h
  | Close event hquiet => trivial
  | Poll observed watched hphase stream hstream =>
      rw [Mirror, hphase] at h
      simpa [Mirror, World.send, World.epoch] using h
  | Baseline watched hphase objects hlist =>
      rw [Mirror, hphase] at h
      obtain ⟨hqueue, hfresh, hok⟩ := h
      obtain ⟨hkept, hstill⟩ := w.session.applyEvent_connected w.epoch
      set connected := w.session.applyEvent (.Connected w.epoch) with hconnected
      have hsettled : settled w.session (w.queue ++ [.Connected w.epoch, .Baseline w.epoch objects]) =
          connected.applyEvent (.Baseline w.epoch objects) := by
        rw [settled_append, settled_other hqueue, settled, List.foldl_cons, ← hconnected]
        rfl
      have hepoch : connected.cache.epoch = w.epoch := by rw [hkept]; rfl
      obtain ⟨hcache, hfailed⟩ := connected.applyEvent_baseline objects hepoch (by rwa [hstill])
      show Mirrored (settled w.session (w.queue ++ _)) w.epoch _
      rw [hsettled]
      refine ⟨fun key => ?_, by rwa [hfailed, hstill]⟩
      have hinstalled : (w.session.cache.installBaseline w.epoch objects).get key = _ :=
        get_baseline hl hlist rfl hfresh key
      rw [hcache, hkept, get_observed hl hlist, hinstalled, Option.map_map]
      rfl
  | Item observed event event' rest hphase hres =>
      rw [Mirror, hphase] at h
      rw [hphase] at hstage
      obtain ⟨hentries, hok⟩ := h
      obtain ⟨hepoch, -⟩ := hstage
      have hsession : (settled w.session w.queue).cache.epoch = w.epoch := settled_epoch _ _
      by_cases haccepted : (observed.applyEvent localEpoch event').1
      · rw [if_pos haccepted]
        have hsettled : settled w.session (w.queue ++ [.Watch w.epoch event']) =
            { settled w.session w.queue with
              cache := ((settled w.session w.queue).cache.applyEvent w.epoch event').2 } := by
          rw [settled_append]
          exact Session.applyEvent_watch event' hsession hok
        show Mirrored (settled w.session (w.queue ++ _)) w.epoch _
        rw [hsettled]
        refine ⟨fun key => ?_, hok⟩
        dsimp only
        rw [ObjectCache.get_applyEvent hsession, ObjectCache.get_applyEvent hepoch, hentries key]
        split_ifs
        · rw [Option.map_some, accepted_atEpoch]
        · rfl
      · rw [if_neg haccepted]
        have hsame : (observed.applyEvent localEpoch event').2 = observed := by
          rw [ObjectCache.applyEvent_eq hepoch] at haccepted ⊢
          split
          · rfl
          · next hrefused => rw [if_neg hrefused] at haccepted; exact absurd rfl haccepted
        rw [hsame]
        show Mirrored (settled w.session (w.queue ++ [])) w.epoch observed
        rw [List.append_nil]
        exact ⟨hentries, hok⟩

theorem mirror_deliver {w : World} (h : Mirror w) {event : SessionEvent}
    {rest : List SessionEvent} (hqueue : w.queue = event :: rest) : Mirror (w.deliver event rest) := by
  have hepoch := w.session.applyEvent_epoch event
  unfold World.deliver
  dsimp only
  by_cases hfailed : (w.session.applyEvent event).failedEpoch = some w.epoch
  · rw [if_pos hfailed]
    trivial
  · rw [if_neg hfailed]
    unfold Mirror at h ⊢
    dsimp only [World.epoch] at h hepoch ⊢
    rw [hqueue] at h
    rw [hepoch]
    split at h
    · obtain ⟨hothers, hfresh, hok⟩ := h
      rw [Session.applyEvent_other (hothers event List.mem_cons_self)]
      exact ⟨fun other hother => hothers other (List.mem_cons_of_mem _ hother), hfresh, hok⟩
    · obtain ⟨hothers, hfresh, hok⟩ := h
      rw [Session.applyEvent_other (hothers event List.mem_cons_self)]
      exact ⟨fun other hother => hothers other (List.mem_cons_of_mem _ hother), hfresh, hok⟩
    · exact h
    · trivial

end Settled

end Mediaops.Tui
