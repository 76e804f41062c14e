import Mathlib.Logic.Relation
import Mediaops.Tui.Session

namespace Mediaops.Tui

-- The cache of the session at the end of a subscription, and on the way there.

open Incarnations (Known View Absent lastOf)
open Serve (maybeRedact)
open Store (evKey evUid evDead Logged)

def Reaches : World → World → Prop := Relation.ReflTransGen Step

variable {w w' : World}

section Origin

-- Every entry that an event brings is of the log.
def SessionEvent.Founded (log : List StoreEvent) (epoch : Nat) : SessionEvent → Prop
  | .Watch e event => e = epoch → ∃ i ev, Recorded log 0 event.2.key (entryOf epoch event) i ev
  | .Baseline e objects => e = epoch → ∀ obj ∈ objects,
      ∃ i ev, Recorded log 0 obj.key (ObjectCache.liveEntry epoch obj) i ev
  | _ => True

-- What the session has and what is on its way to it come from the log.
structure Sent (w : World) : Prop where
  entries : ∀ row ∈ w.session.cache.entries, row.2.epoch = w.epoch →
    ∃ i ev, Recorded w.log 0 row.1 row.2 i ev
  queue : ∀ event ∈ w.queue, event.Founded w.log w.epoch

theorem recorded_more {key : ObjectKey} {entry : CacheEntry} {log : List StoreEvent}
    (h : ∃ i ev, Recorded log 0 key entry i ev) (more : List StoreEvent) :
    ∃ i ev, Recorded (log ++ more) 0 key entry i ev := by
  obtain ⟨i, ev, hrec⟩ := h
  exact ⟨i, ev, hrec.append (Nat.zero_le _) more⟩

theorem Sent.write (h : Sent w) (ev : StoreEvent) :
    Sent { w with store := w.store.write ev, log := w.log ++ [ev] } where
  entries row hrow hepoch := recorded_more (h.entries row hrow hepoch) [ev]
  queue event hevent := by
    have hfounded := h.queue event hevent
    cases event with
    | Watch e event => exact fun he => recorded_more (hfounded he) [ev]
    | Baseline e objects => exact fun he obj hobj => recorded_more (hfounded he obj hobj) [ev]
    | _ => trivial

theorem founded_quiet {log : List StoreEvent} {event : SessionEvent} {epoch : Nat}
    (h : ¬event.Carries epoch) : event.Founded log epoch := by
  cases event with
  | Watch e event => exact fun he => absurd he h
  | Baseline e objects => exact fun he => absurd he h
  | _ => trivial

theorem sends_founded (hl : Logged w.log w.store) (hstage : Stage w.log w.phase) {phase : Phase}
    {events : List SessionEvent} (hsends : Sends w phase events) {event : SessionEvent}
    (hevent : event ∈ events) : event.Founded w.log w.epoch := by
  cases hsends with
  | Open _ _ _ _ => cases hevent
  | Wait _ _ _ _ => cases hevent
  | Poll _ _ _ _ _ => cases hevent
  | Close event hquiet =>
      obtain rfl := List.mem_singleton.mp hevent
      exact founded_quiet hquiet
  | Baseline watched hphase objects hlist =>
      rcases List.mem_cons.mp hevent with rfl | hevent
      · trivial
      obtain rfl := List.mem_singleton.mp hevent
      intro _ obj hobj
      obtain rfl := list_ok hlist
      obtain ⟨row, hrow, rfl⟩ := List.mem_map.mp hobj
      have hfound : w.store.get row.key.1 row.key.2 = some row :=
        Table.lookup_of_mem hl.journaled.keyed ((rows_perm w.store).mem_iff.mp hrow)
      obtain ⟨i, ev, hev, rfl, hknown⟩ := row_known hl hfound
      rw [maybeRedact, if_pos rfl, Serve.redact_key]
      exact ⟨i, ev, recorded_live hl _ hev (hknown.earlier (by simp) (Nat.zero_le _))⟩
  | Item observed raw event' rest hphase hres =>
      split at hevent
      · obtain rfl := List.mem_singleton.mp hevent
        rw [hphase] at hstage
        exact fun _ => item_recorded hl hstage hres w.epoch
      · cases hevent

theorem Sent.send (h : Sent w) (hl : Logged w.log w.store) (hstage : Stage w.log w.phase)
    {phase : Phase} {events : List SessionEvent} (hsends : Sends w phase events) :
    Sent (w.send phase events) where
  entries := h.entries
  queue event hevent := by
    rcases List.mem_append.mp hevent with hold | hnew
    · exact h.queue event hold
    · exact sends_founded hl hstage hsends hnew

theorem Sent.deliver (h : Sent w) {event : SessionEvent} {rest : List SessionEvent}
    (hqueue : w.queue = event :: rest) : Sent (w.deliver event rest) where
  entries row hrow hepoch := by
    have hsame : (w.deliver event rest).epoch = w.epoch := w.session.applyEvent_epoch event
    rw [hsame] at hepoch
    have hfounded := h.queue event (hqueue ▸ List.mem_cons_self)
    have hcache : row ∈ (w.session.applyEvent event).cache.entries := hrow
    rcases w.session.applyEvent_cache event with hkept | ⟨change, rfl, htaken⟩ |
      ⟨objects, rfl, htaken⟩
    · rw [hkept] at hcache
      exact h.entries row hcache hepoch
    · rw [htaken] at hcache
      rcases ObjectCache.applyEvent_mem hcache with hold | rfl
      · exact h.entries row hold hepoch
      · exact hfounded rfl
    · rw [htaken] at hcache
      rcases ObjectCache.installBaseline_mem rfl hcache with ⟨hold, -⟩ | ⟨obj, hobj, rfl⟩
      · exact h.entries row hold hepoch
      · exact hfounded rfl obj hobj
  queue other hother := by
    have hsame : (w.deliver event rest).epoch = w.epoch := w.session.applyEvent_epoch event
    rw [hsame]
    exact h.queue other (hqueue ▸ List.mem_cons_of_mem _ hother)

end Origin

section Order

-- The subscription has done its List, or is over.
def Phase.Opened : Phase → Prop
  | .Connecting | .Watching _ => False
  | .Following _ _ | .Done => True

def Fresh (w : World) : Prop := ∀ row ∈ w.session.cache.entries, row.2.epoch ≠ w.epoch

def NoBaseline (epoch : Nat) (events : List SessionEvent) : Prop :=
  ∀ objects, SessionEvent.Baseline epoch objects ∉ events

def Quiet (epoch : Nat) (events : List SessionEvent) : Prop :=
  ∀ event ∈ events, ¬SessionEvent.Carries epoch event

-- The baseline has been installed and no other is to come.
structure Installed (w : World) : Prop where
  opened : w.phase.Opened
  queue : NoBaseline w.epoch w.queue
  entries : ∀ row ∈ w.session.cache.entries, row.2.epoch = w.epoch

-- The baseline is sent once, ahead of every event of the watch.
inductive Order (w : World) : Prop where
  | Before (hfresh : Fresh w) (hphase : ¬w.phase.Opened) (hquiet : Quiet w.epoch w.queue)
  | Underway (hfresh : Fresh w) (hphase : w.phase.Opened) (ahead later : List SessionEvent)
      (objects : List HomeObject)
      (hqueue : w.queue = ahead ++ SessionEvent.Baseline w.epoch objects :: later)
      (hquiet : Quiet w.epoch ahead) (hlater : NoBaseline w.epoch later)
  | Lost (hfresh : Fresh w) (hphase : w.phase.Opened)
      (hlost : w.session.failedEpoch = some w.epoch ∨ (w.phase = .Done ∧ Quiet w.epoch w.queue))
  | Installed (h : Installed w)

theorem NoBaseline.append {epoch : Nat} {events more : List SessionEvent}
    (h : NoBaseline epoch events) (hmore : NoBaseline epoch more) :
    NoBaseline epoch (events ++ more) := fun objects hmem =>
  (List.mem_append.mp hmem).elim (h objects) (hmore objects)

theorem Quiet.append {epoch : Nat} {events more : List SessionEvent}
    (h : Quiet epoch events) (hmore : Quiet epoch more) : Quiet epoch (events ++ more) :=
  fun event hmem => (List.mem_append.mp hmem).elim (h event) (hmore event)

-- Once opened, a subscription sends no baseline.
theorem sends_opened {phase : Phase} {events : List SessionEvent} (hsends : Sends w phase events)
    (h : w.phase.Opened) : phase.Opened ∧ NoBaseline w.epoch events := by
  cases hsends with
  | Open hphase _ _ _ =>
      rw [hphase] at h
      exact False.elim h
  | Wait _ hphase _ _ =>
      rw [hphase] at h
      exact False.elim h
  | Baseline _ hphase _ _ =>
      rw [hphase] at h
      exact False.elim h
  | Poll _ _ _ _ _ => exact ⟨trivial, by simp [NoBaseline]⟩
  | Item observed raw event' rest hphase hres =>
      refine ⟨trivial, fun objects hmem => ?_⟩
      split at hmem <;> simp at hmem
  | Close event hquiet =>
      refine ⟨trivial, fun objects hmem => ?_⟩
      rw [List.mem_singleton] at hmem
      exact hquiet (hmem ▸ rfl)

theorem Installed.send (h : Installed w) {phase : Phase} {events : List SessionEvent}
    (hsends : Sends w phase events) : Installed (w.send phase events) := by
  obtain ⟨hopened, hnone⟩ := sends_opened hsends h.opened
  exact ⟨hopened, h.queue.append hnone, h.entries⟩

theorem deliver_opened (h : w.phase.Opened) (event : SessionEvent) (rest : List SessionEvent) :
    (w.deliver event rest).phase.Opened := by
  unfold World.deliver
  dsimp only
  split
  · trivial
  · exact h

theorem Installed.deliver (h : Installed w) {event : SessionEvent} {rest : List SessionEvent}
    (hqueue : w.queue = event :: rest) : Installed (w.deliver event rest) := by
  have hsame : (w.deliver event rest).epoch = w.epoch := w.session.applyEvent_epoch event
  refine ⟨deliver_opened h.opened event rest, ?_, fun row hrow => ?_⟩
  · rw [hsame]
    exact fun objects hmem => h.queue objects (hqueue ▸ List.mem_cons_of_mem _ hmem)
  · rw [hsame]
    have hcache : row ∈ (w.session.applyEvent event).cache.entries := hrow
    rcases w.session.applyEvent_cache event with hkept | ⟨change, rfl, htaken⟩ |
      ⟨objects, rfl, -⟩
    · rw [hkept] at hcache
      exact h.entries row hcache
    · rw [htaken] at hcache
      rcases ObjectCache.applyEvent_mem hcache with hold | rfl
      · exact h.entries row hold
      · unfold entryOf
        split <;> rfl
    · exact absurd (hqueue ▸ List.mem_cons_self) (h.queue objects)

theorem Installed.step (h : Installed w) (hstep : Step w w') : Installed w' := by
  rcases step_cases hstep with ⟨ev, -, rfl⟩ | ⟨phase, events, hsends, rfl⟩ |
    ⟨event, rest, hqueue, rfl⟩
  · exact ⟨h.opened, h.queue, h.entries⟩
  · exact h.send hsends
  · exact h.deliver hqueue

theorem Order.send (h : Order w) {phase : Phase} {events : List SessionEvent}
    (hsends : Sends w phase events) : Order (w.send phase events) := by
  cases h with
  | Before hfresh hphase hquiet =>
      cases hsends with
      | Open _ _ _ _ => exact .Before hfresh (fun h => h) (hquiet.append (by simp [Quiet]))
      | Wait _ _ _ _ => exact .Before hfresh (fun h => h) (hquiet.append (by simp [Quiet]))
      | Baseline _ _ objects _ =>
          refine .Underway hfresh trivial (w.queue ++ [.Connected w.epoch]) [] objects ?_ ?_ ?_
          · simp [World.send, World.epoch]
          · refine hquiet.append fun event hmem hcarries => ?_
            rw [List.mem_singleton.mp hmem] at hcarries
            exact hcarries
          · intro objects hmem
            cases hmem
      | Poll _ _ hphase' _ _ =>
          rw [hphase'] at hphase
          exact absurd trivial hphase
      | Item _ _ _ _ hphase' _ =>
          rw [hphase'] at hphase
          exact absurd trivial hphase
      | Close event hquiet' =>
          refine .Lost hfresh trivial (.inr ⟨rfl, hquiet.append fun other hmem => ?_⟩)
          rw [List.mem_singleton.mp hmem]
          exact hquiet'
  | Underway hfresh hphase ahead later objects hqueue hquiet hlater =>
      obtain ⟨hopened, hnone⟩ := sends_opened hsends hphase
      refine .Underway hfresh hopened ahead (later ++ events) objects ?_ hquiet (hlater.append hnone)
      simp [World.send, hqueue, World.epoch]
  | Lost hfresh hphase hlost =>
      obtain ⟨hopened, -⟩ := sends_opened hsends hphase
      rcases hlost with hfailed | ⟨hdone, hquiet⟩
      · exact .Lost hfresh hopened (.inl hfailed)
      · refine .Lost hfresh hopened (.inr ?_)
        cases hsends with
        | Open hphase' _ _ _ => exact absurd (hphase'.symm.trans hdone) (by simp)
        | Wait _ hphase' _ _ => exact absurd (hphase'.symm.trans hdone) (by simp)
        | Baseline _ hphase' _ _ => exact absurd (hphase'.symm.trans hdone) (by simp)
        | Poll _ _ hphase' _ _ => exact absurd (hphase'.symm.trans hdone) (by simp)
        | Item _ _ _ _ hphase' _ => exact absurd (hphase'.symm.trans hdone) (by simp)
        | Close event hquiet' =>
            refine ⟨rfl, hquiet.append fun other hmem => ?_⟩
            rw [List.mem_singleton.mp hmem]
            exact hquiet'
  | Installed h => exact .Installed (h.send hsends)

-- What carries nothing, and what comes after a failure, leaves the entries.
theorem deliver_fresh {event : SessionEvent} (hfresh : Fresh w)
    (h : w.session.failedEpoch = some w.epoch ∨ ¬event.Carries w.epoch)
    (rest : List SessionEvent) : Fresh (w.deliver event rest) := by
  have hcache : (w.session.applyEvent event).cache = w.session.cache := by
    rcases h with hfailed | hquiet
    · rw [Session.applyEvent_failed hfailed]
    · exact Session.applyEvent_quiet hquiet
  intro row hrow
  have hmem : row ∈ (w.session.applyEvent event).cache.entries := hrow
  rw [hcache] at hmem
  have hsame : (w.deliver event rest).epoch = w.epoch := w.session.applyEvent_epoch event
  rw [hsame]
  exact hfresh row hmem

theorem Order.deliver (h : Order w) {event : SessionEvent} {rest : List SessionEvent}
    (hqueue : w.queue = event :: rest) : Order (w.deliver event rest) := by
  have hsame : (w.deliver event rest).epoch = w.epoch := w.session.applyEvent_epoch event
  have hrest : ∀ {events : List SessionEvent} {epoch : Nat}, Quiet epoch (event :: events) →
      Quiet epoch events := fun hquiet other hmem => hquiet other (List.mem_cons_of_mem _ hmem)
  cases h with
  | Before hfresh hphase hquiet =>
      rw [hqueue] at hquiet
      have hfresh' := deliver_fresh hfresh (.inr (hquiet event List.mem_cons_self)) rest
      by_cases hfailed : (w.session.applyEvent event).failedEpoch = some w.epoch
      · have hdone : (w.deliver event rest).phase = .Done := by simp [World.deliver, hfailed]
        refine .Lost hfresh' (by rw [hdone]; trivial) (.inr ⟨hdone, ?_⟩)
        rw [hsame]
        exact hrest hquiet
      · have hkept : (w.deliver event rest).phase = w.phase := by simp [World.deliver, hfailed]
        refine .Before hfresh' (by rwa [hkept]) ?_
        rw [hsame]
        exact hrest hquiet
  | Underway hfresh hphase ahead later objects hsplit hquiet hlater =>
      have hopened := deliver_opened hphase event rest
      cases ahead with
      | nil =>
          obtain ⟨rfl, rfl⟩ := List.cons.inj (hqueue.symm.trans hsplit)
          by_cases hfailed : w.session.failedEpoch = some w.epoch
          · refine .Lost (deliver_fresh hfresh (.inl hfailed) _) hopened (.inl ?_)
            show (w.session.applyEvent _).failedEpoch = some (w.deliver _ _).epoch
            rw [hsame, Session.applyEvent_failed hfailed, hfailed]
          · refine .Installed ⟨hopened, by rwa [hsame], fun row hrow => ?_⟩
            rw [hsame]
            have hcache : row ∈ (w.session.applyEvent (.Baseline w.epoch objects)).cache.entries :=
              hrow
            have hepoch : w.session.cache.epoch = w.epoch := rfl
            rw [(Session.applyEvent_baseline objects hepoch hfailed).1] at hcache
            rcases ObjectCache.installBaseline_mem rfl hcache with ⟨-, hrow⟩ | ⟨obj, -, rfl⟩
            · exact hrow
            · rfl
      | cons first ahead =>
          obtain ⟨rfl, rfl⟩ := List.cons.inj (hqueue.symm.trans hsplit)
          refine .Underway (deliver_fresh hfresh (.inr (hquiet event List.mem_cons_self)) _) hopened
            ahead later objects ?_ ?_ ?_
          · rw [hsame]
            rfl
          · rw [hsame]
            exact hrest hquiet
          · rwa [hsame]
  | Lost hfresh hphase hlost =>
      have hopened := deliver_opened hphase event rest
      rcases hlost with hfailed | ⟨hdone, hquiet⟩
      · refine .Lost (deliver_fresh hfresh (.inl hfailed) rest) hopened (.inl ?_)
        show (w.session.applyEvent event).failedEpoch = some (w.deliver event rest).epoch
        rw [hsame, Session.applyEvent_failed hfailed, hfailed]
      · rw [hqueue] at hquiet
        refine .Lost (deliver_fresh hfresh (.inr (hquiet event List.mem_cons_self)) rest) hopened
          (.inr ⟨?_, ?_⟩)
        · unfold World.deliver
          dsimp only
          split
          · rfl
          · exact hdone
        · rw [hsame]
          exact hrest hquiet
  | Installed h => exact .Installed (h.deliver hqueue)

end Order

section Runs

structure Inv (w : World) : Prop where
  logged : Logged w.log w.store
  stage : Stage w.log w.phase
  mirror : Mirror w
  sent : Sent w
  order : Order w
  keyed : Table.Keyed Prod.fst w.session.cache.entries

theorem Starts.inv (h : Starts w) : Inv w := by
  have hquiet : ∀ event ∈ w.queue, ¬event.Carries w.epoch := by
    intro event hevent hcarries
    have hepoch := h.queue event hevent
    cases event with
    | Watch e event => exact hepoch hcarries
    | Baseline e objects => exact hepoch hcarries
    | _ => exact hcarries
  refine ⟨?_, ?_, ?_, ⟨fun row hrow hepoch => absurd hepoch (h.entries row hrow), fun event hevent =>
    founded_quiet (hquiet event hevent)⟩, .Before h.entries ?_ hquiet, h.keyed⟩
  · simpa using Store.logged_empty.trail h.log
  · rw [h.phase]
    trivial
  · rw [Mirror, h.phase]
    exact ⟨h.queue, h.entries, h.failed⟩
  · rw [h.phase]
    exact fun hopened => hopened

theorem stage_send (hl : Logged w.log w.store) (h : Stage w.log w.phase) {phase : Phase}
    {events : List SessionEvent} (hsends : Sends w phase events) : Stage w.log phase := by
  cases hsends with
  | Open hphase items stream hwatch => exact stage_watch hl hwatch
  | Wait watched hphase stream hstream =>
      rw [hphase] at h
      obtain ⟨c, snap, hfeed, hrows⟩ := h
      exact ⟨c, snap, hfeed.polled hl hstream rfl, hrows⟩
  | Baseline watched hphase objects hlist =>
      rw [hphase] at h
      exact stage_list hl h hlist
  | Poll observed watched hphase stream hstream =>
      rw [hphase] at h
      obtain ⟨hepoch, c, snap, hfeed, hknown⟩ := h
      exact ⟨hepoch, c, snap, hfeed.polled hl hstream rfl, hknown⟩
  | Item observed event event' rest hphase hres =>
      rw [hphase] at h
      exact stage_receive hl h hres
  | Close event hquiet => trivial

theorem Inv.step (h : Inv w) (hstep : Step w w') : Inv w' := by
  rcases step_cases hstep with ⟨ev, hev, rfl⟩ | ⟨phase, events, hsends, rfl⟩ |
    ⟨event, rest, hqueue, rfl⟩
  · refine ⟨h.logged.write hev, h.stage.append [ev], h.mirror, h.sent.write ev, ?_, h.keyed⟩
    cases h.order with
    | Before hfresh hphase hquiet => exact .Before hfresh hphase hquiet
    | Underway hfresh hphase ahead later objects hqueue hquiet hlater =>
        exact .Underway hfresh hphase ahead later objects hqueue hquiet hlater
    | Lost hfresh hphase hlost => exact .Lost hfresh hphase hlost
    | Installed h => exact .Installed ⟨h.opened, h.queue, h.entries⟩
  · exact ⟨h.logged, stage_send h.logged h.stage hsends, mirror_send h.logged h.stage h.mirror hsends,
      h.sent.send h.logged h.stage hsends, h.order.send hsends, h.keyed⟩
  · refine ⟨h.logged, ?_, mirror_deliver h.mirror hqueue, h.sent.deliver hqueue,
      h.order.deliver hqueue, w.session.applyEvent_keyed h.keyed event⟩
    show Stage w.log (w.deliver event rest).phase
    unfold World.deliver
    dsimp only
    split
    · trivial
    · exact h.stage

theorem Inv.run (h : Inv w) (hrun : Reaches w w') : Inv w' := by
  induction hrun with
  | refl => exact h
  | tail _ hstep ih => exact ih.step hstep

theorem run_epoch (hrun : Reaches w w') : w'.epoch = w.epoch := by
  induction hrun with
  | refl => rfl
  | tail _ hstep ih => exact (step_epoch hstep).trans ih

theorem Installed.run (h : Installed w) (hrun : Reaches w w') : Installed w' := by
  induction hrun with
  | refl => exact h
  | tail _ hstep ih => exact ih.step hstep

-- What a request writes to the store is so many steps of the world.
theorem trail_reached {evs : List StoreEvent} {s : Store}
    (h : Store.Trail Store.Lawful w.store evs s) :
    Reaches w { w with store := s, log := w.log ++ evs } := by
  generalize hstore : w.store = s₀ at h
  induction h generalizing w with
  | Done s =>
      subst hstore
      rw [List.append_nil]
      exact .refl
  | @Write s s' ev evs hev rest ih =>
      subst hstore
      have hnext := ih (w := { w with store := w.store.write ev, log := w.log ++ [ev] }) rfl
      rw [List.append_assoc] at hnext
      exact .head (.Write ev hev) hnext

-- So is what any requests come to.
theorem calls_reached [UnicodeTables] {calls : List Store.Call}
    (hf : Store.FaithfulRun w.store calls) :
    ∃ evs, Reaches w { w with store := Store.run w.store calls, log := w.log ++ evs } := by
  obtain ⟨evs, htrail⟩ := Store.run_lawful hf
  exact ⟨evs, trail_reached htrail⟩

-- A session with an entry of the epoch has its baseline.
theorem Inv.installed (h : Inv w) {row : ObjectKey × CacheEntry}
    (hrow : row ∈ w.session.cache.entries) (hepoch : row.2.epoch = w.epoch) : Installed w := by
  cases h.order with
  | Before hfresh _ _ => exact absurd hepoch (hfresh row hrow)
  | Underway hfresh _ _ _ _ _ _ _ => exact absurd hepoch (hfresh row hrow)
  | Lost hfresh _ _ => exact absurd hepoch (hfresh row hrow)
  | Installed h => exact h

end Runs

section Entries

-- What a step does to an entry: nothing, or an accepted event of its key.
inductive Moves (w w' : World) (key : ObjectKey) (entry : CacheEntry) : Prop where
  | Kept (h : w'.session.cache.get key = some entry)
  | Taken (event : WatchEvent) (hqueue : SessionEvent.Watch w.epoch event ∈ w.queue)
      (hkey : event.2.key = key)
      (haccept : acceptRevision entry event.2.metadata.resourceVersion event.2.metadata.uid event)
      (h : w'.session.cache.get key = some (entryOf w.epoch event))

theorem step_moves (hstep : Step w w') :
    (∃ objects rest, w.queue = .Baseline w.epoch objects :: rest ∧
      w' = w.deliver (.Baseline w.epoch objects) rest) ∨
    ∀ key entry, w.session.cache.get key = some entry → Moves w w' key entry := by
  rcases step_cases hstep with ⟨ev, -, rfl⟩ | ⟨phase, events, -, rfl⟩ | ⟨event, rest, hqueue, rfl⟩
  · exact .inr fun key entry hentry => .Kept hentry
  · exact .inr fun key entry hentry => .Kept hentry
  · rcases w.session.applyEvent_cache event with hkept | ⟨change, rfl, htaken⟩ | ⟨objects, rfl, -⟩
    · refine .inr fun key entry hentry => .Kept ?_
      show (w.session.applyEvent event).cache.get key = some entry
      rwa [hkept]
    · right
      intro key entry hentry
      have hget : (w.deliver (.Watch w.epoch change) rest).session.cache.get key =
          if change.2.key = key then
            some (ObjectCache.accepted w.epoch change (w.session.cache.get key))
          else w.session.cache.get key := by
        show (w.session.applyEvent _).cache.get key = _
        rw [World.epoch, htaken]
        exact ObjectCache.get_applyEvent rfl change key
      rw [hentry] at hget
      by_cases hkey : change.2.key = key
      · rw [if_pos hkey] at hget
        by_cases haccept : acceptRevision entry change.2.metadata.resourceVersion
            change.2.metadata.uid change
        · refine .Taken change (hqueue ▸ List.mem_cons_self) hkey haccept (hget.trans ?_)
          simp [ObjectCache.accepted, haccept]
        · refine .Kept (hget.trans ?_)
          simp [ObjectCache.accepted, haccept]
      · rw [if_neg hkey] at hget
        exact .Kept hget
    · exact .inl ⟨objects, rest, hqueue, rfl⟩

theorem acceptRevision_le {entry : CacheEntry} {rv : Int} {uid : Text} {event : WatchEvent}
    (h : acceptRevision entry rv uid event) : entry.resourceVersion ≤ rv := by
  unfold acceptRevision at h
  split_ifs at h <;> omega

theorem acceptRevision_uid {entry : CacheEntry} {rv : Int} {uid : Text} {event : WatchEvent}
    (h : acceptRevision entry rv uid event) (hdead : entry.tombstone) : uid ≠ entry.uid := by
  unfold acceptRevision at h
  split_ifs at h with hsame
  all_goals exact fun heq => hsame ⟨hdead, heq⟩

theorem entryOf_fields (epoch : Nat) (event : WatchEvent) :
    (entryOf epoch event).resourceVersion = event.2.metadata.resourceVersion ∧
      (entryOf epoch event).uid = event.2.metadata.uid ∧ (entryOf epoch event).epoch = epoch := by
  unfold entryOf
  split <;> exact ⟨rfl, rfl, rfl⟩

theorem Moves.le {key : ObjectKey} {entry : CacheEntry} (h : Moves w w' key entry) :
    ∃ entry', w'.session.cache.get key = some entry' ∧
      entry.resourceVersion ≤ entry'.resourceVersion := by
  cases h with
  | Kept h => exact ⟨entry, h, le_refl _⟩
  | Taken event _ _ haccept h =>
      refine ⟨_, h, ?_⟩
      rw [(entryOf_fields w.epoch event).1]
      exact acceptRevision_le haccept

-- With the baseline installed, every step is such a move.
theorem Installed.moves (h : Installed w) (hstep : Step w w') {key : ObjectKey}
    {entry : CacheEntry} (hentry : w.session.cache.get key = some entry) :
    Moves w w' key entry := by
  rcases step_moves hstep with ⟨objects, rest, hqueue, -⟩ | hmoves
  · exact absurd (hqueue ▸ List.mem_cons_self) (h.queue objects)
  · exact hmoves key entry hentry

theorem Installed.entry_le (h : Installed w) (hrun : Reaches w w') {key : ObjectKey}
    {entry : CacheEntry} (hentry : w.session.cache.get key = some entry) :
    ∃ entry', w'.session.cache.get key = some entry' ∧
      entry.resourceVersion ≤ entry'.resourceVersion := by
  induction hrun with
  | refl => exact ⟨entry, hentry, le_refl _⟩
  | tail hrun hstep ih =>
      obtain ⟨before, hbefore, hle⟩ := ih
      obtain ⟨after, hafter, hle'⟩ := ((h.run hrun).moves hstep hbefore).le
      exact ⟨after, hafter, le_trans hle hle'⟩

-- The uid of `key` ended at `d`, and the session is at its tombstone or beyond it.
structure Sealed (w : World) (key : ObjectKey) (uid : Text) (d : Nat) : Prop where
  ended : ∃ last, w.log[d]? = some last ∧ evDead last ∧ evUid last = uid ∧ evKey last = key
  entry : ∃ entry, w.session.cache.get key = some entry ∧
    ((entry.tombstone ∧ entry.uid = uid) ∨ (d : Int) + 1 < entry.resourceVersion)

theorem log_step (hstep : Step w w') : ∃ more, w'.log = w.log ++ more := by
  rcases step_cases hstep with ⟨ev, -, rfl⟩ | ⟨phase, events, -, rfl⟩ | ⟨event, rest, -, rfl⟩
  · exact ⟨[ev], rfl⟩
  · exact ⟨[], (List.append_nil _).symm⟩
  · exact ⟨[], (List.append_nil _).symm⟩

theorem Inv.recorded (h : Inv w) {key : ObjectKey} {entry : CacheEntry}
    (hentry : w.session.cache.get key = some entry) (hepoch : entry.epoch = w.epoch) :
    ∃ i ev, Recorded w.log 0 key entry i ev :=
  h.sent.entries (key, entry) (ObjectCache.mem_of_get hentry) hepoch

theorem Inv.sealed (h : Inv w) {key : ObjectKey} {entry : CacheEntry}
    (hentry : w.session.cache.get key = some entry) (hepoch : entry.epoch = w.epoch)
    (hdead : entry.tombstone) : ∃ d, Sealed w key entry.uid d := by
  obtain ⟨i, ev, hrec⟩ := h.recorded hentry hepoch
  have hkey := hrec.key_eq
  have hknown := hrec.known
  rw [if_pos hdead] at hknown
  cases hknown with
  | @Dead _ d e last he _ hid hd hlast huid =>
      obtain rfl := Option.some.inj (hrec.event.symm.trans he)
      refine ⟨d, ⟨last, hd, hlast, ?_, ?_⟩, entry, hentry, .inl ⟨hdead, rfl⟩⟩
      · rw [hrec.uid, huid]
      · rw [h.logged.lawful.key_eq hd he huid, hkey]

theorem Sealed.step {key : ObjectKey} {uid : Text} {d : Nat} (h : Sealed w key uid d) (hinv : Inv w)
    (hinstalled : Installed w) (hstep : Step w w') : Sealed w' key uid d := by
  obtain ⟨last, hd, hdead, huid, hkey⟩ := h.ended
  obtain ⟨more, hlog⟩ := log_step hstep
  refine ⟨⟨last, by rw [hlog]; exact Incarnations.getElem?_append_of_some hd, hdead, huid, hkey⟩, ?_⟩
  obtain ⟨entry, hentry, hpast⟩ := h.entry
  cases hinstalled.moves hstep hentry with
  | Kept hkept => exact ⟨entry, hkept, hpast⟩
  | Taken event hqueue hevent haccept htaken =>
      obtain ⟨hrv, hsame, -⟩ := entryOf_fields w.epoch event
      have hle := acceptRevision_le haccept
      refine ⟨_, htaken, .inr ?_⟩
      rw [hrv]
      rcases hpast with ⟨htomb, hold⟩ | hpast
      · -- What is accepted over a tombstone is of another identity, born after the end.
        obtain ⟨i, ev, hrec⟩ := hinv.recorded hentry (hinstalled.entries _ (ObjectCache.mem_of_get hentry))
        obtain ⟨j, next, hnext⟩ := hinv.sent.queue _ hqueue rfl
        have hij : i ≤ j := by
          have hi := hrec.revision
          have hj := hnext.revision
          rw [hrv] at hj
          omega
        have hne : evUid next ≠ evUid ev := by
          rw [← hnext.uid, ← hrec.uid, hsame]
          exact acceptRevision_uid haccept htomb
        have hboth : evKey ev = evKey next := by rw [hrec.key_eq, hnext.key_eq, hevent]
        have hlater := hinv.logged.lawful.after_end hrec.event hnext.event hij hboth hne hd
          (by rw [huid, ← hold, hrec.uid])
        have hj := hnext.revision
        rw [hrv] at hj
        omega
      · omega

theorem Sealed.run {key : ObjectKey} {uid : Text} {d : Nat} (h : Sealed w key uid d) (hinv : Inv w)
    (hinstalled : Installed w) (hrun : Reaches w w') : Sealed w' key uid d := by
  induction hrun with
  | refl => exact h
  | tail hrun hstep ih => exact ih.step (hinv.run hrun) (hinstalled.run hrun) hstep

-- No entry is alive under a uid that was seen to end.
theorem Sealed.live_ne {key key' : ObjectKey} {uid : Text} {d : Nat} (h : Sealed w key uid d)
    (hinv : Inv w) (hinstalled : Installed w) {entry : CacheEntry}
    (hentry : w.session.cache.get key' = some entry) (hlive : ¬entry.tombstone) :
    entry.uid ≠ uid := by
  intro hsame
  obtain ⟨last, hd, hdead, huid, hkey⟩ := h.ended
  obtain ⟨i, ev, hrec⟩ := hinv.recorded hentry (hinstalled.entries _ (ObjectCache.mem_of_get hentry))
  have hboth : evUid ev = evUid last := by rw [← hrec.uid, hsame, huid]
  have hlawful := hinv.logged.lawful
  obtain rfl : key' = key := by
    rw [← hrec.key_eq, hlawful.key_eq hrec.event hd hboth, hkey]
  obtain ⟨other, hother, hpast⟩ := h.entry
  obtain rfl := Option.some.inj (hentry.symm.trans hother)
  rcases hpast with ⟨htomb, -⟩ | hpast
  · exact hlive htomb
  · have hi := hrec.revision
    exact hlawful.ended hd hdead hrec.event (by omega) hboth

end Entries

section Convergence

theorem poll_empty {log : List StoreEvent} {s : Store} (hl : Logged log s) {n : Nat}
    (hn : n ≤ log.length)
    (h : (Serve.poll s .Cli { kind := none, after := (n : Int) }).1 = []) : n = log.length := by
  rcases poll_log hl hn with ⟨e, hpoll⟩ | hpoll
  · rw [hpoll] at h
    cases h
  · rw [hpoll] at h
    have hempty := List.map_eq_nil_iff.mp h
    rcases List.take_eq_nil_iff.mp hempty with hzero | hdrop
    · exact absurd hzero (by decide)
    · have := List.drop_eq_nil_iff.mp hdrop
      omega

-- Drained, the subscription knows every key.
theorem Inv.drained (h : Inv w) (hd : Drained w) (key : ObjectKey) :
    ∃ observed : ObjectCache, w.session.cache.get key =
        (observed.get key).map (CacheEntry.atEpoch w.epoch) ∧
      Learned w.log w.log.length key (observed.get key) := by
  obtain ⟨hqueue, observed, stream, hphase, hpoll⟩ := hd
  have hmirror := h.mirror
  have hstage := h.stage
  rw [Mirror, hphase, hqueue] at hmirror
  rw [hphase] at hstage
  obtain ⟨-, c, snap, hfeed, hknown⟩ := hstage
  obtain ⟨n, tail, hn, hpending, hend⟩ := hfeed.pending
  dsimp only at hpending hend
  have hempty := hpending.symm
  simp only [List.append_eq_nil_iff, List.map_eq_nil_iff] at hempty
  obtain ⟨rfl, hslice, rfl⟩ := hempty
  have hstream : stream = { kind := none, after := ((c + n : Nat) : Int) } := by
    rcases hend with ⟨hopen, -⟩ | ⟨hclosed, -⟩
    · exact Option.some.inj hopen
    · cases hclosed
  rw [hstream] at hpoll
  have hall := poll_empty h.logged hn hpoll
  have hc : c = w.log.length := by
    have hlen := congrArg List.length hslice
    simp only [List.length_take, List.length_drop, List.length_nil] at hlen
    omega
  subst hc
  refine ⟨observed, hmirror.entries key, (hknown key).resolve_right ?_⟩
  simp

theorem Inv.converged (h : Inv w) (hd : Drained w) (obj : HomeObject) :
    obj ∈ w.session.cache.live ↔ ∃ row ∈ w.store.objects, obj = row.redact := by
  have hl := h.logged
  have hrow : ∀ key row, w.store.get key.1 key.2 = some row ↔ row ∈ w.store.objects ∧ row.key = key := by
    intro key row
    constructor
    · exact fun hget => Table.lookup_some hget
    · rintro ⟨hmem, rfl⟩
      exact Table.lookup_of_mem hl.journaled.keyed hmem
  -- What a key shows is its row, or nothing.
  have hshown : ∀ key, (∃ entry, w.session.cache.get key = some entry ∧ entry.object = some obj) ↔
      ∃ row, w.store.get key.1 key.2 = some row ∧ obj = row.redact := by
    intro key
    obtain ⟨observed, hget, hlearned⟩ := h.drained hd key
    rw [hget]
    have habsent : Absent evKey evDead key w.log → ¬∃ row, w.store.get key.1 key.2 = some row ∧
        obj = row.redact := by
      rintro habsent ⟨row, hfound, -⟩
      rw [(absent_row hl).mpr habsent] at hfound
      cases hfound
    cases hentry : observed.get key with
    | none =>
        rw [hentry] at hlearned
        have hnone : Absent evKey evDead key (w.log.take w.log.length) := hlearned
        rw [List.take_length] at hnone
        simpa using habsent hnone
    | some entry =>
        rw [hentry] at hlearned
        obtain ⟨i, ev, hrec⟩ := hlearned
        have hobject := hrec.object
        have hknown := hrec.known
        simp only [Option.map_some, Option.some.injEq, exists_eq_left', CacheEntry.atEpoch]
        split_ifs at hobject hknown with htomb
        · rw [hobject]
          have hnone := habsent (hknown.last_dead hl.lawful)
          simpa using hnone
        · rw [hobject]
          obtain ⟨last, hi, hlive, hfind⟩ := hknown.last_live
          obtain rfl := Option.some.inj (hrec.event.symm.trans hi)
          have hfound : w.store.get key.1 key.2 = some ev.object := by
            rw [hl.rows key.1 key.2]
            have hwatch : ev.watch ≠ .Deleted := by simpa [evDead] using hlive
            have hlast : lastOf evKey (key.1, key.2) w.log = some ev := hfind
            rw [hlast]
            simp [Store.rowAfter, hwatch]
          rw [hfound]
          simp [eq_comm]
  rw [ObjectCache.mem_live h.keyed]
  constructor
  · rintro ⟨key, hkey⟩
    obtain ⟨row, hfound, hobj⟩ := (hshown key).mp hkey
    exact ⟨row, ((hrow key row).mp hfound).1, hobj⟩
  · rintro ⟨row, hmem, hobj⟩
    exact ⟨row.key, (hshown row.key).mpr ⟨row, (hrow row.key row).mpr ⟨hmem, rfl⟩, hobj⟩⟩

section Sample

def sampleSecret : HomeObject :=
  .new .Secret secretName (.Secret { seedboxAddress := "10.0.0.2:9000".toList })
    (StatusBody.empty .Secret)

def sampleRow (obj : HomeObject) : HomeObject :=
  { obj with
    metadata := { obj.metadata with
      uid := uidOf obj.kind 1, generation := 1, resourceVersion := 1 } }

-- A subscription of a first session, over a store with one Secret.
def sampleStart : World where
  store := Store.empty.write ⟨.Added, sampleRow sampleSecret⟩
  log := [⟨.Added, sampleRow sampleSecret⟩]
  phase := .Connecting
  queue := []
  session := ({} : Session).bootstrap

theorem sample_starts : Starts sampleStart where
  log := .single (Store.Created.lawful ⟨rfl, rfl, rfl, rfl, rfl⟩)
  phase := rfl
  entries := by simp [sampleStart, Session.bootstrap, ObjectCache.bumpEpoch]
  keyed := List.nodup_nil
  queue := by simp [sampleStart]
  failed := by decide

def sampleWatched : Watched where
  pending := [.ok (.Added, (sampleRow sampleSecret).redact)]
  stream := some { kind := none, after := 1 }

def sampleOpen : World := sampleStart.send (.Watching sampleWatched) []

theorem sample_opens : Step sampleStart sampleOpen :=
  .Watch rfl [(.Added, (sampleRow sampleSecret).redact)] { kind := none, after := 1 } rfl

-- The List, and what the session makes of it.
def listed (w : World) (objects : List HomeObject) : World :=
  ((w.send (.Following (observedBaseline objects) sampleWatched)
    [.Connected w.epoch, .Baseline w.epoch objects]).deliver (.Connected w.epoch)
      [.Baseline w.epoch objects]).deliver (.Baseline w.epoch objects) []

theorem listed_reached {w : World} (hphase : w.phase = .Watching sampleWatched)
    (hqueue : w.queue = []) {objects : List HomeObject}
    (h : Serve.list w.store .Cli [] = .ok objects) : Reaches w (listed w objects) := by
  refine .tail (.tail (.single (.List sampleWatched hphase objects h)) (.Deliver _ _ ?_))
    (.Deliver _ _ rfl)
  simp [World.send, hqueue]

def sampleRest : Watched := { pending := [], stream := some { kind := none, after := 1 } }

def sampleRead : World :=
  (listed sampleOpen [(sampleRow sampleSecret).redact]).receive
    (observedBaseline [(sampleRow sampleSecret).redact])
    (.ok (.Added, (sampleRow sampleSecret).redact)) sampleRest

theorem sample_read : Reaches sampleStart sampleRead :=
  .tail (.head sample_opens (listed_reached rfl rfl rfl)) (.Receive _ _ _ rfl)

-- The Secret is there, but not as the store has it.
theorem watch_cache_redacts : ∃ start w, Starts start ∧ Reaches start w ∧ Drained w ∧
    ¬∀ obj, obj ∈ w.session.cache.live ↔ obj ∈ w.store.objects := by
  refine ⟨sampleStart, sampleRead, sample_starts, sample_read, ⟨rfl, _, _, rfl, rfl⟩, fun h => ?_⟩
  have hmissing : sampleRow sampleSecret ∉ sampleRead.session.cache.live := by decide
  exact hmissing ((h _).mpr List.mem_cons_self)

-- The Secret is deleted between the snapshot and the List.
def sampleTombstone : StoreEvent :=
  { watch := .Deleted
    object := { sampleRow sampleSecret with
      metadata := { (sampleRow sampleSecret).metadata with resourceVersion := 2 } } }

def sampleDeleted : World :=
  { sampleOpen with
    store := sampleOpen.store.write sampleTombstone, log := sampleOpen.log ++ [sampleTombstone] }

theorem sample_deletes : Step sampleOpen sampleDeleted :=
  .Write sampleTombstone
    { change := .Remove (sampleRow sampleSecret) ⟨rfl, rfl, rfl⟩
      ended := fun prev _ hprev => by
        obtain rfl : sampleRow sampleSecret = prev := Option.some.inj hprev
        rfl }

-- The snapshot's row is not in the List, and a Get says that it is gone.
def sampleResolved : World :=
  (listed sampleDeleted []).receive (observedBaseline [])
    (.ok (.Added, (sampleRow sampleSecret).redact)) sampleRest

def sampleObserved : ObjectCache :=
  ((observedBaseline []).applyEvent localEpoch (.Deleted, (sampleRow sampleSecret).redact)).2

def sampleTold : World :=
  sampleResolved.deliver (.Watch sampleResolved.epoch (.Deleted, (sampleRow sampleSecret).redact)) []

def sampleGone : World :=
  (sampleTold.send (.Following sampleObserved (sampleTold.polled sampleRest ⟨none, 1⟩)) []).receive
    sampleObserved (.ok (Serve.itemOf .Cli sampleTombstone))
    { pending := [], stream := some { kind := none, after := 2 } }

theorem sample_gone : Reaches sampleStart sampleGone := by
  have hread : Reaches sampleStart sampleResolved :=
    .tail (.head sample_opens (.head sample_deletes (listed_reached rfl rfl rfl)))
      (.Receive _ _ _ rfl)
  have htold : Reaches sampleStart sampleTold := .tail hread (.Deliver _ _ rfl)
  exact .tail (.tail htold (.Poll sampleObserved sampleRest rfl _ rfl)) (.Receive _ _ _ rfl)

end Sample

-- Once writes stop and the stream is drained the session shows what a List would; until
-- then no entry goes back except for the one baseline, and no uid comes back. Requests to
-- the store are steps of the world.
theorem watch_cache_converges {start w : World} (hstart : Starts start) (hrun : Reaches start w) :
    (Drained w → ∀ obj, obj ∈ w.session.cache.live ↔ ∃ row ∈ w.store.objects, obj = row.redact) ∧
    (∀ w', Step w w' →
      (∃ objects rest, w.queue = .Baseline w.epoch objects :: rest ∧
        w' = w.deliver (.Baseline w.epoch objects) rest ∧
        ∀ row ∈ w.session.cache.entries, row.2.epoch ≠ w.epoch) ∨
      ∀ key entry, w.session.cache.get key = some entry →
        ∃ entry', w'.session.cache.get key = some entry' ∧
          entry.resourceVersion ≤ entry'.resourceVersion) ∧
    (∀ w', Reaches w w' → ∀ key entry, w.session.cache.get key = some entry →
      entry.epoch = w.epoch →
        (∃ entry', w'.session.cache.get key = some entry' ∧ entry'.epoch = w.epoch ∧
          entry.resourceVersion ≤ entry'.resourceVersion) ∧
        (entry.tombstone → ∀ key' entry', w'.session.cache.get key' = some entry' →
          ¬entry'.tombstone → entry'.uid ≠ entry.uid)) ∧
    ∀ [UnicodeTables] (calls : List Store.Call), Store.FaithfulRun w.store calls →
      ∃ evs, Reaches w { w with store := Store.run w.store calls, log := w.log ++ evs } := by
  have hinv := hstart.inv.run hrun
  refine ⟨hinv.converged, fun w' hstep => ?_, fun w' hlater key entry hentry hepoch => ?_,
    fun calls hf => calls_reached hf⟩
  · rcases step_moves hstep with ⟨objects, rest, hqueue, hstep⟩ | hmoves
    · refine .inl ⟨objects, rest, hqueue, hstep, fun row hrow hepoch => ?_⟩
      exact (hinv.installed hrow hepoch).queue objects (hqueue ▸ List.mem_cons_self)
    · exact .inr fun key entry hentry => (hmoves key entry hentry).le
  · have hinstalled := hinv.installed (ObjectCache.mem_of_get hentry) hepoch
    refine ⟨?_, fun hdead key' entry' hentry' hlive => ?_⟩
    · obtain ⟨entry', hentry', hle⟩ := hinstalled.entry_le hlater hentry
      refine ⟨entry', hentry', ?_, hle⟩
      rw [← run_epoch hlater]
      exact (hinstalled.run hlater).entries _ (ObjectCache.mem_of_get hentry')
    · obtain ⟨d, hsealed⟩ := hinv.sealed hentry hepoch hdead
      exact (hsealed.run hinv hinstalled hlater).live_ne (hinv.run hlater) (hinstalled.run hlater)
        hentry' hlive

theorem watch_cache_converges_deleted :
    (∀ obj, obj ∈ sampleGone.session.cache.live ↔
      ∃ row ∈ sampleGone.store.objects, obj = row.redact) ∧
    ∃ entry, sampleGone.session.cache.get (.Secret, secretName) = some entry ∧ entry.tombstone ∧
      ∀ w', Reaches sampleGone w' → ∀ key' entry', w'.session.cache.get key' = some entry' →
        ¬entry'.tombstone → entry'.uid ≠ entry.uid := by
  obtain ⟨hlive, -, hruns, -⟩ := watch_cache_converges sample_starts sample_gone
  refine ⟨hlive ⟨rfl, _, _, rfl, rfl⟩, _, rfl, rfl, fun w' hrun => ?_⟩
  exact (hruns w' hrun (.Secret, secretName) _ rfl rfl).2 rfl

end Convergence

end Mediaops.Tui
