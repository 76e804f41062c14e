import Mediaops.Api.Reads
import Mediaops.Store.Incarnations

namespace Mediaops.Tui

-- The terminal client: a cache of the Home's objects that one subscription at a
-- time keeps up to date, from a watch, a List and a Get for what the List did not
-- have.

open Serve (WatchItem Stream)

abbrev ObjectKey := Kind × Text

abbrev WatchEvent := WatchItem

-- What is known of a name; a tombstone has no object.
structure CacheEntry where
  object : Option HomeObject
  uid : Text
  resourceVersion : Int
  tombstone : Bool
  epoch : Nat
  deriving DecidableEq, Repr

structure ObjectCache where
  epoch : Nat := 0
  entries : List (ObjectKey × CacheEntry) := []
  deriving DecidableEq, Repr

def acceptRevision (existing : CacheEntry) (incomingRv : Int) (incomingUid : Text)
    (event : WatchEvent) : Bool :=
  if existing.tombstone ∧ incomingUid = existing.uid then false
  else if incomingRv < existing.resourceVersion then false
  else if incomingRv = existing.resourceVersion ∧ incomingUid = existing.uid then
    event.1 = .Deleted && !existing.tombstone
  else true

namespace ObjectCache

def u64Max : Nat := 18446744073709551615

def bumpEpoch (cache : ObjectCache) : ObjectCache :=
  { cache with epoch := min (cache.epoch + 1) u64Max }

def get (cache : ObjectCache) (key : ObjectKey) : Option CacheEntry :=
  (Table.lookup Prod.fst key cache.entries).map Prod.snd

def live (cache : ObjectCache) : List HomeObject :=
  cache.entries.filterMap fun entry => entry.2.object

def insert (cache : ObjectCache) (key : ObjectKey) (entry : CacheEntry) : ObjectCache :=
  { cache with entries := Table.upsert Prod.fst (key, entry) cache.entries }

def liveEntry (epoch : Nat) (obj : HomeObject) : CacheEntry where
  object := some obj
  uid := obj.metadata.uid
  resourceVersion := obj.metadata.resourceVersion
  tombstone := false
  epoch := epoch

def deadEntry (epoch : Nat) (obj : HomeObject) : CacheEntry where
  object := none
  uid := obj.metadata.uid
  resourceVersion := obj.metadata.resourceVersion
  tombstone := true
  epoch := epoch

def upsertLive (cache : ObjectCache) (epoch : Nat) (obj : HomeObject) : ObjectCache :=
  cache.insert obj.key (liveEntry epoch obj)

-- What this epoch already knew better than the baseline.
def overlayEntry (cache : ObjectCache) (entry : ObjectKey × CacheEntry) : ObjectCache :=
  match cache.get entry.1 with
  | some baseline =>
      if baseline.resourceVersion ≤ entry.2.resourceVersion then cache.insert entry.1 entry.2
      else cache
  | none => cache.insert entry.1 entry.2

def installBaseline (cache : ObjectCache) (epoch : Nat) (objects : List HomeObject) : ObjectCache :=
  if epoch ≠ cache.epoch then cache
  else
    let overlay := cache.entries.filter fun entry => entry.2.epoch = epoch
    let baseline := objects.foldl (fun cache obj => cache.upsertLive epoch obj)
      { cache with entries := [] }
    overlay.foldl overlayEntry baseline

-- The cache after an event, and whether it took it.
def applyEvent (cache : ObjectCache) (epoch : Nat) (event : WatchEvent) : Bool × ObjectCache :=
  if epoch ≠ cache.epoch then (false, cache)
  else
    let obj := event.2
    if (cache.get obj.key).any fun existing =>
        !acceptRevision existing obj.metadata.resourceVersion obj.metadata.uid event then
      (false, cache)
    else match event.1 with
      | .Added | .Modified => (true, cache.upsertLive epoch obj)
      | .Deleted => (true, cache.insert obj.key (deadEntry epoch obj))

end ObjectCache

inductive SyncState where
  | Connecting | Synchronizing | Current | Stale
  deriving DecidableEq, Repr

inductive SessionEvent where
  | ConnectFailed (epoch : Nat) (message : Text)
  | Connected (epoch : Nat)
  | Watch (epoch : Nat) (event : WatchEvent)
  | WatchEnded (epoch : Nat)
  | WatchFailed (epoch : Nat) (message : Text)
  | Baseline (epoch : Nat) (objects : List HomeObject)
  | BaselineFailed (epoch : Nat) (message : Text)
  deriving DecidableEq, Repr

def SessionEvent.epoch : SessionEvent → Nat
  | ConnectFailed epoch _ | Connected epoch | Watch epoch _ | WatchEnded epoch
  | WatchFailed epoch _ | Baseline epoch _ | BaselineFailed epoch _ => epoch

-- `api` is whether the session holds a client.
structure Session where
  api : Bool := false
  cache : ObjectCache := {}
  sync : SyncState := .Connecting
  listFailed : Bool := false
  message : Option Text := none
  needsReconnect : Bool := false
  failedEpoch : Option Nat := none
  failures : Nat := 0
  deriving DecidableEq, Repr

namespace Session

def fail (session : Session) (epoch : Nat) (message : Text) : Session :=
  { session with
    failedEpoch := some epoch, sync := .Stale, api := false, message := some message
    needsReconnect := true, failures := session.failures + 1 }

def applyEvent (session : Session) (event : SessionEvent) : Session :=
  let epoch := event.epoch
  if epoch ≠ session.cache.epoch ∨ session.failedEpoch = some epoch then session
  else match event with
    | .ConnectFailed _ message =>
        let failed := session.fail epoch message
        if failed.cache.live = [] then { failed with sync := .Connecting } else failed
    | .Connected _ => { session with api := true }
    | .Baseline _ objects => { session with
        cache := session.cache.installBaseline epoch objects
        sync := .Current, listFailed := false, message := none, needsReconnect := false
        failures := 0 }
    | .Watch _ event => { session with cache := (session.cache.applyEvent epoch event).2 }
    | .BaselineFailed _ message => { session with listFailed := true }.fail epoch message
    | .WatchEnded _ => session.fail epoch "subscription ended".toList
    | .WatchFailed _ message => session.fail epoch message

-- The session at the start of a subscription of its own epoch.
def bootstrap (session : Session) : Session :=
  let cache := session.cache.bumpEpoch
  { session with
    cache, failedEpoch := none, api := false
    sync := if cache.live ≠ [] then .Stale else .Synchronizing
    needsReconnect := false }

end Session

-- The watch that a subscription holds: what has arrived and is not read yet, and the
-- stream as the server has it, until it ends.
structure Watched where
  pending : List (Except HomeError WatchItem)
  stream : Option Stream

inductive Phase where
  | Connecting
  | Watching (watched : Watched)
  | Following (observed : ObjectCache) (watched : Watched)
  | Done

-- The epoch of the subscription's own cache.
def localEpoch : Nat := ({} : ObjectCache).bumpEpoch.epoch

def observedBaseline (objects : List HomeObject) : ObjectCache :=
  ({} : ObjectCache).bumpEpoch.installBaseline localEpoch objects

-- A snapshot object absent from the List could have been deleted before it, so it is
-- resolved rather than briefly resurrected.
def resolve (s : Store) (observed : ObjectCache) (event : WatchEvent) : Except Text WatchEvent :=
  let obj := event.2
  if event.1 ≠ .Deleted ∧ observed.get obj.key = none then
    match Serve.get s .Cli obj.kind.asStr obj.metadata.name with
    | .ok current => pure (.Added, current)
    | .error (.NotFound _ _) => pure (.Deleted, obj)
    | .error e => throw e.display
  else pure event

-- The store with all that was written to it, one subscription, its channel and the
-- session at the other end.
structure World where
  store : Store
  log : List StoreEvent
  phase : Phase
  queue : List SessionEvent
  session : Session

def World.epoch (w : World) : Nat := w.session.cache.epoch

namespace World

def send (w : World) (phase : Phase) (events : List SessionEvent) : World :=
  { w with phase, queue := w.queue ++ events }

-- The subscription takes the next message of its watch.
def receive (w : World) (observed : ObjectCache) (item : Except HomeError WatchItem)
    (rest : Watched) : World :=
  match item with
  | .error e => w.send .Done [.WatchFailed w.epoch e.display]
  | .ok event =>
      match resolve w.store observed event with
      | .error message => w.send .Done [.WatchFailed w.epoch message]
      | .ok event =>
          let (accepted, observed) := observed.applyEvent localEpoch event
          w.send (.Following observed rest) (if accepted then [.Watch w.epoch event] else [])

-- A failing event aborts the subscription.
def deliver (w : World) (event : SessionEvent) (rest : List SessionEvent) : World :=
  let session := w.session.applyEvent event
  { w with
    queue := rest, session
    phase := if session.failedEpoch = some w.epoch then .Done else w.phase }

def polled (w : World) (watched : Watched) (stream : Stream) : Watched :=
  let (items, next) := Serve.poll w.store .Cli stream
  { pending := watched.pending ++ items, stream := next }

end World

-- A step of the store, of the server's stream, of the subscription or of the session.
-- Every request of the subscription may fail or time out.
inductive Step (w : World) : World → Prop where
  | Write (ev : StoreEvent) (h : Store.Lawful w.store ev) :
      Step w { w with store := w.store.write ev, log := w.log ++ [ev] }
  | Refused (hphase : w.phase = .Connecting) (message : Text) :
      Step w (w.send .Done [.ConnectFailed w.epoch message])
  | Watch (hphase : w.phase = .Connecting) (items : List WatchItem) (stream : Stream)
      (hwatch : Serve.watch w.store .Cli [] 0 = .ok (items, stream)) :
      Step w (w.send (.Watching { pending := items.map .ok, stream := some stream }) [])
  | List (watched : Watched) (hphase : w.phase = .Watching watched) (objects : List HomeObject)
      (hlist : Serve.list w.store .Cli [] = .ok objects) :
      Step w (w.send (.Following (observedBaseline objects) watched)
        [.Connected w.epoch, .Baseline w.epoch objects])
  | ListFailed (watched : Watched) (hphase : w.phase = .Watching watched) (message : Text) :
      Step w (w.send .Done [.BaselineFailed w.epoch message])
  | PollWatching (watched : Watched) (hphase : w.phase = .Watching watched) (stream : Stream)
      (hstream : watched.stream = some stream) :
      Step w (w.send (.Watching (w.polled watched stream)) [])
  | Poll (observed : ObjectCache) (watched : Watched)
      (hphase : w.phase = .Following observed watched) (stream : Stream)
      (hstream : watched.stream = some stream) :
      Step w (w.send (.Following observed (w.polled watched stream)) [])
  | Receive (observed : ObjectCache) (item : Except HomeError WatchItem) (rest : Watched)
      (hphase : w.phase = .Following observed { rest with pending := item :: rest.pending }) :
      Step w (w.receive observed item rest)
  | Ended (observed : ObjectCache) (hphase : w.phase = .Following observed ⟨[], none⟩) :
      Step w (w.send .Done [.WatchEnded w.epoch])
  | Failed (hphase : w.phase ≠ .Done) (message : Text) :
      Step w (w.send .Done [.WatchFailed w.epoch message])
  | Deliver (event : SessionEvent) (rest : List SessionEvent) (hqueue : w.queue = event :: rest) :
      Step w (w.deliver event rest)

-- The start of a subscription, over whatever the session was left with: entries and
-- undelivered events of earlier epochs.
structure Starts (w : World) : Prop where
  log : Store.Trail Store.Lawful Store.empty w.log w.store
  phase : w.phase = .Connecting
  entries : ∀ entry ∈ w.session.cache.entries, entry.2.epoch ≠ w.epoch
  keyed : Table.Keyed Prod.fst w.session.cache.entries
  queue : ∀ event ∈ w.queue, event.epoch ≠ w.epoch
  failed : w.session.failedEpoch ≠ some w.epoch

-- Everything the subscription was going to learn has reached the session.
def Drained (w : World) : Prop :=
  w.queue = [] ∧ ∃ observed stream, w.phase = .Following observed ⟨[], some stream⟩ ∧
    (Serve.poll w.store .Cli stream).1 = []

end Mediaops.Tui
