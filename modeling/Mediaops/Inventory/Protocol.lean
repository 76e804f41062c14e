import Mediaops.Api.Effects.Replies
import Mediaops.Inventory

namespace Mediaops.Inventory

open Arr (HoldLiveItem)

-- The one inventory worker among all other parties of the control plane, from any
-- crash to the next scan.

-- The token that a scan gets when it begins at `s`.
def tokenAt (s : Store) : ScanStart where
  startedRv := min (s.rv + 1) i64Max
  clusterGeneration := ((findObject (s.snapshot none).1 .Cluster clusterName).map
    fun obj => obj.metadata.generation).getD 0
  secretResourceVersion := secretRevision (s.snapshot none).1

-- Nobody else writes the listing or the worker's Node, but the Node may be deleted.
structure Foreign (s s' : Store) : Prop where
  rows : ∀ obj, obj.kind = .RemoteFile → (obj ∈ s'.objects ↔ obj ∈ s.objects)
  node : getNode s' = getNode s ∨ getNode s' = none

-- No listing of the store is on offer.
def Unready (s : Store) : Prop :=
  ∀ node status, getNode s = some node → node.status = .Node status → status.ready = false

-- A scan that began at `begun` was served in the run.
def Began (trace : List Store) (begun : Store) : Prop :=
  begun ∈ trace ∧ ∃ after ∈ trace, begun.rv < after.rv ∧
    ∀ row ∈ after.objects, row.kind = .Sync → row ∈ begun.objects

theorem Began.mono {trace trace' : List Store} {begun : Store} (h : Began trace begun)
    (hsub : trace ⊆ trace') : Began trace' begun := by
  obtain ⟨hbegun, after, hafter, hrest⟩ := h
  exact ⟨hsub hbegun, after, hsub hafter, hrest⟩

theorem beat_ready {ready : Option Bool} (hready : ready ≠ some true) {now : Int}
    {status : NodeStatus} (h : (beat ready now status).ready = true) : status.ready = true := by
  cases ready with
  | none => exact h
  | some flag =>
      cases flag with
      | true => exact absurd rfl hready
      | false => cases h

section Frame

variable {s : Store}

-- A write of another row.
theorem rows_write_of_ne (hs : Store.Sound s) {ev : StoreEvent}
    (hkind : ev.object.kind ≠ .RemoteFile) (obj : HomeObject) (hobj : obj.kind = .RemoteFile) :
    obj ∈ (s.write ev).objects ↔ obj ∈ s.objects := by
  have hne : obj.key ≠ ev.object.key := fun hkey =>
    hkind ((congrArg Prod.fst hkey).symm.trans hobj)
  constructor
  · intro h
    rcases hs.mem_write h with ⟨-, rfl⟩ | ⟨hold, -⟩
    · exact absurd rfl hne
    · exact hold
  · intro h
    exact hs.mem_write_of_ne h hne

theorem getNode_write_of_ne {ev : StoreEvent} (hkind : ev.object.kind ≠ .Node) :
    getNode (s.write ev) = getNode s :=
  Store.get_write_of_ne fun hkey => hkind (congrArg Prod.fst hkey)

theorem getNode_write_self {watch : WatchType} {node : HomeObject} (hwatch : watch ≠ .Deleted)
    (hkey : node.key = (.Node, inventoryName)) : getNode (s.write ⟨watch, node⟩) = some node := by
  obtain ⟨hkind, hname⟩ := Prod.mk.inj hkey
  unfold getNode
  rw [← hkind, ← hname]
  exact Store.get_write_self hwatch

end Frame

section

variable [UnicodeTables]

-- A committed scan, with the state it began in.
structure Listing where
  begun : Store
  batch : Batch

-- `past`, `begun` and `listings` are the history; no party reads them.
structure World where
  store : Store
  past : List Store
  phase : Phase
  begun : Option Store
  listings : List Listing

namespace World

def start : World := { store := .empty, past := [], phase := .Idle, begun := none, listings := [] }

def trace (w : World) : List Store := w.store :: w.past

def moved (w : World) (s' : Store) : World := { w with store := s', past := w.trace }

-- One call of the worker. The history notes where a scan began and what it committed.
def publish (env : Env) (w : World) : World :=
  let (phase, s') := next env w.store w.phase
  { store := s'
    past := w.trace
    phase
    begun := match w.phase, phase with
      | .Idle, .Started _ => some w.store
      | _, _ => w.begun
    listings := match w.phase, phase with
      | .Committing .., .Committed batch =>
          (w.begun.map fun begun => { begun, batch }).toList ++ w.listings
      | _, _ => w.listings }

end World

-- A heartbeat writes what it has read at any earlier time; it never sets the ready
-- flag. The gateway may answer a scan with any listing.
inductive Reachable : World → Prop where
  | Start : Reachable .start
  | Other {w : World} {s' : Store} (h : Reachable w) (step : Api.Step w.trace w.store s')
      (hforeign : Foreign w.store s') : Reachable (w.moved s')
  | Heartbeat {w : World} (h : Reachable w) (env : Env) (view : Store) (hview : view ∈ w.trace)
      (ready : Option Bool) (hready : ready ≠ some true) (now : Int) (request : Serve.Request)
      (hrequest : heartbeat (getNode view) ready now = some request) :
      Reachable (w.moved (Serve.serve env w.store w.store .Inventory request).2)
  | Receive {w : World} (h : Reachable w) (start : ScanStart) (hphase : w.phase = .Started start)
      (entries : List RemoteEntry) (holds : List HoldLiveItem) :
      Reachable { w with phase := .Scanned { start, entries, holds } }
  | Publish {w : World} (h : Reachable w) (env : Env) : Reachable (w.publish env)
  | Crash {w : World} (h : Reachable w) : Reachable { w with phase := .Idle }

-- The token the worker holds while it works on a scan.
def Phase.token : Phase → Option ScanStart
  | .Idle | .Committed _ => none
  | .Started start => some start
  | .Scanned scan | .Checked scan _ | .Rejecting scan _ _ | .Configured scan _ _
  | .Listed scan _ _ _ => some scan.start
  | .Publishing batch _ | .Deleting batch _ | .Dropping batch _ _ _ | .Holding batch _
  | .Sending batch _ _ | .Fetching batch _ | .Committing batch _ _ => some batch.scan.start

-- The rows of the batch's generation are those of the entries published so far.
structure Rows (s : Store) (batch : Batch) (published : List RemoteEntry) : Prop where
  sound : ∀ row ∈ s.objects, row.kind = .RemoteFile → ∀ status, row.status = .RemoteFile status →
    batch.generation ≤ status.listGeneration → ∃ entry ∈ published, entry.isMedia = true ∧
      row.metadata.name = entry.name ∧ status = batch.status entry
  complete : ∀ entry ∈ published, entry.isMedia = true → ∃ row ∈ s.objects,
    row.kind = .RemoteFile ∧ row.metadata.name = entry.name ∧
      row.status = .RemoteFile (batch.status entry)

-- The listed rows were read from the store and are older than the batch.
def Older (trace : List Store) (batch : Batch) : Prop :=
  ∀ old ∈ batch.existing, (∃ view ∈ trace, old ∈ view.objects) ∧ old.kind = .RemoteFile ∧
    ∀ status, old.status = .RemoteFile status → status.listGeneration < batch.generation

def Unseen (batch : Batch) (name : Text) : Prop :=
  ∀ entry ∈ batch.scan.entries, entry.isMedia = true → entry.name ≠ name

def OfHold : Serve.Request → Prop
  | .Apply obj => obj.kind = .Hold
  | .Patch op obj => op = .PatchStatus ∧ obj.kind = .Hold
  | _ => False

-- What the worker has achieved at each point of `publish_inventory`.
def Progress (s : Store) (trace : List Store) : Phase → Prop
  | .Rejecting _ _ pending => ∀ hold ∈ pending, hold.kind = .Hold
  | .Listed _ _ _ existing =>
      (∀ obj, obj.kind = .RemoteFile → (obj ∈ s.objects ↔ obj ∈ existing)) ∧
        ∀ old ∈ existing, old.kind = .RemoteFile
  | .Publishing batch pending => Older trace batch ∧
      ∃ done, batch.scan.entries = done ++ pending ∧ Rows s batch done
  | .Deleting batch pending => Rows s batch batch.scan.entries ∧
      ∀ old ∈ pending, Unseen batch old.metadata.name
  | .Dropping batch name _ pending => Rows s batch batch.scan.entries ∧ Unseen batch name ∧
      ∀ old ∈ pending, Unseen batch old.metadata.name
  | .Sending batch request _ => Rows s batch batch.scan.entries ∧ OfHold request
  | .Holding batch _ | .Fetching batch _ => Rows s batch batch.scan.entries
  | .Committing batch node _ => Rows s batch batch.scan.entries ∧
      ∃ view ∈ trace, getNode view = some node
  | _ => True

-- A ready Node with a token offers the committed listing of the latest scan.
structure Offered (w : World) (status : NodeStatus) (begun : Store) (batch : Batch) : Prop where
  latest : w.begun = some begun
  listing : Listing.mk begun batch ∈ w.listings
  token : batch.scan.start = tokenAt begun
  generation : batch.generation = status.listGeneration
  rows : Rows w.store batch batch.scan.entries

structure Inv (w : World) : Prop where
  run : Api.Run w.trace
  token : ∀ node status, getNode w.store = some node → node.status = .Node status →
    status.scanStartedRv ≠ 0 → ∃ begun, w.begun = some begun ∧ tokenOf status = tokenAt begun
  began : ∀ begun, w.begun = some begun → Began w.trace begun
  offered : ∀ node status, getNode w.store = some node → node.status = .Node status →
    status.ready = true → status.scanStartedRv ≠ 0 → ∃ begun batch, Offered w status begun batch
  live : ∀ start, w.phase.token = some start →
    (∃ begun, w.begun = some begun ∧ start = tokenAt begun) ∧ Unready w.store
  progress : Progress w.store w.trace w.phase

-- Steps that leave the listing alone.

section Frame

variable {s s' : Store}

theorem Rows.frame {batch : Batch} {published : List RemoteEntry} (h : Rows s batch published)
    (hrows : ∀ obj, obj.kind = .RemoteFile → (obj ∈ s'.objects ↔ obj ∈ s.objects)) :
    Rows s' batch published := by
  constructor
  · intro row hrow hkind
    exact h.sound row ((hrows row hkind).mp hrow) hkind
  · intro entry hentry hmedia
    obtain ⟨row, hrow, hkind, hrest⟩ := h.complete entry hentry hmedia
    exact ⟨row, (hrows row hkind).mpr hrow, hkind, hrest⟩

theorem Older.mono {trace trace' : List Store} {batch : Batch} (h : Older trace batch)
    (hsub : trace ⊆ trace') : Older trace' batch := by
  intro old hold
  obtain ⟨⟨view, hview, hmem⟩, hrest⟩ := h old hold
  exact ⟨⟨view, hsub hview, hmem⟩, hrest⟩

theorem Progress.frame {trace trace' : List Store} {phase : Phase} (h : Progress s trace phase)
    (hrows : ∀ obj, obj.kind = .RemoteFile → (obj ∈ s'.objects ↔ obj ∈ s.objects))
    (hsub : trace ⊆ trace') : Progress s' trace' phase := by
  cases phase with
  | Listed scan previous cluster existing =>
      exact ⟨fun obj hkind => (hrows obj hkind).trans (h.1 obj hkind), h.2⟩
  | Publishing batch pending =>
      obtain ⟨holder, done, hdone, hpublished⟩ := h
      exact ⟨holder.mono hsub, done, hdone, hpublished.frame hrows⟩
  | Deleting batch pending => exact ⟨h.1.frame hrows, h.2⟩
  | Dropping batch name rv pending => exact ⟨h.1.frame hrows, h.2⟩
  | Sending batch request pending => exact ⟨h.1.frame hrows, h.2⟩
  | Holding batch pending => exact Rows.frame h hrows
  | Fetching batch attempt => exact Rows.frame h hrows
  | Committing batch node attempt =>
      obtain ⟨hpublished, view, hview, hnode⟩ := h
      exact ⟨hpublished.frame hrows, view, hsub hview, hnode⟩
  | Rejecting scan previous pending => exact h
  | _ => trivial

end Frame

namespace Inv

variable {w : World}

theorem settled (h : Inv w) : Api.Settled w.trace w.store := h.run.settled

theorem sub (w : World) (s' : Store) : w.trace ⊆ s' :: w.trace := List.subset_cons_self _ _

-- A step of another party.
theorem other (h : Inv w) {s' : Store} (step : Api.Step w.trace w.store s')
    (hforeign : Foreign w.store s') : Inv (w.moved s') where
  run := .Next h.run step
  token := by
    intro node status hnode hstatus htoken
    rcases hforeign.node with hsame | hgone
    · exact h.token node status (hsame ▸ hnode) hstatus htoken
    · exact absurd (hgone.symm.trans hnode) (by simp)
  began := fun begun hbegun => (h.began begun hbegun).mono (sub w s')
  offered := by
    intro node status hnode hstatus hready htoken
    rcases hforeign.node with hsame | hgone
    · obtain ⟨begun, batch, hoffered⟩ :=
        h.offered node status (hsame ▸ hnode) hstatus hready htoken
      exact ⟨begun, batch, hoffered.latest, hoffered.listing, hoffered.token, hoffered.generation,
        hoffered.rows.frame hforeign.rows⟩
    · exact absurd (hgone.symm.trans hnode) (by simp)
  live := by
    intro start hstart
    obtain ⟨hbegun, hunready⟩ := h.live start hstart
    refine ⟨hbegun, fun node status hnode hstatus => ?_⟩
    rcases hforeign.node with hsame | hgone
    · exact hunready node status (hsame ▸ hnode) hstatus
    · exact absurd (hgone.symm.trans hnode) (by simp)
  progress := h.progress.frame hforeign.rows (sub w s')

-- A status written over the Node that was read finds it unchanged.
theorem patched_node {trace : List Store} {s view : Store} (h : Api.Settled trace s)
    (hview : view ∈ trace) {env : Env} {node : HomeObject} (hget : getNode view = some node)
    {status : StatusBody} {s' : Store}
    (hres : Serve.patch env s s .Inventory .PatchStatus { node with status } = (.ok (), s')) :
    getNode s = some node ∧ getNode s' = some (Api.rewritten s { node with status }) ∧
      ∀ obj, obj.kind = .RemoteFile → (obj ∈ s'.objects ↔ obj ∈ s.objects) := by
  obtain ⟨old, hold, hrv, rfl⟩ := Api.patch_served h.typed hres
  obtain ⟨hv, hsince⟩ := h.views view hview
  obtain rfl : node = old := hsince.coherent hv (Store.get_mem hget) (Store.get_mem hold) hrv
  have hkey := Store.get_key hget
  have hkind : node.kind = .Node := congrArg Prod.fst hkey
  have hname : node.metadata.name = inventoryName := congrArg Prod.snd hkey
  refine ⟨?_, getNode_write_self WatchType.noConfusion hkey,
    rows_write_of_ne h.sound (by simp [Api.rewritten, hkind])⟩
  have hfound := h.sound.get_of_mem (Store.get_mem hold)
  rwa [hkind, hname] at hfound

-- A heartbeat finds the Node it has read, or makes a Node without a token.
theorem heartbeat_node {trace : List Store} {s view : Store} (h : Api.Settled trace s)
    (hview : view ∈ trace) (env : Env) {ready : Option Bool} {now : Int} {request : Serve.Request}
    (hrequest : heartbeat (getNode view) ready now = some request) {s' : Store}
    (hs' : (Serve.serve env s s .Inventory request).2 = s') :
    (∀ obj, obj.kind = .RemoteFile → (obj ∈ s'.objects ↔ obj ∈ s.objects)) ∧
    ∀ node' status', getNode s' = some node' → node'.status = .Node status' →
      (∃ node status, getNode s = some node ∧ node.status = .Node status ∧
        (status' = status ∨ status' = beat ready now status)) ∨ status' = beat ready now {} := by
  by_cases hsame : s' = s
  · rw [hsame]
    exact ⟨fun _ _ => Iff.rfl, fun node' status' hnode hstatus =>
      .inl ⟨node', status', hnode, hstatus, .inl rfl⟩⟩
  cases hget : getNode view with
  | none =>
      rw [hget] at hrequest
      cases hrequest
      cases hres : Serve.apply env s s .Inventory
          { Sync.inventoryNodeObject with status := .Node (beat ready now {}) } with
      | mk outcome s₁ =>
          obtain rfl : s₁ = s' := by
            rw [← hs']
            exact (congrArg Prod.snd hres).symm
          cases outcome with
          | error e => exact absurd (Api.apply_refused hres) hsame
          | ok u =>
              obtain ⟨-, ⟨old, hold, hrv, -⟩ | ⟨-, rfl⟩⟩ := Api.apply_served h.sound hres
              · -- The new Node has no revision yet, a stored one has.
                have hpos := (h.sound.bound old (Store.get_mem hold)).1
                have hzero : (0 : Int) = old.metadata.resourceVersion := hrv
                omega
              · refine ⟨rows_write_of_ne h.sound Kind.noConfusion, fun node' status' hnode hstatus => ?_⟩
                rw [getNode_write_self WatchType.noConfusion rfl] at hnode
                cases hnode
                cases hstatus
                exact .inr rfl
  | some node =>
      rw [hget] at hrequest
      simp only [heartbeat] at hrequest
      split at hrequest
      · next status hstatus =>
          cases hrequest
          cases hres : Serve.patch env s s .Inventory .PatchStatus
              { node with status := .Node (beat ready now status) } with
          | mk outcome s₁ =>
              obtain rfl : s₁ = s' := by
                rw [← hs']
                exact (congrArg Prod.snd hres).symm
              cases outcome with
              | error e => exact absurd (Api.patch_refused hres) hsame
              | ok u =>
                  obtain ⟨hnow, hnew, hrows⟩ := patched_node h hview hget hres
                  refine ⟨hrows, fun node' status' hnode hstatus' =>
                    .inl ⟨node, status, hnow, hstatus, .inr ?_⟩⟩
                  rw [hnew] at hnode
                  cases hnode
                  exact (StatusBody.Node.inj hstatus').symm
      · cases hrequest

theorem heartbeats (h : Inv w) (env : Env) {view : Store} (hview : view ∈ w.trace)
    {ready : Option Bool} (hready : ready ≠ some true) {now : Int} {request : Serve.Request}
    (hrequest : heartbeat (getNode view) ready now = some request) :
    Inv (w.moved (Serve.serve env w.store w.store .Inventory request).2) := by
  have hstep : Api.Step w.trace w.store (Serve.serve env w.store w.store .Inventory request).2 :=
    .Request env w.store List.mem_cons_self .Inventory request
  obtain ⟨hrows, hnode⟩ := heartbeat_node h.settled hview env hrequest rfl
  generalize (Serve.serve env w.store w.store .Inventory request).2 = s' at hstep hrows hnode
  -- A ready flag was set before, with the token and the generation it has now.
  have hkept : ∀ node' status', getNode s' = some node' → node'.status = .Node status' →
      status'.scanStartedRv ≠ 0 → ∃ node status, getNode w.store = some node ∧
        node.status = .Node status ∧ status.scanStartedRv ≠ 0 ∧ tokenOf status' = tokenOf status ∧
        status'.listGeneration = status.listGeneration ∧
        (status'.ready = true → status.ready = true) := by
    intro node' status' hget hstatus htoken
    rcases hnode node' status' hget hstatus with ⟨node, status, hold, hbefore, rfl | rfl⟩ | rfl
    · exact ⟨node, status', hold, hbefore, htoken, rfl, rfl, id⟩
    · exact ⟨node, status, hold, hbefore, htoken, rfl, rfl, beat_ready hready⟩
    · exact absurd rfl htoken
  refine ⟨.Next h.run hstep, ?_, fun begun hbegun => (h.began begun hbegun).mono (sub w s'), ?_, ?_,
    h.progress.frame hrows (sub w s')⟩
  · intro node' status' hget hstatus htoken
    obtain ⟨node, status, hold, hbefore, hnonzero, hsame, -, -⟩ :=
      hkept node' status' hget hstatus htoken
    rw [hsame]
    exact h.token node status hold hbefore hnonzero
  · intro node' status' hget hstatus hon htoken
    obtain ⟨node, status, hold, hbefore, hnonzero, -, hgeneration, hwas⟩ :=
      hkept node' status' hget hstatus htoken
    obtain ⟨begun, batch, hoffered⟩ := h.offered node status hold hbefore (hwas hon) hnonzero
    exact ⟨begun, batch, hoffered.latest, hoffered.listing, hoffered.token,
      hoffered.generation.trans hgeneration.symm, hoffered.rows.frame hrows⟩
  · intro start hstart
    obtain ⟨hbegun, hunready⟩ := h.live start hstart
    refine ⟨hbegun, fun node' status' hget hstatus => ?_⟩
    rcases hnode node' status' hget hstatus with ⟨node, status, hold, hbefore, rfl | rfl⟩ | rfl
    · exact hunready node status' hold hbefore
    · have hoff := hunready node status hold hbefore
      by_contra hon
      rw [beat_ready hready (Bool.eq_true_of_not_eq_false hon)] at hoff
      cases hoff
    · by_contra hon
      cases beat_ready hready (Bool.eq_true_of_not_eq_false hon)

theorem receive (h : Inv w) {start : ScanStart} (hphase : w.phase = .Started start)
    (entries : List RemoteEntry) (holds : List HoldLiveItem) :
    Inv { w with phase := .Scanned { start, entries, holds } } where
  run := h.run
  token := h.token
  began := h.began
  offered := fun node status hnode hstatus hready htoken => by
    obtain ⟨begun, batch, hoffered⟩ := h.offered node status hnode hstatus hready htoken
    exact ⟨begun, batch, hoffered.latest, hoffered.listing, hoffered.token, hoffered.generation,
      hoffered.rows⟩
  live := fun token htoken => by
    refine h.live token ?_
    rw [hphase]
    exact htoken
  progress := trivial

theorem crash (h : Inv w) : Inv { w with phase := .Idle } where
  run := h.run
  token := h.token
  began := h.began
  offered := fun node status hnode hstatus hready htoken => by
    obtain ⟨begun, batch, hoffered⟩ := h.offered node status hnode hstatus hready htoken
    exact ⟨begun, batch, hoffered.latest, hoffered.listing, hoffered.token, hoffered.generation,
      hoffered.rows⟩
  live := fun token htoken => by cases htoken
  progress := trivial

end Inv

end

end Mediaops.Inventory
