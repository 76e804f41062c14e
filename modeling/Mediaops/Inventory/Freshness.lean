import Mediaops.Api.Passes
import Mediaops.Api.SyncPlan.Theorems
import Mediaops.Inventory.Theorems

namespace Mediaops.Inventory

-- The freshness of a capture.

section Records

variable [UnicodeTables]

-- A request is born right after the revision it was accepted at.
def SyncsBorn (s : Store) : Prop :=
  ∀ row ∈ s.objects, ∀ status, row.status = .Sync status → 0 ≤ status.acceptanceRv ∧
    row.metadata.uid = uidOf .Sync (status.acceptanceRv + 1)

theorem syncMove_acceptance {before after : SyncStatus} {request : HomeObject}
    (h : Api.SyncMove before request after) : after.acceptanceRv = before.acceptanceRv := by
  cases h <;> rfl

theorem syncsBorn_write {s : Store} {ev : StoreEvent} (hs : Store.Sound s) (ht : Api.Typed s)
    (h : SyncsBorn s) (hw : Api.Write s ev) : SyncsBorn (s.write ev) := by
  intro row hrow status hstatus
  rcases hs.mem_write hrow with ⟨hkept, rfl⟩ | ⟨hold, -⟩
  · have hkind : ev.object.kind = .Sync := by
      rw [← (hw.typed ht).1.2, hstatus]
      rfl
    cases hw.sync hkind with
    | Accepted obj accepted _ _ _ _ _ _ huid _ haccepted _ hrv =>
        have hsame : obj.status = .Sync status := hstatus
        rw [haccepted] at hsame
        cases hsame
        rw [hrv]
        exact ⟨hs.counter, huid⟩
    | Planned old before after hold _ hbefore _ hmove =>
        cases hstatus
        rw [syncMove_acceptance hmove]
        exact h old hold before hbefore
    | Deleted old hold => exact absurd rfl hkept
  · exact h row hold status hstatus

theorem syncsBorn {s : Store} {past : List Store} (run : Api.Run (s :: past)) : SyncsBorn s :=
  run.trail_invariant (P := SyncsBorn) (by intro row hrow; cases hrow)
    fun _ _ hs ht h hw => syncsBorn_write hs ht h hw

-- Generations count from one.
theorem generation_pos {s : Store} {past : List Store} (run : Api.Run (s :: past)) :
    ∀ obj ∈ s.objects, 1 ≤ obj.metadata.generation := by
  refine run.trail_invariant (P := fun s => ∀ obj ∈ s.objects, 1 ≤ obj.metadata.generation)
    (by intro obj hobj; cases hobj) fun s ev hs ht h hw obj hobj => ?_
  rcases hs.mem_write hobj with ⟨hkept, rfl⟩ | ⟨hold, -⟩
  · cases hw.change hs with
    | Create hc => rw [hc.generation]
    | Update old hc =>
        have hold := h old (Store.get_mem hc.found)
        rw [hc.generation]
        split <;> omega
    | Remove old hc => exact absurd hc.watch hkept
  · exact h obj hold

-- A row whose identity was given out by `view` was there.
theorem born_before {s : Store} {past : List Store} (run : Api.Run (s :: past)) {view : Store}
    (hview : view ∈ s :: past) {row : HomeObject} (hrow : row ∈ s.objects) {born : Int}
    (hpos : 0 ≤ born) (hborn : born ≤ view.rv) (huid : row.metadata.uid = uidOf row.kind born) :
    ∃ prev ∈ view.objects, prev.kind = row.kind ∧ prev.metadata.uid = row.metadata.uid := by
  generalize htrace : s :: past = trace at run hview
  induction run generalizing s past row with
  | Start =>
      obtain ⟨rfl, rfl⟩ := List.cons.inj htrace
      cases hrow
  | @Next s₀ s' past₀ run step ih =>
      obtain ⟨rfl, rfl⟩ := List.cons.inj htrace
      rcases List.mem_cons.mp hview with rfl | hview
      · exact ⟨row, hrow, rfl, rfl⟩
      have hbefore := run.settled
      obtain ⟨evs, htrail⟩ := (run.effect step).trail hbefore.sound
      rcases Api.trail_origin (R := fun _ _ => True) (fun _ => trivial) (fun _ _ => trivial)
        (fun _ _ hw => hw) (fun _ _ _ _ _ _ _ _ _ => trivial) hbefore.sound hbefore.typed
        htrail hrow with
        ⟨prev, hprev, hkind, hsame, -⟩ | ⟨later, hlt, hlater⟩
      · obtain ⟨first, hfirst, hfirstKind, hfirstUid⟩ :=
          ih hprev (hsame.trans (hkind ▸ huid)) rfl hview
        exact ⟨first, hfirst, hfirstKind.trans hkind, hfirstUid.trans hsame⟩
      · have hcounter := (hbefore.views view hview).2.counter
        have := Store.uidOf_injective (by omega) hpos (hlater.symm.trans huid)
        omega

end Records

section Capture

variable [UnicodeTables]

-- A captured request among rows written one by one was captured before.
theorem trail_uncaptured {s s' : Store} {evs : List StoreEvent} (hs : Store.Sound s)
    (htrail : Store.Trail (fun s ev => Api.Write s ev ∧ Api.Plain ev) s evs s') {row : HomeObject}
    (hrow : row ∈ s'.objects) {status : SyncStatus} (hstatus : row.status = .Sync status)
    (hcaptured : status.phase = .Captured) : row ∈ s.objects := by
  induction htrail with
  | Done s => exact hrow
  | @Write s s' ev evs hev _ ih =>
      have hmid := ih (hs.write (hev.1.change hs)) hrow
      rcases hs.mem_write hmid with ⟨hkept, rfl⟩ | ⟨hold, -⟩
      · exact absurd hcaptured (hev.2.uncaptured hkept status hstatus)
      · exact hold

-- A step that takes a waiting request to its captured state is a capture.
theorem captured_of_step {s s' : Store} {past : List Store} (run : Api.Run (s :: past))
    (step : Api.Step (s :: past) s s') {a b : HomeObject} (ha : a ∈ s.objects)
    (hb : b ∈ s'.objects) (hka : a.kind = .Sync) (hkb : b.kind = .Sync)
    (huid : a.metadata.uid = b.metadata.uid) {before after : SyncStatus}
    (hbefore : a.status = .Sync before) (hafter : b.status = .Sync after)
    (hwaiting : before.phase = .WaitingInventory) (hcaptured : after.phase = .Captured) :
    ∃ objects generation now, after = Sync.capturedStatus objects a before generation ∧
      Api.Captured s a before objects generation now := by
  have hs := run.settled.sound
  -- A row that was there already has not moved.
  have hmoved : b ∉ s.objects := by
    intro hmem
    obtain rfl := hs.uidsDistinct a ha b hmem (hka.trans hkb.symm) huid
    rw [hbefore] at hafter
    cases hafter
    rw [hwaiting] at hcaptured
    cases hcaptured
  have heffect := run.effect step
  cases heffect with
  | Writes htrail => exact absurd (trail_uncaptured hs htrail hb hafter hcaptured) hmoved
  | @Capture old before' objects generation now hcapture =>
      rcases hs.mem_write hb with ⟨-, rfl⟩ | ⟨hold, -⟩
      · obtain rfl := hs.uidsDistinct a ha old hcapture.mem (hka.trans hcapture.kind.symm) huid
        have hsame := hcapture.status
        rw [hbefore] at hsame
        cases hsame
        cases hafter
        exact ⟨objects, generation, now, rfl, hcapture⟩
      · exact absurd hold hmoved
  | @Schedule _ s₁ old before' after' hscheduled =>
      obtain ⟨env, objects, hrun⟩ := hscheduled.entries
      obtain ⟨evs, htrail⟩ := Api.entriesRun_trail hrun
      have hmid : Api.Settled (s :: past) s₁ := run.settled.trail htrail
      obtain rfl := hscheduled.final
      rcases hmid.sound.mem_write hb with ⟨-, rfl⟩ | ⟨hold, -⟩
      · cases hafter
        rw [hscheduled.phase] at hcaptured
        cases hcaptured
      · have hget := hmid.sound.get_of_mem hold
        rw [hkb, hrun.get_other (by decide) (by decide)] at hget
        exact absurd (Store.get_mem hget) hmoved

omit [UnicodeTables] in
-- What a listing that may serve a request has to be.
theorem qualifyingGeneration_some {s : Store} (hs : Store.Sound s) {request : SyncStatus}
    {now generation : Int}
    (h : Sync.qualifyingGeneration (s.snapshot none).1 request now = .ok (some generation)) :
    (∃ cluster config, s.get .Cluster clusterName = some cluster ∧
      cluster.metadata.generation = request.clusterGeneration ∧ request.cluster = some config) ∧
    ∃ node status, getNode s = some node ∧ node.status = .Node status ∧ status.ready = true ∧
      status.listGeneration = generation ∧ request.acceptanceRv < status.scanStartedRv ∧
      status.scanClusterGeneration = request.clusterGeneration ∧
      status.scanSecretResourceVersion = request.secretResourceVersion := by
  have hnode : ∀ obj ∈ (s.snapshot none).1, obj.kind = .Node →
      obj.metadata.name = WorkerKind.Inventory.nodeName → getNode s = some obj := by
    intro obj hobj hkind hname
    have hget := hs.get_of_mem (Api.mem_snapshot.mp hobj).1
    rwa [hkind, hname] at hget
  unfold Sync.qualifyingGeneration at h
  dsimp only at h
  obtain ⟨hconfigured, h₁⟩ := Checks.ite_ok h
  push Not at hconfigured
  rw [Api.findObject_snapshot hs] at hconfigured
  constructor
  · cases hget : s.get .Cluster clusterName with
    | none => simp [hget] at hconfigured
    | some cluster =>
        simp only [hget, Option.any_some, Bool.not_eq_true', ne_eq, Bool.not_eq_false,
          Bool.and_eq_true, decide_eq_true_eq] at hconfigured
        obtain ⟨⟨hgeneration, hspec⟩, -⟩ := hconfigured
        split at hspec
        · next config hconfig =>
            simp only [Bool.and_eq_true, decide_eq_true_eq] at hspec
            exact ⟨cluster, config, rfl, hgeneration, hspec.1.symm⟩
        · cases hspec
  · split at h₁
    · cases h₁
    next offered hoffered =>
      obtain ⟨obj, hobj, hsome⟩ := List.exists_of_findSome?_eq_some (Except.ok.inj h₁)
      obtain ⟨obj', hobj', hsome'⟩ := List.exists_of_findSome?_eq_some hoffered
      split at hsome
      · next status hstatus =>
          split at hsome
          · next hqualifies =>
              obtain ⟨hkind, hname, -, hafter, hcluster, hsecret⟩ := hqualifies
              cases hsome
              split at hsome'
              · next status' hstatus' =>
                  split at hsome'
                  · next hready =>
                      obtain ⟨hkind', hname', -, hon, -⟩ := hready
                      cases hsome'
                      -- Both found the one inventory Node.
                      have hget := hnode obj hobj hkind hname
                      have hget' := hnode obj' hobj' hkind' hname'
                      obtain rfl : obj' = obj := Option.some.inj (hget'.symm.trans hget)
                      obtain rfl : status' = status :=
                        StatusBody.Node.inj (hstatus'.symm.trans hstatus)
                      simp only [nodeIsReady, Bool.and_eq_true] at hon
                      exact ⟨obj', status', hget', hstatus', hon.1.1, rfl, hafter, hcluster, hsecret⟩
                  · cases hsome'
              · cases hsome'
          · cases hsome
      · cases hsome

-- The request was there when the scan began, under the configuration it recorded, and
-- the rows of the captured generation are the media files of that scan and no others.
structure CapturesListing (s : Store) (before after : SyncStatus) (uid : Text)
    (listing : Listing) : Prop where
  accepted : ∃ row ∈ listing.begun.objects, row.kind = .Sync ∧ row.metadata.uid = uid
  cluster : ((listing.begun.get .Cluster clusterName).map fun obj => obj.metadata.generation) =
    some before.clusterGeneration
  secret : secretRevision (listing.begun.snapshot none).1 = before.secretResourceVersion
  scan : listing.batch.scan.start = tokenAt listing.begun
  generation : listing.batch.generation = after.listGeneration
  rows : ∀ status, (∃ row ∈ s.objects, row.kind = .RemoteFile ∧ row.status = .RemoteFile status ∧
      status.listGeneration = after.listGeneration) ↔
    ∃ entry ∈ listing.batch.scan.entries, entry.isMedia = true ∧ status = listing.batch.status entry
  entries : ∀ source,
    source ∈ after.entries.map (fun e => (e.remoteRoot, e.remotePath, e.fileLen)) ↔
      source ∈ (listing.batch.scan.entries.filter RemoteEntry.isMedia).map
        fun e => (e.rootId, e.relPath, e.len)

-- Whatever else happens in between, a request that is captured gets the one committed
-- scan that began after it.
theorem sync_freshness {w : World} (h : Reachable w) {s' : Store}
    (step : Api.Step w.trace w.store s') {a b : HomeObject} (ha : a ∈ w.store.objects)
    (hb : b ∈ s'.objects) (hka : a.kind = .Sync) (hkb : b.kind = .Sync)
    (huid : a.metadata.uid = b.metadata.uid) {before after : SyncStatus}
    (hbefore : a.status = .Sync before) (hafter : b.status = .Sync after)
    (hwaiting : before.phase = .WaitingInventory) (hcaptured : after.phase = .Captured) :
    ∃ listing ∈ w.listings, CapturesListing w.store before after a.metadata.uid listing := by
  have hinv := h.inv
  have hsettled := hinv.settled
  obtain ⟨objects, generation, now, rfl, hcapture⟩ := captured_of_step hinv.run step ha hb hka hkb
    huid hbefore hafter hwaiting hcaptured
  obtain ⟨⟨cluster, config, hget, hgeneration, hconfig⟩, node, status, hnode, hstatus, hready, hlist,
    hacceptance, hcluster, hsecret⟩ := qualifyingGeneration_some hsettled.sound hcapture.fresh
  obtain ⟨hpos, hborn⟩ := syncsBorn hinv.run a ha before hbefore
  have hlater : before.acceptanceRv < status.scanStartedRv := hacceptance
  obtain ⟨begun, batch, hoffered⟩ := hinv.offered node status hnode hstatus hready (by omega)
  obtain ⟨begun', hlatest, htoken⟩ := hinv.token node status hnode hstatus (by omega)
  obtain rfl : begun = begun' := Option.some.inj (hoffered.latest.symm.trans hlatest)
  have hstarted : status.scanStartedRv = min (begun.rv + 1) i64Max :=
    congrArg ScanStart.startedRv htoken
  have hrows : ∀ found, (∃ row ∈ w.store.objects, row.kind = .RemoteFile ∧
      row.status = .RemoteFile found ∧ found.listGeneration = generation) ↔
      ∃ entry ∈ batch.scan.entries, entry.isMedia = true ∧ found = batch.status entry := by
    have hsame : batch.generation = generation := hoffered.generation.trans hlist
    intro found
    constructor
    · rintro ⟨row, hrow, hkind, hrowStatus, hrowGeneration⟩
      obtain ⟨entry, hentry, hmedia, -, hfound⟩ := hoffered.rows.sound row hrow hkind found hrowStatus
        (by omega)
      exact ⟨entry, hentry, hmedia, hfound⟩
    · rintro ⟨entry, hentry, hmedia, rfl⟩
      obtain ⟨row, hrow, hkind, -, hrowStatus⟩ := hoffered.rows.complete entry hentry hmedia
      exact ⟨row, hrow, hkind, hrowStatus, hsame⟩
  obtain ⟨hbegun, served, hserved, hcounter, hkept⟩ := hinv.began begun hlatest
  refine ⟨⟨begun, batch⟩, hoffered.listing, ?_, ?_, ?_, hoffered.token,
    hoffered.generation.trans hlist, hrows, ?_⟩
  · -- The request was born before the scan was served, and the scan wrote no request.
    have hbornAt : a.metadata.uid = uidOf a.kind (before.acceptanceRv + 1) := by
      rw [hka]
      exact hborn
    obtain ⟨row, hrow, hkind, hsameUid⟩ := born_before hinv.run hserved ha (by omega) (by omega)
      hbornAt
    have hrowKind := hkind.trans hka
    exact ⟨row, hkept row hrow hrowKind, hrowKind, hsameUid⟩
  · -- The recorded generation is that of a Cluster, so the scan saw one.
    have hone := generation_pos hinv.run cluster (Store.get_mem hget)
    have hsound := (hsettled.views begun hbegun).1
    have hsame : ((begun.get .Cluster clusterName).map
        fun obj => obj.metadata.generation).getD 0 = before.clusterGeneration := by
      rw [← Api.findObject_snapshot hsound]
      exact (congrArg ScanStart.clusterGeneration htoken).symm.trans hcluster
    have hrecorded : cluster.metadata.generation = before.clusterGeneration := hgeneration
    cases hfound : begun.get .Cluster clusterName with
    | none =>
        rw [hfound] at hsame
        simp only [Option.map_none, Option.getD_none] at hsame
        omega
    | some found =>
        rw [hfound] at hsame
        exact congrArg some hsame
  · exact (congrArg ScanStart.secretResourceVersion htoken).symm.trans hsecret
  · intro source
    have hlisted : ∀ obj, obj.kind = .RemoteFile → (obj ∈ objects ↔ obj ∈ w.store.objects) := by
      intro obj hkind
      have hmem : obj ∈ (w.store.snapshot none).1.filter Sync.isListed ↔
          obj ∈ objects.filter Sync.isListed := by rw [hcapture.listed]
      simpa [Sync.isListed, hkind, Api.mem_snapshot, Store.ofKind] using hmem.symm
    have hremote : ∀ obj ∈ objects, ∀ remote, obj.status = .RemoteFile remote →
        obj.kind = .RemoteFile := by
      intro obj hobj remote hstatus
      rw [← (hcapture.agrees obj hobj).2, hstatus]
      rfl
    generalize hcapturing : { before with listGeneration := generation, phase := .Captured } =
      capturing
    have hentries : (Sync.capturedStatus objects a before generation).entries =
        SyncPlan.capture objects (Sync.withSync a capturing) := by rw [← hcapturing]; rfl
    have hcapturingCluster : capturing.cluster = some config := by rw [← hcapturing]; exact hconfig
    have hcapturingGeneration : capturing.listGeneration = generation := by rw [← hcapturing]
    rw [hentries, SyncPlan.capture_sources rfl hcapturingCluster, hcapturingGeneration, List.mem_map]
    constructor
    · rintro ⟨obj, hobj, remote, hstatus, hremoteGeneration, rfl⟩
      have hkind := hremote obj hobj remote hstatus
      obtain ⟨entry, hentry, hmedia, rfl⟩ :=
        (hrows remote).mp ⟨obj, (hlisted obj hkind).mp hobj, hkind, hstatus, hremoteGeneration⟩
      exact ⟨entry, List.mem_filter.mpr ⟨hentry, hmedia⟩, rfl⟩
    · rintro ⟨entry, hentry, rfl⟩
      obtain ⟨hentry, hmedia⟩ := List.mem_filter.mp hentry
      obtain ⟨row, hrow, hkind, hstatus, hrowGeneration⟩ :=
        (hrows (batch.status entry)).mpr ⟨entry, hentry, hmedia, rfl⟩
      exact ⟨row, (hlisted row hkind).mpr hrow, batch.status entry, hstatus, hrowGeneration, rfl⟩

end Capture

-- A home that asks for its films, and one scan of them.
namespace Sample

open Api.Sample

def heat : RemoteEntry where
  rootId := "films"
  relPath := "Heat.(1995)/Heat.(1995).mkv"
  len := 5
  valid := rfl

section

variable [UnicodeTables]

def call (actor : Actor) (request : Serve.Request) (w : World) : World :=
  w.moved (Serve.serve emptyLibrary w.store w.store actor request).2

def configured : World :=
  call .Cli (.Apply (.new .Cluster clusterName (.Cluster cluster) (StatusBody.empty .Cluster))) .start

def asked : World := call .Cli (.Sync "evening") configured

def answered (w : World) : World :=
  match w.phase with
  | .Started start => { w with phase := .Scanned { start, entries := [heat], holds := [] } }
  | _ => w

def listed : World :=
  (World.publish emptyLibrary)^[11] (answered (asked.publish emptyLibrary))

theorem call_reachable {w : World} (h : Reachable w) (actor : Actor) (request : Serve.Request)
    (hnone : ∀ obj ∈ w.store.objects ++ (call actor request w).store.objects,
      obj.kind ≠ .RemoteFile ∧ obj.kind ≠ .Node) : Reachable (call actor request w) := by
  refine .Other h (.Request emptyLibrary w.store List.mem_cons_self actor request) ⟨?_, ?_⟩
  · intro obj hkind
    constructor
    · intro hobj
      exact absurd hkind (hnone obj (List.mem_append_right _ hobj)).1
    · intro hobj
      exact absurd hkind (hnone obj (List.mem_append_left _ hobj)).1
  · right
    cases hget : getNode (Serve.serve emptyLibrary w.store w.store actor request).2 with
    | none => rfl
    | some node =>
        have hmem := Store.get_mem hget
        exact absurd (congrArg Prod.fst (Store.get_key hget))
          (hnone node (List.mem_append_right _ hmem)).2

theorem answered_reachable {w : World} (h : Reachable w) : Reachable (answered w) := by
  unfold answered
  split
  · next start hphase => exact .Receive h start hphase [heat] []
  · exact h

theorem publish_reachable {w : World} (h : Reachable w) (count : Nat) :
    Reachable ((World.publish emptyLibrary)^[count] w) := by
  induction count with
  | zero => exact h
  | succ count ih =>
      rw [Function.iterate_succ_apply']
      exact .Publish ih emptyLibrary

-- The capture of a waiting request goes through.
def captures (s : Store) (request : HomeObject) : Bool :=
  match request.status with
  | .Sync before => before.phase = .WaitingInventory &&
      (Sync.commitCapture emptyLibrary s (s.snapshot none).1 request before 1).2.objects.any fun row =>
        row.kind = .Sync && row.metadata.uid = request.metadata.uid &&
          match row.status with
          | .Sync after => after.phase = .Captured && after.entries ≠ []
          | _ => false
  | _ => false

end

end Sample

theorem sync_freshness_evening :
    let := UnicodeTables.ascii
    ∃ w a before after, Reachable w ∧ a ∈ w.store.objects ∧ a.status = .Sync before ∧
      before.phase = .WaitingInventory ∧ after.phase = .Captured ∧ after.entries ≠ [] ∧
      ∃ listing ∈ w.listings, CapturesListing w.store before after a.metadata.uid listing := by
  intro _
  have hconfigured : Reachable Sample.configured :=
    Sample.call_reachable .Start _ _ (by decide +kernel)
  have hasked : Reachable Sample.asked := Sample.call_reachable hconfigured _ _ (by decide +kernel)
  have hlisted : Reachable Sample.listed := Sample.publish_reachable
    (Sample.answered_reachable (.Publish hasked Api.Sample.emptyLibrary)) 11
  have hcaptures : ∃ a ∈ Sample.listed.store.objects,
      a.kind = .Sync ∧ Sample.captures Sample.listed.store a = true := by decide +kernel
  obtain ⟨a, ha, hka, hcaptures⟩ := hcaptures
  unfold Sample.captures at hcaptures
  split at hcaptures
  · next before hbefore =>
      simp only [Bool.and_eq_true, decide_eq_true_eq, List.any_eq_true] at hcaptures
      obtain ⟨hwaiting, b, hb, ⟨hkb, huid⟩, hcaptured⟩ := hcaptures
      split at hcaptured
      · next after hafter =>
          simp only [Bool.and_eq_true, decide_eq_true_eq, ne_eq] at hcaptured
          have hstep : Api.Step Sample.listed.trace Sample.listed.store _ :=
            .Capture Api.Sample.emptyLibrary _ _ List.mem_cons_self List.mem_cons_self a ha before
              hbefore hwaiting 1
          exact ⟨Sample.listed, a, before, after, hlisted, ha, hbefore, hwaiting, hcaptured.1,
            hcaptured.2, sync_freshness hlisted hstep ha hb hka hkb huid.symm hbefore hafter
              hwaiting hcaptured.1⟩
      · cases hcaptured
  · cases hcaptures

end Mediaops.Inventory
