import Mediaops.Core.PathSchema.Theorems
import Mediaops.Api.Passes
import Mediaops.Inventory.Theorems
import Mediaops.Seedbox
import Mathlib.Logic.Relation

namespace Mediaops.Inventory

open Arr (HoldLiveItem)

-- What the Holds of a listing come to. The items of a queue are published one
-- after another under the name of their title and release, so the last item of a
-- name is the one that stays.

section

variable [UnicodeTables]

def lastNamed (items : List HoldLiveItem) (name : Text) : Option HoldLiveItem :=
  items.reverse.find? fun item => item.name = name

theorem lastNamed_append (items : List HoldLiveItem) (item : HoldLiveItem) (name : Text) :
    lastNamed (items ++ [item]) name =
      if item.name = name then some item else lastNamed items name := by
  unfold lastNamed
  rw [List.reverse_concat, List.find?_cons]
  by_cases h : item.name = name <;> simp [h]

theorem lastNamed_some {items : List HoldLiveItem} {name : Text} {item : HoldLiveItem}
    (h : lastNamed items name = some item) : item ∈ items ∧ item.name = name := by
  refine ⟨List.mem_reverse.mp (List.mem_of_find?_eq_some h), ?_⟩
  simpa using List.find?_some h

-- What an item owes to where it comes from.
structure Sourced (item : HoldLiveItem) : Prop where
  dash : '-' ∉ item.releaseId
  remote : ∀ root path, item.remote = some (root, path) → path ≠ []

omit [UnicodeTables] in
theorem toLower_ne_dash {c : Char} (h : isHexDigit c = true) : c.toLower ≠ '-' := by
  intro hdash
  have hhex := isHexDigit_toLower c
  rw [h, hdash] at hhex
  exact absurd hhex (by decide)

variable {titleDigest : Text → Text} {now : Int}

omit [UnicodeTables] in
theorem releaseId_dash (hdigest : ∀ title, '-' ∉ titleDigest title) {record : Json} {id : Text}
    (h : Arr.releaseIdFromQueueItem titleDigest record = some id) : '-' ∉ id := by
  unfold Arr.releaseIdFromQueueItem at h
  obtain ⟨protocol, -, h⟩ := Option.bind_eq_some_iff.mp h
  split_ifs at h with htorrent husenet
  · obtain ⟨download, -, h⟩ := Option.bind_eq_some_iff.mp h
    split_ifs at h with hbad
    cases h
    simp only [Arr.isHexText, not_or, Bool.not_eq_true, Bool.not_eq_false', List.all_eq_true]
      at hbad
    rw [Text.toAsciiLowercase, List.mem_map]
    rintro ⟨c, hc, hlower⟩
    exact toLower_ne_dash (hbad.2 c hc) hlower
  · obtain ⟨title, -, h⟩ := Option.bind_eq_some_iff.mp h
    split_ifs at h with hbad
    cases h
    exact hdigest title

theorem record_item (hdigest : ∀ title, '-' ∉ titleDigest title) {record : Json}
    {item : HoldLiveItem} (h : Arr.holdItemFromRecord titleDigest now record = some item) :
    '-' ∉ item.releaseId ∧ item.remote = none := by
  unfold Arr.holdItemFromRecord at h
  obtain ⟨state, -, h⟩ := Option.bind_eq_some_iff.mp h
  split_ifs at h with hblocked
  obtain ⟨titleId, -, h⟩ := Option.bind_eq_some_iff.mp h
  obtain ⟨releaseId, hrelease, h⟩ := Option.bind_eq_some_iff.mp h
  cases h
  exact ⟨releaseId_dash hdigest hrelease, rfl⟩

theorem queue_item (hdigest : ∀ title, '-' ∉ titleDigest title) {queue : Json}
    {item : HoldLiveItem} (h : item ∈ Arr.holdItemsFromQueue titleDigest now queue) :
    '-' ∉ item.releaseId ∧ item.remote = none := by
  unfold Arr.holdItemsFromQueue at h
  split at h
  · obtain ⟨record, -, hrecord⟩ := List.mem_filterMap.mp h
    exact record_item hdigest hrecord
  · cases h

omit [UnicodeTables] in
theorem relPath_ne_nil (remote : RemoteRef) : remote.relPath ≠ [] := by
  obtain ⟨rootId, relPath, valid⟩ := remote
  rintro rfl
  unfold RemoteRef.check at valid
  split_ifs at valid with hroot hrel
  simp at hrel

theorem holdList_sourced (hdigest : ∀ title, '-' ∉ titleDigest title) {host : Seedbox.Host}
    {allowlist : Walker.Allowlist} {queues : List Json} {item : HoldLiveItem}
    (h : item ∈ Seedbox.holdList host allowlist titleDigest now queues) : Sourced item := by
  obtain ⟨listed, hlisted, rfl⟩ := List.mem_map.mp h
  obtain ⟨queue, -, hqueue⟩ := List.mem_flatMap.mp hlisted
  obtain ⟨hdash, hnone⟩ := queue_item hdigest hqueue
  unfold Seedbox.attachRemoteFromOutputPath
  rw [if_neg (by simp [hnone])]
  split
  · next remote _ =>
      refine ⟨hdash, fun root path hremote => ?_⟩
      cases hremote
      exact relPath_ne_nil remote
  · refine ⟨hdash, fun root path hremote => ?_⟩
    rw [hnone] at hremote
    cases hremote

-- A Hold under the name of an item is about the item's title and release.
theorem identity_of_name {spec : HoldSpec} {item : HoldLiveItem} (hitem : Sourced item)
    (h : validateSpec item.name (.Hold spec) = .ok ()) :
    spec.titleId = item.titleId.render ∧ spec.releaseId = item.releaseId := by
  obtain ⟨id, hid, h₁⟩ := Checks.bind_ok h
  have hparse := Checks.mapError_ok hid
  obtain ⟨hbad, -⟩ := Checks.ite_ok h₁
  push Not at hbad
  obtain ⟨-, hname⟩ := hbad
  have hsplit : item.titleId.render ++ '-' :: item.releaseId =
      spec.titleId ++ '-' :: spec.releaseId := by
    simpa [HoldLiveItem.name] using hname
  rcases List.append_eq_append_iff.mp hsplit with ⟨cut, htitle, hrest⟩ | ⟨cut, htitle, hrest⟩
  · cases cut with
    | nil =>
        simp only [List.append_nil, List.nil_append, List.cons.injEq, true_and] at htitle hrest
        exact ⟨htitle, hrest.symm⟩
    | cons c cut =>
        obtain ⟨rfl, hrelease⟩ := List.cons.inj hrest
        exact absurd (by rw [hrelease]; simp) hitem.dash
  · cases cut with
    | nil =>
        simp only [List.append_nil, List.nil_append, List.cons.injEq, true_and] at htitle hrest
        exact ⟨htitle.symm, hrest⟩
    | cons c cut =>
        obtain ⟨rfl, -⟩ := List.cons.inj hrest
        exact (TitleId.render_cut hparse htitle).elim

-- What the object that is published for an item keeps of the one before it.
def rejectionOf : Option HomeObject → Bool
  | some before =>
      match before.status with
      | .Hold status => status.rejectionObserved
      | _ => false
  | none => false

def publishedStatus (batch : Batch) (before : Option HomeObject) (item : HoldLiveItem) :
    HoldStatus :=
  { batch.holdStatus item with rejectionObserved := rejectionOf before }

def publishedSpec (before : Option HomeObject) (item : HoldLiveItem) : Spec :=
  match before with
  | some obj => obj.spec
  | none => .Hold {
      titleId := item.titleId.render, releaseId := item.releaseId, decision := .Empty }

structure HoldOf (batch : Batch) (before : Option HomeObject) (item : HoldLiveItem)
    (obj : HomeObject) : Prop where
  spec : obj.spec = publishedSpec before item
  status : obj.status = .Hold (publishedStatus batch before item)
  title : ∃ spec, obj.spec = .Hold spec ∧ spec.titleId = item.titleId.render

-- The Holds of the store once the items in front have been published.
structure Folded (batch : Batch) (s₀ s : Store) (done : List HoldLiveItem) : Prop where
  untouched : ∀ name, lastNamed done name = none → s.get .Hold name = s₀.get .Hold name
  published : ∀ name item, lastNamed done name = some item →
    ∃ obj, s.get .Hold name = some obj ∧ HoldOf batch (s₀.get .Hold name) item obj

def SameHolds (s s' : Store) : Prop := ∀ name, s'.get .Hold name = s.get .Hold name

omit [UnicodeTables] in
theorem sameHolds_write {s₀ s : Store} (h : SameHolds s₀ s) {ev : StoreEvent}
    (hkind : ev.object.kind ≠ .Hold) : SameHolds s₀ (s.write ev) := by
  intro name
  rw [← h name]
  exact Store.get_write_of_ne fun hkey => hkind (congrArg Prod.fst hkey)

theorem Folded.frame {batch : Batch} {s₀ s s' : Store} {done : List HoldLiveItem}
    (h : Folded batch s₀ s done) (hsame : SameHolds s s') : Folded batch s₀ s' done where
  untouched name hname := (hsame name).trans (h.untouched name hname)
  published name item hitem := by
    obtain ⟨obj, hget, hof⟩ := h.published name item hitem
    exact ⟨obj, (hsame name).trans hget, hof⟩

theorem Folded.start {batch : Batch} {s₀ s : Store} (h : SameHolds s₀ s) :
    Folded batch s₀ s [] where
  untouched name _ := h name
  published name item hitem := by cases hitem

theorem keepRejection_eq (batch : Batch) (before : HomeObject) (item : HoldLiveItem) :
    Batch.keepRejection before.status (batch.holdStatus item) =
      publishedStatus batch (some before) item := by
  simp only [Batch.keepRejection, publishedStatus, rejectionOf]
  cases before.status <;> rfl

omit [UnicodeTables] in
theorem specOf_hold {obj : HomeObject} (h : obj.Agrees) (hkind : obj.kind = .Hold) :
    ∃ spec, obj.spec = .Hold spec := by
  have hspec : obj.spec.kind = .Hold := h.1.trans hkind
  cases hbody : obj.spec with
  | Hold spec => exact ⟨spec, rfl⟩
  | _ => simp [hbody, Spec.kind] at hspec

-- One item published: the Hold of its name is the item's, every other Hold is
-- what it was.
theorem hold_served {trace : List Store} {s s' : Store} {env : Env} {batch : Batch}
    {item : HoldLiveItem} (h : Api.Settled trace s) (hitem : Sourced item)
    (hres : Serve.serve env s s .Inventory (batch.holdRequest item (s.get .Hold item.name)) =
      (.ok (), s')) :
    ∃ obj, s'.get .Hold item.name = some obj ∧
      HoldOf batch (s.get .Hold item.name) item obj ∧
      ∀ name, name ≠ item.name → s'.get .Hold name = s.get .Hold name := by
  have hother : ∀ ev : StoreEvent, ev.object.key = (.Hold, item.name) → ∀ name,
      name ≠ item.name → (s.write ev).get .Hold name = s.get .Hold name := by
    intro ev hkey name hne
    refine Store.get_write_of_ne fun hsame => hne ?_
    rw [hkey] at hsame
    exact (congrArg Prod.snd hsame).symm
  have hself : ∀ ev : StoreEvent, ev.watch ≠ .Deleted → ev.object.key = (.Hold, item.name) →
      (s.write ev).get .Hold item.name = some ev.object := by
    intro ev hwatch hkey
    obtain ⟨hkind, hname⟩ := Prod.mk.inj hkey
    rw [← hkind, ← hname]
    exact Store.get_write_self hwatch
  cases hget : s.get .Hold item.name with
  | none =>
      rw [hget] at hres
      obtain ⟨hvalid, ⟨old, hold, -⟩ | ⟨-, rfl⟩⟩ := Api.apply_served h.sound hres
      · exact absurd (hget.symm.trans hold) nofun
      · exact ⟨_, hself _ nofun rfl, ⟨rfl, rfl, _, rfl, rfl⟩, hother _ rfl⟩
  | some before =>
      rw [hget] at hres
      have hkey := Store.get_key hget
      obtain ⟨hkind, hname⟩ := Prod.mk.inj hkey
      have hfound : s.get before.kind before.metadata.name = some before := by
        rw [hkind, hname]
        exact hget
      have hvalid := Api.patch_valid hres hfound
      obtain ⟨old, hold, -, rfl⟩ := Api.patch_served h.typed hres
      obtain rfl := Option.some.inj (hfound.symm.trans hold)
      obtain ⟨spec, hspec⟩ := specOf_hold hvalid.agrees hkind
      have hidentity := hvalid.spec
      rw [hspec, hname] at hidentity
      refine ⟨_, hself _ nofun hkey, ⟨rfl, ?_, spec, hspec, (identity_of_name hitem hidentity).1⟩,
        hother _ hkey⟩
      exact congrArg StatusBody.Hold (keepRejection_eq batch before item)

theorem Folded.step {trace : List Store} {s₀ s s' : Store} {env : Env} {batch : Batch}
    {done : List HoldLiveItem} {item : HoldLiveItem} (h : Api.Settled trace s)
    (hdone : Folded batch s₀ s done) (hitem : Sourced item)
    (hres : Serve.serve env s s .Inventory (batch.holdRequest item (s.get .Hold item.name)) =
      (.ok (), s')) : Folded batch s₀ s' (done ++ [item]) := by
  obtain ⟨obj, hget, hof, hother⟩ := hold_served h hitem hres
  constructor
  · intro name hname
    rw [lastNamed_append] at hname
    split_ifs at hname with hsame
    rw [hother name (Ne.symm hsame)]
    exact hdone.untouched name hname
  · intro name last hlast
    rw [lastNamed_append] at hlast
    split_ifs at hlast with hsame
    · cases hlast
      obtain rfl := hsame
      refine ⟨obj, hget, ?_⟩
      cases hprev : lastNamed done item.name with
      | none => rwa [hdone.untouched _ hprev] at hof
      | some prev =>
          -- The name was published before; its flag and its spec are those of the
          -- first Hold under it.
          obtain ⟨before, hbefore, hbeforeOf⟩ := hdone.published _ prev hprev
          rw [hbefore] at hof
          refine ⟨?_, ?_, hof.title⟩
          · have hspec : obj.spec = publishedSpec (s₀.get .Hold item.name) prev :=
              hof.spec.trans hbeforeOf.spec
            cases hfirst : s₀.get .Hold item.name with
            | some first => rwa [hfirst] at hspec
            | none =>
                rw [hfirst] at hspec
                obtain ⟨spec, hbody, htitle⟩ := hof.title
                obtain ⟨-, hname⟩ := lastNamed_some hprev
                rw [hspec] at hbody
                cases hbody
                have htitle : prev.titleId.render = item.titleId.render := htitle
                have hrelease : prev.releaseId = item.releaseId := by
                  rw [HoldLiveItem.name, HoldLiveItem.name, htitle] at hname
                  exact List.append_cancel_left hname
                rw [hspec, publishedSpec, publishedSpec, htitle, hrelease]
          · rw [hof.status]
            simp only [publishedStatus, rejectionOf, hbeforeOf.status]
    · obtain ⟨found, hfound, hfoundOf⟩ := hdone.published name last hlast
      exact ⟨found, (hother name (Ne.symm hsame)).trans hfound, hfoundOf⟩

-- The worker alone with the store, from one call to the next, until the scan ends.
def Works (before after : Phase × Store) : Prop :=
  before.1 ≠ .Idle ∧ ∃ env, next env before.2 before.1 = after

def batchOf (scan : Scan) (previous : Int) (cluster : ClusterSpec) (existing : List HomeObject)
    (s : Store) : Batch :=
  { scan, cluster, existing
    generation := nextGeneration existing (s.list (some .Hold)) previous }

-- `publish_inventory` from the read of the Holds to its commit.
def Publishes (scan : Scan) (previous : Int) (cluster : ClusterSpec) (existing : List HomeObject)
    (s s' : Store) : Prop :=
  Relation.ReflTransGen Works (.Listed scan previous cluster existing, s)
    (.Committed (batchOf scan previous cluster existing s), s')

-- How far the Holds are published at each point of the run.
def Folding (scan : Scan) (previous : Int) (cluster : ClusterSpec) (existing : List HomeObject)
    (s₀ s : Store) (phase : Phase) : Prop :=
  let batch := batchOf scan previous cluster existing s₀
  match phase with
  | .Idle => True
  | .Listed scan' previous' cluster' existing' =>
      (scan', previous', cluster', existing') = (scan, previous, cluster, existing) ∧ s = s₀
  | .Publishing batch' _ | .Deleting batch' _ | .Dropping batch' _ _ _ =>
      batch' = batch ∧ SameHolds s₀ s
  | .Holding batch' pending => batch' = batch ∧
      ∃ done, scan.holds = done ++ pending ∧ Folded batch s₀ s done
  | .Sending batch' request pending => batch' = batch ∧
      ∃ done item, scan.holds = done ++ item :: pending ∧ Folded batch s₀ s done ∧
        request = batch.holdRequest item (s.get .Hold item.name)
  | .Fetching batch' _ | .Committed batch' => batch' = batch ∧ Folded batch s₀ s scan.holds
  | .Committing batch' node _ => batch' = batch ∧ Folded batch s₀ s scan.holds ∧
      node.kind = .Node
  | _ => False

section Run

variable {scan : Scan} {previous : Int} {cluster : ClusterSpec} {existing : List HomeObject}
variable {s₀ s : Store} {trace : List Store} (h : Api.Settled trace s)

-- A call either ends the scan or went through.
theorem folding_call {env : Env} {request : Serve.Request} {phase : Phase}
    (hserved : ∀ s', Serve.serve env s s .Inventory request = (.ok (), s') →
      Folding scan previous cluster existing s₀ s' phase) :
    Folding scan previous cluster existing s₀ (call env s request phase).2
      (call env s request phase).1 := by
  unfold call
  split
  · next hres => exact hserved _ hres
  · trivial

include h

theorem folding_commit {env : Env} {node : HomeObject} {attempt : Nat}
    (hdone : Folding scan previous cluster existing s₀ s
      (.Committing (batchOf scan previous cluster existing s₀) node attempt)) :
    Folding scan previous cluster existing s₀
      (commit env s (batchOf scan previous cluster existing s₀) node attempt).2
      (commit env s (batchOf scan previous cluster existing s₀) node attempt).1 := by
  obtain ⟨-, hfolded, hkind⟩ := hdone
  have hnode : ((batchOf scan previous cluster existing s₀).committed env.now node).kind =
      .Node := by
    unfold Batch.committed
    split <;> exact hkind
  unfold commit
  split
  · trivial
  split
  · next hres =>
      obtain ⟨old, hold, -, rfl⟩ := Api.patch_served h.typed hres
      refine ⟨rfl, hfolded.frame (sameHolds_write (fun _ => rfl) ?_)⟩
      have hkey : old.kind = .Node := (congrArg Prod.fst (Store.get_key hold)).trans hnode
      simp [Api.rewritten, hkey]
  · next hres =>
      obtain rfl := Api.patch_refused hres
      split
      · exact ⟨rfl, hfolded⟩
      · trivial
  · trivial

theorem folding_next (env : Env) {phase : Phase} (hitems : ∀ item ∈ scan.holds, Sourced item)
    (hphase : phase ≠ .Idle) (hdone : Folding scan previous cluster existing s₀ s phase) :
    Folding scan previous cluster existing s₀ (next env s phase).2 (next env s phase).1 := by
  cases phase with
  | Idle => exact absurd rfl hphase
  | Listed scan' previous' cluster' existing' =>
      obtain ⟨hsame, rfl⟩ := hdone
      cases hsame
      simp only [next]
      split
      · trivial
      · exact ⟨rfl, fun _ => rfl⟩
  | Publishing batch' pending =>
      obtain ⟨rfl, hsame⟩ := hdone
      cases pending with
      | nil => exact ⟨rfl, hsame⟩
      | cons entry rest =>
          simp only [next]
          split
          · refine folding_call fun s' hres => ⟨rfl, ?_⟩
            have hkind : ((batchOf scan previous cluster existing s₀).row entry).kind ≠ .Hold := by
              have hrow : ((batchOf scan previous cluster existing s₀).row entry).kind =
                  .RemoteFile := congrArg Prod.fst (Batch.row_key _ entry)
              rw [hrow]
              exact Kind.noConfusion
            obtain ⟨-, ⟨old, -, -, rfl⟩ | ⟨-, rfl⟩⟩ := Api.apply_served h.sound hres
            · exact sameHolds_write hsame hkind
            · exact sameHolds_write hsame hkind
          · exact ⟨rfl, hsame⟩
  | Deleting batch' pending =>
      obtain ⟨rfl, hsame⟩ := hdone
      cases pending with
      | nil => exact ⟨rfl, [], rfl, .start hsame⟩
      | cons old rest =>
          simp only [next]
          split
          · trivial
          · exact ⟨rfl, hsame⟩
  | Dropping batch' name rv pending =>
      obtain ⟨rfl, hsame⟩ := hdone
      refine folding_call fun s' hres => ⟨rfl, ?_⟩
      obtain ⟨old, hold, -, rfl⟩ := Api.delete_served h.typed hres
      have hkind : old.kind = .RemoteFile := congrArg Prod.fst (Store.get_key hold)
      exact sameHolds_write hsame (by simp [Api.rewritten, hkind])
  | Holding batch' pending =>
      obtain ⟨rfl, done, hitems', hfolded⟩ := hdone
      cases pending with
      | nil => exact ⟨rfl, by rwa [hitems', List.append_nil]⟩
      | cons item rest => exact ⟨rfl, done, item, hitems', hfolded, rfl⟩
  | Sending batch' request pending =>
      obtain ⟨rfl, done, item, hsplit, hfolded, rfl⟩ := hdone
      refine folding_call fun s' hres => ⟨rfl, done ++ [item], by simp [hsplit], ?_⟩
      exact hfolded.step h (hitems item (by simp [hsplit])) hres
  | Fetching batch' attempt =>
      obtain ⟨rfl, hfolded⟩ := hdone
      simp only [next]
      split
      · trivial
      · next node hget => exact ⟨rfl, hfolded, congrArg Prod.fst (Store.get_key hget)⟩
  | Committing batch' node attempt =>
      obtain ⟨rfl, -, -⟩ := id hdone
      exact folding_commit h hdone
  | Committed batch' => trivial
  | _ => exact hdone.elim

end Run

theorem folding_reach {scan : Scan} {previous : Int} {cluster : ClusterSpec}
    {existing : List HomeObject} {s : Store} {past : List Store} (run : Api.Run (s :: past))
    (hitems : ∀ item ∈ scan.holds, Sourced item) {state : Phase × Store}
    (h : Relation.ReflTransGen Works (.Listed scan previous cluster existing, s) state) :
    (∃ past, Api.Run (state.2 :: past)) ∧
      Folding scan previous cluster existing s state.2 state.1 := by
  induction h with
  | refl => exact ⟨⟨past, run⟩, rfl, rfl⟩
  | tail _ hstep ih =>
      obtain ⟨⟨past, hrun⟩, hfolding⟩ := ih
      obtain ⟨hphase, env, rfl⟩ := hstep
      exact ⟨⟨_, .Next hrun (next_step env _ _ _)⟩,
        folding_next hrun.settled env hitems hphase hfolding⟩

def isCommitted : Phase → Bool
  | .Committed _ => true
  | _ => false

theorem publishes_of_committed {scan : Scan} {previous : Int} {cluster : ClusterSpec}
    {existing : List HomeObject} {s : Store} {past : List Store} (run : Api.Run (s :: past))
    (hitems : ∀ item ∈ scan.holds, Sourced item) {state : Phase × Store}
    (h : Relation.ReflTransGen Works (.Listed scan previous cluster existing, s) state)
    (hdone : isCommitted state.1 = true) :
    Publishes scan previous cluster existing s state.2 := by
  obtain ⟨-, hfolding⟩ := folding_reach run hitems h
  obtain ⟨phase, s'⟩ := state
  cases phase with
  | Committed batch =>
      obtain ⟨rfl, -⟩ := hfolding
      exact h
  | _ => cases hdone

-- Whether an item holds back a row of this title and file key.
def Covers (item : HoldLiveItem) (entry : RemoteEntry) (id : TitleId) (key : FileKey) : Prop :=
  item.remote = some (entry.rootId, entry.relPath) ∨
  (item.titleId = id ∧ item.remote = none ∧ item.placement = none) ∨
  ∃ placement, item.placement = some placement ∧
    holdIdentity item.titleId.render placement = some id ∧ placement.fileKey = key

-- The Holds that the listing of a generation was published with.
def holdsOf (s : Store) (generation : Int) : List HomeObject :=
  (s.list (some .Hold)).filter (holdAt generation)

theorem heldRemote_any (holds : List HomeObject) (remote : RemoteFileStatus) (titleId : Text) :
    heldRemote holds remote titleId = holds.any fun hold => heldRemote [hold] remote titleId := by
  simp [heldRemote]

theorem heldRemote_single {batch : Batch} {before : Option HomeObject} {item : HoldLiveItem}
    {obj : HomeObject} (hof : HoldOf batch before item obj) (hitem : Sourced item)
    {entry : RemoteEntry} {hint : Option TitleKind} {id : TitleId} {placement : Placement}
    (hparse : PathSchema.parseRemote hint entry.relPath = .ok (id, placement)) :
    heldRemote [obj] (batch.status entry) id.render = true ↔
      Covers item entry id placement.fileKey := by
  obtain ⟨spec, hspec, htitle⟩ := hof.title
  have hrender : ∀ other : TitleId, other.render = id.render ↔ other = id :=
    fun other => TitleId.render_injective.eq_iff
  have hremote : (item.remote.map Prod.fst).getD [] = entry.rootId ∧
      (item.remote.map Prod.snd).getD [] = entry.relPath ↔
        item.remote = some (entry.rootId, entry.relPath) := by
    cases hfound : item.remote with
    | some found => simp [Prod.ext_iff]
    | none =>
        have hne := relPath_ne_nil { rootId := entry.rootId, relPath := entry.relPath, valid := entry.valid }
        simp [Ne.symm hne]
  have hempty : (item.remote.map Prod.snd).getD [] = [] ↔ item.remote = none := by
    cases hfound : item.remote with
    | none => simp
    | some found =>
        simp only [Option.map_some, Option.getD_some, reduceCtorEq, iff_false]
        exact hitem.remote found.1 found.2 hfound
  simp only [heldRemote, List.any_cons, List.any_nil, Bool.or_false, hspec, hof.status,
    publishedStatus, Batch.holdStatus, htitle, Bool.or_eq_true, Bool.and_eq_true,
    decide_eq_true_eq]
  simp only [Batch.status, remoteStatus, hremote, hempty, hrender, or_assoc, and_assoc, Covers]
  refine or_congr_right (or_congr ?_ ?_)
  · simp
  · cases hasked : item.placement with
    | none => simp
    | some asked =>
        simp only [Option.any_some, Option.some.injEq, exists_eq_left']
        cases hidentity : holdIdentity item.titleId.render asked with
        | none => simp
        | some other =>
            simp only [Option.any_some, Bool.and_eq_true, decide_eq_true_eq, Option.some.injEq]
            -- A row is read the same way under the kind its own path gave it.
            constructor
            · rintro ⟨rfl, hfound⟩
              rw [PathSchema.parseRemote_kind hparse] at hfound
              exact ⟨rfl, (decide_eq_true_eq.mp hfound).symm⟩
            · rintro ⟨rfl, hkey⟩
              rw [PathSchema.parseRemote_kind hparse]
              exact ⟨rfl, decide_eq_true_eq.mpr hkey.symm⟩

section Published

variable {scan : Scan} {previous : Int} {cluster : ClusterSpec} {existing : List HomeObject}
variable {s s' : Store}

omit [UnicodeTables] in
theorem holdAt_older {name : Text} {obj : HomeObject} (h : s.get .Hold name = some obj) :
    holdAt (nextGeneration existing (s.list (some .Hold)) previous) obj = false := by
  have hkind : obj.kind = .Hold := congrArg Prod.fst (Store.get_key h)
  have hlisted : obj ∈ s.list (some .Hold) :=
    Api.mem_list.mpr ⟨Store.get_mem h, by simp [Store.ofKind, hkind]⟩
  unfold holdAt
  split
  · next status hstatus =>
      have hgeneration : generationOf obj = some status.listGeneration := by
        simp only [generationOf, hstatus]
      exact decide_eq_false (ne_of_lt
        (nextGeneration_gt (List.mem_append_right _ hlisted) hgeneration))
  · rfl

theorem holdAt_published {before : Option HomeObject} {item : HoldLiveItem} {obj : HomeObject}
    (hof : HoldOf (batchOf scan previous cluster existing s) before item obj) :
    holdAt (batchOf scan previous cluster existing s).generation obj = true := by
  simp [holdAt, hof.status, publishedStatus, Batch.holdStatus]

-- The Holds of the new generation are those of the last items.
theorem mem_holdsOf (hs : Store.Sound s')
    (h : Folded (batchOf scan previous cluster existing s) s s' scan.holds) {obj : HomeObject} :
    obj ∈ holdsOf s' (batchOf scan previous cluster existing s).generation ↔
      ∃ item, lastNamed scan.holds item.name = some item ∧ s'.get .Hold item.name = some obj := by
  unfold holdsOf
  rw [List.mem_filter, Api.mem_list]
  constructor
  · rintro ⟨⟨hmem, hkind⟩, hat⟩
    have hkind : obj.kind = .Hold := by simpa [Store.ofKind] using hkind
    have hget := hs.get_of_mem hmem
    rw [hkind] at hget
    cases hlast : lastNamed scan.holds obj.metadata.name with
    | none =>
        rw [h.untouched _ hlast] at hget
        rw [show (batchOf scan previous cluster existing s).generation =
          nextGeneration existing (s.list (some .Hold)) previous from rfl, holdAt_older hget] at hat
        cases hat
    | some item =>
        obtain ⟨-, hname⟩ := lastNamed_some hlast
        rw [← hname] at hlast hget
        exact ⟨item, hlast, hget⟩
  · rintro ⟨item, hlast, hget⟩
    obtain ⟨found, hfound, hof⟩ := h.published _ item hlast
    obtain rfl := Option.some.inj (hget.symm.trans hfound)
    have hkind : obj.kind = .Hold := congrArg Prod.fst (Store.get_key hget)
    exact ⟨⟨Store.get_mem hget, by simp [Store.ofKind, hkind]⟩, holdAt_published hof⟩

def holdContent (obj : HomeObject) : Spec × StatusBody := (obj.spec, obj.status)

theorem name_eq {item other : HoldLiveItem} (hitem : Sourced item) (hother : Sourced other)
    (h : item.name = other.name) :
    item.titleId.render = other.titleId.render ∧ item.releaseId = other.releaseId := by
  have hsplit := congrArg (Text.rsplitOnce '-') h
  have hname : ∀ item : HoldLiveItem, item.name =
      item.titleId.render ++ '-' :: item.releaseId := fun item => by simp [HoldLiveItem.name]
  rw [hname, hname, Text.rsplitOnce_append _ hitem.dash, Text.rsplitOnce_append _ hother.dash]
    at hsplit
  exact Prod.mk.inj (Option.some.inj hsplit)

theorem publishedStatus_inj {batch : Batch} {before : Option HomeObject}
    {item other : HoldLiveItem} :
    publishedStatus batch before item = publishedStatus batch before other ↔
      batch.holdStatus item = batch.holdStatus other := by
  simp [publishedStatus, Batch.holdStatus]

-- Two listings of one state end in the same Holds exactly when their last items
-- agree.
theorem content_eq {scan' : Scan} {s'' : Store}
    (hitems : ∀ item ∈ scan.holds, Sourced item) (hitems' : ∀ item ∈ scan'.holds, Sourced item)
    (h : Folded (batchOf scan previous cluster existing s) s s' scan.holds)
    (h' : Folded (batchOf scan' previous cluster existing s) s s'' scan'.holds) (name : Text) :
    (s'.get .Hold name).map holdContent = (s''.get .Hold name).map holdContent ↔
      (lastNamed scan.holds name).map (batchOf scan previous cluster existing s).holdStatus =
        (lastNamed scan'.holds name).map
          (batchOf scan' previous cluster existing s).holdStatus := by
  have hfresh : ∀ {batch : Batch} {item : HoldLiveItem} {obj : HomeObject},
      batch.generation = nextGeneration existing (s.list (some .Hold)) previous →
      HoldOf batch (s.get .Hold name) item obj →
      (s.get .Hold name).map holdContent ≠ some (holdContent obj) := by
    intro batch item obj hgeneration hof hsame
    obtain ⟨old, hold, hcontent⟩ := Option.map_eq_some_iff.mp hsame
    have hat : holdAt (nextGeneration existing (s.list (some .Hold)) previous) old = false :=
      holdAt_older hold
    have hstatus : old.status = obj.status := congrArg Prod.snd hcontent
    rw [holdAt, hstatus, hof.status] at hat
    simp [publishedStatus, Batch.holdStatus, hgeneration] at hat
  cases hlast : lastNamed scan.holds name with
  | none =>
      rw [h.untouched _ hlast]
      cases hlast' : lastNamed scan'.holds name with
      | none => simp [h'.untouched _ hlast']
      | some item' =>
          obtain ⟨obj', hget', hof'⟩ := h'.published _ item' hlast'
          rw [hget']
          simpa using hfresh rfl hof'
  | some item =>
      obtain ⟨obj, hget, hof⟩ := h.published _ item hlast
      rw [hget]
      cases hlast' : lastNamed scan'.holds name with
      | none =>
          rw [h'.untouched _ hlast']
          simpa using Ne.symm (hfresh rfl hof)
      | some item' =>
          obtain ⟨obj', hget', hof'⟩ := h'.published _ item' hlast'
          rw [hget']
          obtain ⟨hmem, hname⟩ := lastNamed_some hlast
          obtain ⟨hmem', hname'⟩ := lastNamed_some hlast'
          obtain ⟨htitle, hrelease⟩ := name_eq (hitems item hmem) (hitems' item' hmem')
            (hname.trans hname'.symm)
          have hspec : obj.spec = obj'.spec := by
            rw [hof.spec, hof'.spec]
            unfold publishedSpec
            rw [htitle, hrelease]
          have hbatch : ∀ item, (batchOf scan' previous cluster existing s).holdStatus item =
              (batchOf scan previous cluster existing s).holdStatus item := fun _ => rfl
          simp only [Option.map_some, Option.some.injEq, holdContent, Prod.mk.injEq, hspec,
            true_and, hof.status, hof'.status, StatusBody.Hold.injEq, hbatch]
          exact publishedStatus_inj

end Published

-- What an import-blocked item with a placement holds back of the listing it was
-- published with: a row of its title and file key is held exactly when the last item
-- of some name covers it. So is the order of the records: it shows in the Holds
-- exactly when it changes a last item.
theorem import_blocked_held {titleDigest : Text → Text} (hdigest : ∀ title, '-' ∉ titleDigest title)
    {now : Int} {queues : List Json} {host : Seedbox.Host} {allowlist : Walker.Allowlist}
    {scan : Scan} {previous : Int} {cluster : ClusterSpec} {existing : List HomeObject}
    {s s' : Store} {past : List Store} (run : Api.Run (s :: past))
    (hholds : scan.holds = Seedbox.holdList host allowlist titleDigest now queues)
    (hpublish : Publishes scan previous cluster existing s s') :
    (∀ item ∈ scan.holds, ∀ placement, item.placement = some placement →
      ∀ (entry : RemoteEntry) (id : TitleId) (found : Placement),
        PathSchema.parseRemote (rootKind cluster entry.rootId) entry.relPath = .ok (id, found) →
        placement.keyTitleId = .ok id → found.fileKey = placement.fileKey →
        let batch := batchOf scan previous cluster existing s
        let row := batch.status entry
        (heldRemote (holdsOf s' batch.generation) row row.titleId = true ↔
          ∃ last, lastNamed scan.holds last.name = some last ∧
            Covers last entry id placement.fileKey)) ∧
    ∀ (queues' : List Json) (scan' : Scan) (s'' : Store),
      scan'.holds = Seedbox.holdList host allowlist titleDigest now queues' →
      Publishes scan' previous cluster existing s s'' → ∀ name,
        ((s'.get .Hold name).map holdContent = (s''.get .Hold name).map holdContent ↔
          (lastNamed scan.holds name).map (batchOf scan previous cluster existing s).holdStatus =
            (lastNamed scan'.holds name).map
              (batchOf scan' previous cluster existing s).holdStatus) := by
  have hitems : ∀ item ∈ scan.holds, Sourced item := by
    intro item hitem
    rw [hholds] at hitem
    exact holdList_sourced hdigest hitem
  obtain ⟨⟨past', run'⟩, -, hfolded⟩ := folding_reach run hitems hpublish
  constructor
  · intro item hitem placement hplacement entry id found hparse hkey hsame batch row
    have htitle : row.titleId = id.render := by
      show (((PathSchema.parseRemote (rootKind cluster entry.rootId) entry.relPath).toOption.map
        fun parsed => parsed.1.render).getD []) = id.render
      rw [hparse]
      rfl
    rw [htitle, heldRemote_any, List.any_eq_true, ← hsame]
    constructor
    · rintro ⟨obj, hobj, hheld⟩
      obtain ⟨last, hlast, hget⟩ := (mem_holdsOf run'.settled.sound hfolded).mp hobj
      obtain ⟨stored, hstored, hof⟩ := hfolded.published _ last hlast
      obtain rfl := Option.some.inj (hget.symm.trans hstored)
      exact ⟨last, hlast,
        (heldRemote_single hof (hitems last (lastNamed_some hlast).1) hparse).mp hheld⟩
    · rintro ⟨last, hlast, hcovers⟩
      obtain ⟨stored, hstored, hof⟩ := hfolded.published _ last hlast
      exact ⟨stored, (mem_holdsOf run'.settled.sound hfolded).mpr ⟨last, hlast, hstored⟩,
        (heldRemote_single hof (hitems last (lastNamed_some hlast).1) hparse).mpr hcovers⟩
  · intro queues' scan' s'' hholds' hpublish' name
    have hitems' : ∀ item ∈ scan'.holds, Sourced item := by
      intro item hitem
      rw [hholds'] at hitem
      exact holdList_sourced hdigest hitem
    obtain ⟨-, -, hfolded'⟩ := folding_reach run hitems' hpublish'
    exact content_eq hitems hitems' hfolded hfolded' name

end

-- A season pack: two episodes of one download, import-blocked under one key.
namespace Sample

open Api.Sample

def said (raw : String) : Json := .String raw.toList

def record (episode : UInt64) : Json := .Object [
  ("trackedDownloadState", said "importBlocked"),
  ("protocol", said "torrent"),
  ("downloadId", said "AB12"),
  ("series", .Object [("tvdbId", .Number (.Unsigned 81189)), ("title", said "Show"),
    ("year", .Number (.Unsigned 2000))]),
  ("episode", .Object [("seasonNumber", .Number (.Unsigned 1)),
    ("episodeNumber", .Number (.Unsigned episode))])]

def queue : Json := .Object [("records", .Array [record 1, record 2])]

def allowlist : Walker.Allowlist where
  roots := []
  ids := by simp

def host : Seedbox.Host where
  cwd := none
  canonicalize path := some path
  original root := root.canonical

def titleDigest (_ : Text) : Text := "0a".toList

def first : RemoteEntry where
  rootId := "tv"
  relPath := "Show.(2000)/Season.01/Show.(2000).S01E01.mkv"
  len := 10
  valid := by decide

def shows : ClusterSpec :=
  { cluster with roots := [{ id := "tv", path := "/data/tv", kind := some .Series }] }

def placed (episode : Nat) : Placement := .Episode "Show" 2000 1 episode none none "mkv"

section

variable [UnicodeTables]

def home : Store :=
  (Serve.serve emptyLibrary .empty .empty .Cli
    (.Apply (.new .Cluster clusterName (.Cluster shows) (StatusBody.empty .Cluster)))).2

def begun : Store := (next emptyLibrary home .Idle).2

def packHolds : List HoldLiveItem := Seedbox.holdList host allowlist titleDigest 0 [queue]

def pack : Scan where
  start := tokenAt home
  entries := [first]
  holds := packHolds

def stepped : Nat → Phase × Store
  | 0 => (.Listed pack 0 shows [], begun)
  | count + 1 => next emptyLibrary (stepped count).2 (stepped count).1

def isIdle : Phase → Bool
  | .Idle => true
  | _ => false

theorem stepped_works : ∀ count, (∀ k < count, isIdle (stepped k).1 = false) →
    Relation.ReflTransGen Works (.Listed pack 0 shows [], begun) (stepped count) := by
  intro count
  induction count with
  | zero => exact fun _ => .refl
  | succ count ih =>
      intro h
      refine .tail (ih fun k hk => h k (by omega)) ⟨?_, emptyLibrary, rfl⟩
      intro hidle
      have hlast := h count (by omega)
      rw [hidle] at hlast
      cases hlast

theorem pack_holds : pack.holds = Seedbox.holdList host allowlist titleDigest 0 [queue] := rfl

omit [UnicodeTables] in
theorem digest_dash (title : Text) : '-' ∉ titleDigest title := by
  unfold titleDigest
  decide

theorem pack_sourced : ∀ item ∈ pack.holds, Sourced item :=
  fun _ hitem => holdList_sourced digest_dash hitem

theorem row_eq : (batchOf pack 0 shows [] begun).status first =
    remoteStatus shows (batchOf pack 0 shows [] begun).generation first := rfl

theorem begun_run : Api.Run [begun, home, .empty] :=
  .Next (.Next .Start (.Request emptyLibrary .empty List.mem_cons_self .Cli _))
    (next_step emptyLibrary home [.empty] .Idle)

end

def blocked (episode : Nat) : @HoldLiveItem UnicodeTables.ascii :=
  @HoldLiveItem.mk UnicodeTables.ascii
    (@TitleId.mk UnicodeTables.ascii .Series .Tvdb "81189" (by decide) (by decide) (by simp))
    "ab12" 0 0 [] none (some (placed episode)) none

def key : @TitleId UnicodeTables.ascii := PathSchema.Sample.series

theorem packHolds_eq : @packHolds UnicodeTables.ascii = [blocked 1, blocked 2] := by decide +kernel

theorem first_parsed : @PathSchema.parseRemote UnicodeTables.ascii (rootKind shows first.rootId)
    first.relPath = .ok (key, placed 1) := by decide +kernel

theorem placed_key : @Placement.keyTitleId UnicodeTables.ascii (placed 1) = .ok key := by
  decide +kernel

-- The publication is committed after eleven passes, and nothing then holds the file.
theorem stepped_commits : (∀ k < 11, @isIdle UnicodeTables.ascii (@stepped UnicodeTables.ascii k).1 = false) ∧
    @isCommitted UnicodeTables.ascii (@stepped UnicodeTables.ascii 11).1 = true ∧
    @heldRemote UnicodeTables.ascii (holdsOf (@stepped UnicodeTables.ascii 11).2 1)
      (@remoteStatus UnicodeTables.ascii shows 1 first) (@TitleId.render UnicodeTables.ascii key) =
        false := by
  decide +kernel

theorem published : @Publishes UnicodeTables.ascii (@pack UnicodeTables.ascii) 0 shows []
    (@begun UnicodeTables.ascii) (@stepped UnicodeTables.ascii 11).2 := by
  let := UnicodeTables.ascii
  obtain ⟨hopen, hdone, -⟩ := stepped_commits
  exact publishes_of_committed begun_run pack_sourced (stepped_works 11 hopen) hdone

end Sample

theorem import_blocked_held_pack :
    let := UnicodeTables.ascii
    (∀ item ∈ Sample.packHolds, ∀ placement, item.placement = some placement →
      ∀ (entry : RemoteEntry) (id : TitleId) (found : Placement),
        PathSchema.parseRemote (rootKind Sample.shows entry.rootId) entry.relPath =
          .ok (id, found) →
        placement.keyTitleId = .ok id → found.fileKey = placement.fileKey →
        let batch := batchOf Sample.pack 0 Sample.shows [] Sample.begun
        let row := batch.status entry
        (heldRemote (holdsOf (Sample.stepped 11).2 batch.generation) row row.titleId = true ↔
          ∃ last, lastNamed Sample.packHolds last.name = some last ∧
            Covers last entry id placement.fileKey)) ∧
    ∀ (queues' : List Json) (scan' : Scan) (s'' : Store),
      scan'.holds = Seedbox.holdList Sample.host Sample.allowlist Sample.titleDigest 0 queues' →
      Publishes scan' 0 Sample.shows [] Sample.begun s'' → ∀ name,
        (((Sample.stepped 11).2.get .Hold name).map holdContent =
            (s''.get .Hold name).map holdContent ↔
          (lastNamed Sample.packHolds name).map
              (batchOf Sample.pack 0 Sample.shows [] Sample.begun).holdStatus =
            (lastNamed scan'.holds name).map
              (batchOf scan' 0 Sample.shows [] Sample.begun).holdStatus) := by
  intro _
  exact import_blocked_held Sample.digest_dash Sample.begun_run Sample.pack_holds Sample.published

-- The Hold of the first episode is overwritten by that of the second, and nothing
-- holds the first episode's file back.
theorem season_pack_loses :
    let := UnicodeTables.ascii
    ¬ ∀ (titleDigest : Text → Text) (now : Int) (queues : List Json) (host : Seedbox.Host)
      (allowlist : Walker.Allowlist) (scan : Scan) (previous : Int) (cluster : ClusterSpec)
      (existing : List HomeObject) (s s' : Store) (past : List Store),
      (∀ title, '-' ∉ titleDigest title) → Api.Run (s :: past) →
      scan.holds = Seedbox.holdList host allowlist titleDigest now queues →
      Publishes scan previous cluster existing s s' →
      ∀ item ∈ scan.holds, ∀ placement, item.placement = some placement →
      ∀ (entry : RemoteEntry) (id : TitleId) (found : Placement), entry ∈ scan.entries →
        PathSchema.parseRemote (rootKind cluster entry.rootId) entry.relPath = .ok (id, found) →
        placement.keyTitleId = .ok id → found.fileKey = placement.fileKey →
        let batch := batchOf scan previous cluster existing s
        heldRemote (holdsOf s' batch.generation) (batch.status entry) id.render = true := by
  intro _ h
  have hfirst : Sample.blocked 1 ∈ Sample.pack.holds := by
    have hmem : Sample.blocked 1 ∈ Sample.packHolds := by
      rw [Sample.packHolds_eq]
      exact List.mem_cons_self
    exact hmem
  have hheld := h Sample.titleDigest 0 [Sample.queue] Sample.host Sample.allowlist Sample.pack 0
    Sample.shows [] Sample.begun (Sample.stepped 11).2 _ Sample.digest_dash Sample.begun_run
    Sample.pack_holds Sample.published (Sample.blocked 1) hfirst (Sample.placed 1) rfl Sample.first
    Sample.key (Sample.placed 1) List.mem_cons_self Sample.first_parsed Sample.placed_key rfl
  have hgeneration : (batchOf Sample.pack 0 Sample.shows [] Sample.begun).generation = 1 := by
    decide +kernel
  dsimp only at hheld
  rw [Sample.row_eq, hgeneration, Sample.stepped_commits.2.2] at hheld
  cases hheld

end Mediaops.Inventory
