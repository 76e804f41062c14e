import Mediaops.Core.Home
import Mediaops.Arr.Inbox.Unmonitor

namespace Mediaops.Inventory

-- What an inventory does after a listing that went through: titles that have arrived are
-- left unmonitored, as far as that goes.

open Arr (ControlError Keys)
open Arr.Inbox (Net Sites enlist wantedOf unmonitored monitoredKey Intact mediaApps)

section Definitions

variable [UnicodeTables]

-- `regular` says of a path under the library root whether a regular file is there.
def localRegularFile (regular : Text → Bool) (rel : Text) : Bool := rel ≠ [] && regular rel

local instance : LawfulBEq TitleId := inferInstance

def isEligible (regular : Text → Bool) (wantedMissing : List TitleId) (titleId : TitleId)
    (status : TitleStatus) : Bool :=
  match titleId.kind with
  | .Series => false
  | .Movie | .Album =>
      let files := status.observedFiles
      !(files.isEmpty || titleId ∉ wantedMissing) &&
        files.any fun file => !file.drifted && localRegularFile regular file.path

def eligibleTitle (regular : Text → Bool) (wantedMissing : List TitleId) (object : HomeObject) :
    Option TitleId :=
  match object.spec, object.status with
  | .Title spec, .Title status =>
      match TitleId.parse spec.titleId with
      | .error _ => none
      | .ok titleId => if isEligible regular wantedMissing titleId status then some titleId else none
  | _, _ => none

def eligibleTitleIds (regular : Text → Bool) (titles : List HomeObject) (wantedMissing : List TitleId) :
    List TitleId :=
  (titles.filterMap (eligibleTitle regular wantedMissing)).foldl enlist []

def timedOut : ControlError := .Runtime "control timed out".toList

def unmonitorEach (keys : Keys) : List TitleId → Prog Net ControlError Unit
  | [] => pure ()
  | titleId :: rest => do
      let _ ← (Remote.timed timedOut (Arr.Inbox.unmonitor keys titleId)).attempt
      unmonitorEach keys rest

-- `titles` is what the list of the titles comes to, if it comes.
def afterSuccessfulListing (regular : Text → Bool) (grabber : Grabber) (titles : Option (List HomeObject))
    (keys : Keys) : Prog Net ControlError Unit :=
  match grabber with
  | .None => pure ()
  | .Servarr => do
      match ← (Remote.timed timedOut (Arr.Inbox.wantedMissing keys)).attempt with
      | .error _ => pure ()
      | .ok wanted =>
          match titles with
          | none => pure ()
          | some titles => unmonitorEach keys (eligibleTitleIds regular titles wanted)

end Definitions

section Eligible

variable [UnicodeTables] {regular : Text → Bool} {wanted fewer : List TitleId} {titles : List HomeObject}
  {titleId : TitleId}

-- Such a title has arrived, and it is not one of a series, which may still be running.
theorem isEligible_iff {status : TitleStatus} :
    isEligible regular wanted titleId status = true ↔ titleId.kind ≠ .Series ∧ titleId ∈ wanted ∧
      ∃ file ∈ status.observedFiles, file.drifted = false ∧ localRegularFile regular file.path = true := by
  have hfiles : (!(status.observedFiles.isEmpty || decide (titleId ∉ wanted)) &&
      status.observedFiles.any fun file => !file.drifted && localRegularFile regular file.path) = true ↔
      titleId ∈ wanted ∧
        ∃ file ∈ status.observedFiles, file.drifted = false ∧ localRegularFile regular file.path = true := by
    cases hnil : status.observedFiles <;> simp
  unfold isEligible
  cases hkind : titleId.kind with
  | Series => simp
  | Movie => simpa using hfiles
  | Album => simpa using hfiles

-- The Title an identity is eligible for.
theorem eligibleTitle_some {object : HomeObject}
    (h : eligibleTitle regular wanted object = some titleId) :
    ∃ spec status, object.spec = .Title spec ∧ object.status = .Title status ∧
      TitleId.parse spec.titleId = .ok titleId ∧ isEligible regular wanted titleId status = true := by
  unfold eligibleTitle at h
  split at h
  · next spec status hspec hstatus =>
    cases hparse : TitleId.parse spec.titleId with
    | error e =>
        rw [hparse] at h
        cases h
    | ok parsed =>
        rw [hparse] at h
        dsimp only at h
        split at h
        · next hfits =>
          cases h
          exact ⟨spec, status, hspec, hstatus, hparse, hfits⟩
        · cases h
  · cases h

-- Fewer wanted titles leave fewer of the same titles.
theorem eligibleTitle_fewer (h : fewer ⊆ wanted) (object : HomeObject) :
    eligibleTitle regular fewer object =
      (eligibleTitle regular wanted object).filter fun titleId => titleId ∈ fewer := by
  have hfits : ∀ titleId status, isEligible regular fewer titleId status =
      (isEligible regular wanted titleId status && decide (titleId ∈ fewer)) := by
    intro titleId status
    rw [Bool.eq_iff_iff, Bool.and_eq_true_iff, isEligible_iff, isEligible_iff, decide_eq_true_eq]
    constructor
    · rintro ⟨hkind, hmem, hfile⟩
      exact ⟨⟨hkind, h hmem, hfile⟩, hmem⟩
    · rintro ⟨⟨hkind, -, hfile⟩, hmem⟩
      exact ⟨hkind, hmem, hfile⟩
  unfold eligibleTitle
  split
  · next spec status hspec hstatus =>
    cases TitleId.parse spec.titleId with
    | error e => rfl
    | ok parsed =>
        dsimp only
        rw [hfits]
        cases isEligible regular wanted parsed status <;> by_cases hmem : parsed ∈ fewer <;>
          simp [hmem, Option.filter_some]
  · rfl

theorem eligibleTitleIds_fewer (h : fewer ⊆ wanted) :
    (eligibleTitleIds regular titles fewer).Sublist (eligibleTitleIds regular titles wanted) := by
  have hfilter : titles.filterMap (eligibleTitle regular fewer) =
      (titles.filterMap (eligibleTitle regular wanted)).filter fun titleId => titleId ∈ fewer := by
    rw [List.filter_filterMap]
    exact List.filterMap_congr fun object _ => eligibleTitle_fewer h object
  have hlisted := Arr.Inbox.foldl_enlist_filter (fun titleId => titleId ∈ fewer)
    (titles.filterMap (eligibleTitle regular wanted)) []
  rw [List.filter_nil, ← hfilter] at hlisted
  rw [eligibleTitleIds, hlisted]
  exact List.filter_sublist

theorem mem_eligibleTitleIds (h : titleId ∈ eligibleTitleIds regular titles wanted) :
    ∃ object ∈ titles, eligibleTitle regular wanted object = some titleId := by
  rcases Arr.Inbox.mem_foldl_enlist.mp h with hnil | hmem
  · cases hnil
  · exact List.mem_filterMap.mp hmem

end Eligible

section Listing

variable [UnicodeTables] (answered : Prop) (keys : Keys) (sites : Sites)

-- Some of the titles are done with, all of them if nothing went wrong.
def Partway (done titles : List TitleId) (net : Net) : Prop :=
  ∃ more : List TitleId, more.Sublist titles ∧ net.state = unmonitored keys sites (done ++ more)

variable {keys sites}

theorem Partway.skip {done titles : List TitleId} {titleId : TitleId} {net : Net}
    (h : Partway keys sites done titles net) : Partway keys sites done (titleId :: titles) net := by
  obtain ⟨more, hmore, hstate⟩ := h
  exact ⟨more, hmore.cons titleId, hstate⟩

theorem Partway.next {done titles : List TitleId} {titleId : TitleId} {net : Net}
    (h : Partway keys sites (done ++ [titleId]) titles net) :
    Partway keys sites done (titleId :: titles) net := by
  obtain ⟨more, hmore, hstate⟩ := h
  exact ⟨titleId :: more, hmore.cons_cons titleId, by rw [hstate, List.append_assoc, List.singleton_append]⟩

theorem partway_start {done titles : List TitleId} {net : Net}
    (h : net.state = unmonitored keys sites done) : Partway keys sites done titles net :=
  ⟨[], List.nil_sublist titles, by rw [List.append_nil, h]⟩

variable (keys sites)

-- The induction is on the titles that are left. A title that fails is passed over.
theorem runs_unmonitorEach (titles : List TitleId) :
    ∀ done : List TitleId, Runs (fun _ net => net) (Remote.prompt answered)
      (fun net : Net => net.state = unmonitored keys sites done) (unmonitorEach keys titles)
      (fun _ net => Partway keys sites done titles net ∧
        (Intact answered keys sites → net.state = unmonitored keys sites (done ++ titles)))
      (fun net => ¬Intact answered keys sites ∧ Partway keys sites done titles net) := by
  induction titles with
  | nil =>
      intro done
      exact runs_pure fun net hnet => ⟨partway_start hnet, fun _ => by rw [List.append_nil, hnet]⟩
  | cons titleId titles ih =>
      intro done
      let reached : Except ControlError Unit → Net → Prop := fun _ net =>
        net.state = unmonitored keys sites (done ++ [titleId]) ∨
          ¬Intact answered keys sites ∧ net.state = unmonitored keys sites done
      have hone : Runs (fun _ net => net) (Remote.prompt answered)
          (fun net : Net => net.state = unmonitored keys sites done)
          (Remote.timed timedOut (Arr.Inbox.unmonitor keys titleId)).attempt reached
          (fun net => ¬Intact answered keys sites ∧ Partway keys sites done (titleId :: titles) net) := by
        apply Runs.attempt
        apply (Remote.runs_timed timedOut (Arr.Inbox.served_unmonitor titleId)).mono (fun _ hnet => hnet)
        · intro _ net hnet
          exact .inl hnet
        · rintro net ⟨hbroken, hbefore | hafter⟩
          · exact ⟨⟨hbroken, partway_start hbefore⟩, fun _ => .inr ⟨hbroken, hbefore⟩⟩
          · exact ⟨⟨hbroken, (partway_start hafter).next⟩, fun _ => .inl hafter⟩
      rw [unmonitorEach]
      apply hone.bind
      intro result
      apply Runs.or
      · apply (ih (done ++ [titleId])).mono (fun _ hnet => hnet)
        · rintro _ net ⟨hpart, hall⟩
          refine ⟨hpart.next, fun hintact => ?_⟩
          rw [hall hintact, List.append_assoc, List.singleton_append]
        · rintro net ⟨hbroken, hpart⟩
          exact ⟨hbroken, hpart.next⟩
      · apply Runs.of_pre (fun _ hnet => hnet.1)
        intro hbroken
        apply (ih done).mono (fun _ hnet => hnet.2)
        · rintro _ net ⟨hpart, -⟩
          exact ⟨hpart.skip, fun hintact => absurd hintact hbroken⟩
        · rintro net ⟨-, hpart⟩
          exact ⟨hbroken, hpart.skip⟩

theorem runs_afterSuccessfulListing (regular : Text → Bool) (grabber : Grabber) (titles : Option (List HomeObject)) :
    let eligible :=
      eligibleTitleIds regular (titles.getD []) (wantedOf sites (mediaApps.filter keys))
    Runs (fun _ net => net) (Remote.prompt answered) (fun net : Net => net.state = sites)
      (afterSuccessfulListing regular grabber titles keys)
      (fun _ net => Partway keys sites [] eligible net ∧
        (grabber = .Servarr → Intact answered keys sites → net.state = unmonitored keys sites eligible))
      (fun net => ¬Intact answered keys sites ∧ Partway keys sites [] eligible net) := by
  intro eligible
  have hstart : ∀ net : Net, net.state = sites → Partway keys sites [] eligible net :=
    fun net hnet => partway_start (by rw [hnet, Arr.Inbox.unmonitored_nil])
  cases grabber with
  | None => exact runs_pure fun net hnet => ⟨hstart net hnet, fun h => (nomatch h)⟩
  | Servarr =>
      rw [afterSuccessfulListing]
      let asked : Except ControlError (List TitleId) → Net → Prop := fun result net =>
        net.state = sites ∧ match result with
          | .ok wanted => wanted ⊆ wantedOf sites (mediaApps.filter keys) ∧
              (Intact answered keys sites → wanted = wantedOf sites (mediaApps.filter keys))
          | .error _ => ¬Intact answered keys sites
      have hasked : Runs (fun _ net => net) (Remote.prompt answered)
          (fun net : Net => net.state = sites)
          (Remote.timed timedOut (Arr.Inbox.wantedMissing keys)).attempt asked
          (fun net => ¬Intact answered keys sites ∧ Partway keys sites [] eligible net) := by
        apply Runs.attempt
        apply (Remote.runs_timed timedOut (Arr.Inbox.served_wantedMissing answered keys sites)).mono (fun _ hnet => hnet)
        · rintro wanted net ⟨hstate, apps, happs, rfl, -, hall⟩
          refine ⟨hstate, fun titleId htitle => ?_, fun hintact => by rw [hall hintact.toListable]⟩
          obtain ⟨app, happ, hrecord⟩ := Arr.Inbox.mem_wantedOf.mp htitle
          exact Arr.Inbox.mem_wantedOf.mpr ⟨app, happs.subset happ, hrecord⟩
        · rintro net ⟨hlistable, hstate⟩
          have hbroken : ¬Intact answered keys sites := fun h => hlistable h.toListable
          exact ⟨⟨hbroken, hstart net hstate⟩, fun _ => ⟨hstate, hbroken⟩⟩
      apply hasked.bind
      intro result
      apply Runs.of_pre (fun _ hnet => hnet.2)
      intro hresult
      cases result with
      | error e =>
          exact runs_pure fun net hnet => ⟨hstart net hnet.1, fun _ hintact => absurd hintact hresult⟩
      | ok wanted =>
          obtain ⟨hsubset, hwanted⟩ := hresult
          cases titles with
          | none =>
              refine runs_pure fun net hnet => ⟨hstart net hnet.1, fun _ _ => ?_⟩
              have hnone : eligible = [] := rfl
              rw [hnone, Arr.Inbox.unmonitored_nil, hnet.1]
          | some titles =>
              have hfewer : (eligibleTitleIds regular titles wanted).Sublist eligible :=
                eligibleTitleIds_fewer hsubset
              have hpart : ∀ net, Partway keys sites [] (eligibleTitleIds regular titles wanted) net →
                  Partway keys sites [] eligible net :=
                fun net ⟨more, hmore, hstate⟩ => ⟨more, hmore.trans hfewer, hstate⟩
              apply (runs_unmonitorEach answered keys sites (eligibleTitleIds regular titles wanted) []).mono
              · intro net hnet
                rw [hnet.1, Arr.Inbox.unmonitored_nil]
              · intro _ net hnet
                refine ⟨hpart net hnet.1, fun _ hintact => ?_⟩
                rw [hnet.2 hintact, List.nil_append, hwanted hintact]
                rfl
              · exact fun net hnet => ⟨hnet.1, hpart net hnet.2⟩

-- Whatever an inventory makes of a listing, it changes nothing in the applications but
-- whether parents are monitored, and those only of titles that are missing there, are
-- no series and have arrived. Where nothing goes wrong, it is all of these.
theorem after_successful_listing (regular : Text → Bool) (grabber : Grabber)
    (titles : Option (List HomeObject)) (keys : Keys) (sites : Sites) (moves : Nat → Move Net)
    (hmoves : ∀ n, (moves n).outside = id) (turn : Nat) :
    let ran := afterSuccessfulListing regular grabber titles keys moves turn { state := sites }
    let wanted := wantedOf sites (mediaApps.filter keys)
    let eligible := eligibleTitleIds regular (titles.getD []) wanted
    (∃ done : List TitleId, done.Sublist eligible ∧ ran.world.state = unmonitored keys sites done) ∧
      (∀ app kind id, ((ran.world.state app).parent kind id).map (Json.without monitoredKey) =
        ((sites app).parent kind id).map (Json.without monitoredKey)) ∧
      (∀ titleId ∈ eligible, titleId.kind ≠ .Series ∧ titleId ∈ wanted ∧
        ∃ object ∈ titles.getD [], ∃ spec status, object.spec = .Title spec ∧
          object.status = .Title status ∧ TitleId.parse spec.titleId = .ok titleId ∧
          ∃ file ∈ status.observedFiles, file.drifted = false ∧
            localRegularFile regular file.path = true) ∧
      (grabber = .Servarr → Intact (∀ n, (moves n).fate = .Goes ∧ (moves n).pick = 0) keys sites →
        ran.outcome = .Done () ∧ ran.world.state = unmonitored keys sites eligible) := by
  intro ran wanted eligible
  have hpost := (runs_afterSuccessfulListing (∀ n, (moves n).fate = .Goes ∧ (moves n).pick = 0) keys
    sites regular grabber titles [] { state := sites } rfl moves turn
    fun n => ⟨⟨hmoves n, fun h => (h n).1⟩, fun h => (h n).2⟩).2
  have hpart : Partway keys sites [] eligible ran.world ∧
      (grabber = .Servarr → Intact (∀ n, (moves n).fate = .Goes ∧ (moves n).pick = 0) keys sites →
        ran.outcome = .Done () ∧ ran.world.state = unmonitored keys sites eligible) := by
    cases ho : ran.outcome with
    | Done _ =>
        rw [show (afterSuccessfulListing regular grabber titles keys moves turn
          { state := sites }).outcome = .Done () from ho] at hpost
        exact ⟨hpost.1, fun hgrabber hintact => ⟨rfl, hpost.2 hgrabber hintact⟩⟩
    | Failed e =>
        rw [show (afterSuccessfulListing regular grabber titles keys moves turn
          { state := sites }).outcome = .Failed e from ho] at hpost
        exact ⟨hpost.2, fun _ hintact => absurd hintact hpost.1⟩
    | Stopped =>
        rw [show (afterSuccessfulListing regular grabber titles keys moves turn
          { state := sites }).outcome = .Stopped from ho] at hpost
        exact ⟨hpost.2, fun _ hintact => absurd hintact hpost.1⟩
  obtain ⟨done, hdone, hstate⟩ := hpart.1
  refine ⟨⟨done, hdone, hstate⟩, fun app kind id => ?_, fun titleId htitle => ?_, hpart.2⟩
  · rw [hstate]
    exact Arr.Inbox.unmonitored_without app kind id
  obtain ⟨object, hobject, hsome⟩ := mem_eligibleTitleIds htitle
  obtain ⟨spec, status, hspec, hstatus, hparse, hfits⟩ := eligibleTitle_some hsome
  obtain ⟨hkind, hmem, hfile⟩ := isEligible_iff.mp hfits
  exact ⟨hkind, hmem, object, hobject, spec, status, hspec, hstatus, hparse, hfile⟩

end Listing

section Sample

def arrived : HomeObject :=
  .new .Title "movie:tmdb:603".toList (.Title { titleId := "movie:tmdb:603".toList })
    (.Title { files := [{ path := "The Matrix.mkv".toList, installB3 := ⟨_, hex_zeros⟩,
                          currentB3 := ⟨_, hex_zeros⟩ }] })

theorem intact_missingSites : @Intact UnicodeTables.ascii
    (∀ n, (Arr.Inbox.calm n).fate = .Goes ∧ (Arr.Inbox.calm n).pick = 0)
    Arr.Inbox.radarrKey Arr.Inbox.missingSites := by
  refine @Intact.mk UnicodeTables.ascii _ _ _ Arr.Inbox.listable_missingSites ?_
  intro titleId app kind id _
  cases app <;> rfl

theorem eligible_arrived : @eligibleTitleIds UnicodeTables.ascii (fun _ => true) [arrived]
    (@wantedOf UnicodeTables.ascii Arr.Inbox.missingSites (mediaApps.filter Arr.Inbox.radarrKey)) =
      [TitleId.Sample.matrix] := by decide +kernel

theorem after_successful_listing_arrived :
    let ran := @afterSuccessfulListing UnicodeTables.ascii (fun _ => true) .Servarr (some [arrived])
      Arr.Inbox.radarrKey Arr.Inbox.calm 0 { state := Arr.Inbox.missingSites }
    ran.outcome = .Done () ∧
      ((ran.world.state .Radarr).parent .Movie 7).bind (·.get monitoredKey) = some (.Bool false) ∧
      (ran.world.state .Sonarr).parent = (Arr.Inbox.missingSites .Sonarr).parent := by
  obtain ⟨hdone, hstate⟩ := (@after_successful_listing UnicodeTables.ascii (fun _ => true) .Servarr
    (some [arrived]) Arr.Inbox.radarrKey Arr.Inbox.missingSites Arr.Inbox.calm (fun _ => rfl) 0).2.2.2
    rfl intact_missingSites
  have hmonitored : ((@unmonitored UnicodeTables.ascii Arr.Inbox.radarrKey Arr.Inbox.missingSites
      [TitleId.Sample.matrix] .Radarr).parent .Movie 7).bind (·.get monitoredKey) =
        some (.Bool false) := by decide +kernel
  refine ⟨hdone, ?_, ?_⟩
  · rw [hstate, Option.getD_some, eligible_arrived]
    exact hmonitored
  · rw [hstate, Option.getD_some, eligible_arrived]
    rfl

end Sample

end Mediaops.Inventory
