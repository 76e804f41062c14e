import Mediaops.Arr.Inbox

namespace Mediaops.Arr.Inbox

-- What a listing comes to that is fetched page by page.

section Sites

variable {site : Site} {sites : Sites}

@[simp] theorem serve_page (app : App) (feed : Feed) (extra : Text) (page : Nat) :
    serve { app, method := .Get, target := .Page feed extra page } sites =
      ({ status := 200, body := some ((sites app).page feed page) }, sites) := by
  unfold serve Site.serve
  exact congrArg _ (Function.update_eq_self _ _)

-- The records of a listing are its page or all there are.
theorem batchOf_page (feed : Feed) (page : Nat) :
    batchOf (site.page feed page) =
      if site.style = .Bare then .Whole (site.listing feed)
      else Pages.paged PAGE_SIZE (site.listing feed) (site.counts feed) page := by
  unfold Site.page
  by_cases hbare : site.style = .Bare
  · rw [if_pos hbare, if_pos hbare]
    rfl
  · rw [if_neg hbare, if_neg hbare]
    by_cases hcounts : site.counts feed = true
    · have hshort : (site.listing feed).length < 2 ^ 64 := by
        unfold Site.counts at hcounts
        simpa using (Bool.and_eq_true_iff.mp hcounts).2
      have hlength : (UInt64.ofNat (site.listing feed).length).toNat = (site.listing feed).length :=
        UInt64.toNat_ofNat_of_lt hshort
      rw [if_pos hcounts, Pages.paged, if_pos hcounts]
      show Pages.Batch.Part (Pages.slice PAGE_SIZE (site.listing feed) page)
        (some (UInt64.ofNat (site.listing feed).length).toNat) = _
      rw [hlength]
    · rw [if_neg hcounts, Pages.paged, if_neg hcounts]
      rfl

@[simp] theorem pagedRecords_docOf (listing : Pages.Listing Json) :
    pagedRecords (docOf listing) = listing.records := by
  cases listing <;> rfl

end Sites

-- What comes back of a listing, if anything does.
def listed (site : Site) (feed : Feed) (found : List Json → Bool) : Option (List Json) :=
  if site.style = .Bare then some (site.listing feed)
  else
    ((List.range' 1 PAGE_LIMIT).find?
      (Pages.Stops PAGE_SIZE (site.listing feed) found (site.counts feed))).map fun last =>
        (site.listing feed).take (last * PAGE_SIZE)

theorem collect_site (site : Site) (feed : Feed) (found : List Json → Bool) :
    (Pages.collect PAGE_SIZE found (fun page => batchOf (site.page feed page)) PAGE_LIMIT 1 []
        none).map Pages.Listing.records = listed site feed found := by
  unfold listed
  by_cases hbare : site.style = .Bare
  · have hsource : (fun page => batchOf (site.page feed page)) = fun _ => .Whole (site.listing feed) := by
      funext page
      rw [batchOf_page, if_pos hbare]
    rw [if_pos hbare, hsource]
    rfl
  · have hsource : (fun page => batchOf (site.page feed page)) =
        Pages.paged PAGE_SIZE (site.listing feed) (site.counts feed) := by
      funext page
      rw [batchOf_page, if_neg hbare]
    have hpaged := Pages.collect_paged (site.listing feed) found (site.counts feed)
      (by decide : 0 < PAGE_SIZE) PAGE_LIMIT 0 none (.inl rfl)
    rw [Nat.zero_mul, List.take_zero] at hpaged
    rw [if_neg hbare, hsource, hpaged, Option.map_map]
    rfl

-- Without anything to look for, all of a listing comes back or nothing does.
theorem listed_all {site : Site} {feed : Feed} {records : List Json}
    (h : listed site feed (fun _ => false) = some records) : records = site.listing feed := by
  unfold listed at h
  by_cases hbare : site.style = .Bare
  · rw [if_pos hbare] at h
    cases h
    rfl
  · rw [if_neg hbare] at h
    obtain ⟨last, hlast, rfl⟩ := Option.map_eq_some_iff.mp h
    have hstops := List.find?_some hlast
    unfold Pages.Stops at hstops
    apply List.take_of_length_le
    by_cases hcounts : site.counts feed = true
    · simpa [hcounts] using hstops
    · have hlt : (site.listing feed).length < last * PAGE_SIZE := by simpa [hcounts] using hstops
      omega

-- And it does when it fits the pages there may be.
theorem listed_short {site : Site} {feed : Feed} (found : List Json → Bool)
    (h : (site.listing feed).length < PAGE_LIMIT * PAGE_SIZE) :
    (listed site feed found).isSome = true := by
  unfold listed
  by_cases hbare : site.style = .Bare
  · rw [if_pos hbare]
    rfl
  · rw [if_neg hbare, Option.isSome_map, List.find?_isSome]
    refine ⟨PAGE_LIMIT, List.mem_range'.mpr ⟨PAGE_LIMIT - 1, by decide, by decide⟩, ?_⟩
    unfold Pages.Stops
    rw [Bool.or_eq_true]
    right
    split
    · exact decide_eq_true (Nat.le_of_lt h)
    · exact decide_eq_true h

theorem listed_front {site : Site} {feed : Feed} {found : List Json → Bool} {records : List Json}
    (h : listed site feed found = some records) : records <+: site.listing feed := by
  unfold listed at h
  by_cases hbare : site.style = .Bare
  · rw [if_pos hbare] at h
    cases h
    exact List.prefix_refl _
  · rw [if_neg hbare] at h
    obtain ⟨last, -, rfl⟩ := Option.map_eq_some_iff.mp h
    exact List.take_prefix _ _

-- What is looked for is found in what comes back, if it is anywhere.
theorem listed_find {site : Site} {feed : Feed} {p : Json → Bool} {records : List Json}
    (h : listed site feed (fun batch => batch.any p) = some records) :
    records.find? p = (site.listing feed).find? p := by
  unfold listed at h
  by_cases hbare : site.style = .Bare
  · rw [if_pos hbare] at h
    cases h
    rfl
  · rw [if_neg hbare] at h
    obtain ⟨last, hlast, rfl⟩ := Option.map_eq_some_iff.mp h
    obtain ⟨i, -, hi⟩ := List.mem_range'.mp (List.mem_of_find?_eq_some hlast)
    exact Pages.find_take (by omega) (List.find?_some hlast)

section Rules

variable {answered : Prop} {P H : Net → Prop} {request : Request}

theorem served_json {A : Json → Net → Prop}
    (hgoes : ∀ net, P net →
      let answer := serve request net.state
      let after : Net := { state := answer.2, log := net.log ++ [(request, some answer.1)] }
      if 400 ≤ answer.1.status then H after else A (answer.1.body.getD .Null) after)
    (hfails : ¬answered → ∀ net, P net →
      H { net with log := net.log ++ [(request, none)] } ∧
        H { state := (serve request net.state).2, log := net.log ++ [(request, none)] }) :
    Remote.Served answered P (json request) A H := by
  apply (Remote.served_send (A := fun response net =>
    if 400 ≤ response.status then H net else A (response.body.getD .Null) net) hgoes hfails).bind
  intro response
  by_cases hstatus : 400 ≤ response.status
  · simp only [if_pos hstatus]
    exact runs_throw fun _ hnet => hnet
  · simp only [if_neg hstatus]
    exact runs_pure fun _ hnet => hnet

variable {app : App} {site : Site}

-- A page is read and nothing changes but the log.
theorem served_fetchPage {feed : Feed} {extra : Text} (hsite : ∀ net, P net → net.state app = site)
    (hget : ∀ net extra page answer, P net → P { net with
      log := net.log ++ [({ app, method := .Get, target := .Page feed extra page }, answer)] })
    (hH : ¬answered → ∀ net, P net → H net) (page : Nat) :
    Remote.Served answered P (fetchPage app feed extra page)
      (fun batch net => batch = batchOf (site.page feed page) ∧ P net) H := by
  have hread : Remote.Served answered P (json { app, method := .Get, target := .Page feed extra page })
      (fun value net => value = site.page feed page ∧ P net) H := by
    apply served_json
    · intro net hnet
      rw [serve_page]
      exact ⟨by rw [← hsite net hnet]; rfl, hget net _ _ _ hnet⟩
    · intro hnot net hnet
      rw [serve_page]
      have hafter := hH hnot _ (hget net extra page none hnet)
      exact ⟨hafter, hafter⟩
  apply hread.bind
  intro value
  exact runs_pure fun net hnet => ⟨by rw [hnet.1], hnet.2⟩

theorem served_pagedInner {feed : Feed} {extra : Text} {found : List Json → Bool}
    (hsite : ∀ net, P net → net.state app = site)
    (hget : ∀ net extra page answer, P net → P { net with
      log := net.log ++ [({ app, method := .Get, target := .Page feed extra page }, answer)] })
    (hH : (answered → listed site feed found = none) → ∀ net, P net → H net) :
    Remote.Served answered P (pagedInner app feed extra found)
      (fun doc net => listed site feed found = some (pagedRecords doc) ∧ P net) H := by
  have hfetch : ∀ page, Remote.Served answered P (fetchPage app feed extra page)
      (fun batch net => batch = batchOf (site.page feed page) ∧ P net) H :=
    served_fetchPage hsite hget fun hnot net hnet => hH (fun hall => absurd hall hnot) net hnet
  have hgather : Remote.Served answered P
      (Pages.gather PAGE_SIZE found (fetchPage app feed extra) (exceeded feed) PAGE_LIMIT 1 [] none)
      (fun listing net => Pages.collect PAGE_SIZE found (fun page => batchOf (site.page feed page))
        PAGE_LIMIT 1 [] none = some listing ∧ P net) H := by
    apply Pages.runs_gather hfetch
    intro hnone
    apply hH
    intro _
    rw [← collect_site, hnone]
    rfl
  apply hgather.bind
  intro listing
  refine runs_pure fun net hnet => ⟨?_, hnet.2⟩
  rw [← collect_site, hnet.1, pagedRecords_docOf]
  rfl

end Rules

def ReadOnly (app : App) (log : List (Request × Option Response)) : Prop :=
  ∀ entry ∈ log, entry.1.app = app ∧ entry.1.method = .Get

-- Of a listing that is fetched page by page a front comes back: all of it, if nothing is
-- looked for, and as far as the first record that is.
theorem paged_listing (sites : Sites) (app : App) (feed : Feed) (extra : Text)
    (found : List Json → Bool) (moves : Nat → Move Net) (hmoves : ∀ n, (moves n).outside = id)
    (turn : Nat) :
    let ran := pagedInner app feed extra found moves turn { state := sites }
    let items := (sites app).listing feed
    ran.world.state = sites ∧ ReadOnly app ran.world.log ∧
      (∀ doc, ran.outcome = .Done doc → pagedRecords doc <+: items ∧
        (found = (fun _ => false) → pagedRecords doc = items) ∧
        ∀ p : Json → Bool, found = (fun batch => batch.any p) →
          (pagedRecords doc).find? p = items.find? p) ∧
      ((∀ n, (moves n).fate = .Goes) → items.length < PAGE_LIMIT * PAGE_SIZE →
        ∃ doc, ran.outcome = .Done doc) := by
  intro ran items
  let standing : Net → Prop := fun net => net.state = sites ∧ ReadOnly app net.log
  have hget : ∀ (net : Net) (extra : Text) (page : Nat) (answer : Option Response), standing net →
      standing { net with
        log := net.log ++ [({ app, method := .Get, target := .Page feed extra page }, answer)] } := by
    intro net extra page answer ⟨hstate, hlog⟩
    refine ⟨hstate, fun entry hentry => ?_⟩
    rcases List.mem_append.mp hentry with hentry | hentry
    · exact hlog entry hentry
    · rw [List.mem_singleton.mp hentry]
      exact ⟨rfl, rfl⟩
  have hstart : standing { state := sites } := ⟨rfl, fun _ hentry => absurd hentry List.not_mem_nil⟩
  have hserved : Remote.Served False standing (pagedInner app feed extra found)
      (fun doc net => listed (sites app) feed found = some (pagedRecords doc) ∧ standing net) standing :=
    served_pagedInner (fun net hnet => by rw [hnet.1]) hget fun _ _ hnet => hnet
  obtain ⟨hdone, hhalted⟩ := Remote.served_run hserved
    (fun n => ⟨hmoves n, fun hfalse => hfalse.elim⟩) turn hstart
  have hend : standing ran.world := by
    by_cases h : ∃ doc, ran.outcome = .Done doc
    · obtain ⟨doc, hdoc⟩ := h
      exact (hdone doc hdoc).2
    · exact hhalted fun doc hdoc => h ⟨doc, hdoc⟩
  refine ⟨hend.1, hend.2, fun doc hdoc => ?_, fun hgoes hshort => ?_⟩
  · have hlisted := (hdone doc hdoc).1
    refine ⟨listed_front hlisted, fun hnone => ?_, fun p hp => ?_⟩
    · rw [hnone] at hlisted
      exact listed_all hlisted
    · rw [hp] at hlisted
      exact listed_find hlisted
  · have hall : Remote.Served True standing (pagedInner app feed extra found)
        (fun doc net => listed (sites app) feed found = some (pagedRecords doc) ∧ standing net)
        (fun _ => False) := by
      refine served_pagedInner (fun net hnet => by rw [hnet.1]) hget fun hnone net _ => ?_
      have hsome := listed_short found hshort
      rw [hnone trivial] at hsome
      cases hsome
    obtain ⟨-, hfalse⟩ := Remote.served_run hall (fun n => ⟨hmoves n, fun _ => hgoes n⟩) turn hstart
    by_contra hnone
    exact hfalse fun doc hdoc => hnone ⟨doc, hdoc⟩

section Sample

def heldRecord : Json :=
  .Object [("downloadId".toList, .String "AB12".toList), (idKey, Serde.ofNat 7),
    ("protocol".toList, .String "torrent".toList), ("tmdbId".toList, Serde.ofNat 603),
    ("trackedDownloadState".toList, .String "importBlocked".toList)]

def emptySite : Site where
  queue := []
  missing := []
  parent _ _ := none

def heldSites : Sites :=
  Function.update (fun _ => emptySite) .Radarr { emptySite with queue := [heldRecord] }

def calm (_ : Nat) : Move Net := {}

-- More records than two pages hold.
def manySites : Sites := Function.update (fun _ => emptySite) .Radarr
  { emptySite with queue := List.replicate 450 heldRecord, style := .Uncounted }

theorem paged_listing_held : ∃ doc,
    (pagedInner .Radarr .Queue [] (fun _ => false) calm 0 { state := manySites }).outcome = .Done doc ∧
      pagedRecords doc = List.replicate 450 heldRecord := by
  obtain ⟨-, -, hdone, hanswers⟩ :=
    paged_listing manySites .Radarr .Queue [] (fun _ => false) calm (fun _ => rfl) 0
  have hlisting : (manySites .Radarr).listing .Queue = List.replicate 450 heldRecord := rfl
  obtain ⟨doc, hdoc⟩ := hanswers (fun _ => rfl) (by rw [hlisting, List.length_replicate]; decide)
  exact ⟨doc, hdoc, (hdone doc hdoc).2.1 rfl⟩

end Sample

end Mediaops.Arr.Inbox
