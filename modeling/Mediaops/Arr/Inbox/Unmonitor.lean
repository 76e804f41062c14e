import Mediaops.Arr.Inbox.Paging

namespace Mediaops.Arr.Inbox

-- What is missing according to the applications, and what a title that has arrived leaves
-- monitored there.

section Wanted

variable [UnicodeTables]

theorem mem_enlist {out : List TitleId} {id other : TitleId} :
    other ∈ enlist out id ↔ other ∈ out ∨ other = id := by
  unfold enlist
  by_cases h : id ∈ out
  · rw [if_pos h]
    exact ⟨.inl, fun hor => hor.elim (fun hmem => hmem) fun heq => heq ▸ h⟩
  · rw [if_neg h, List.mem_append, List.mem_singleton]

theorem mem_foldl_enlist {ids out : List TitleId} {other : TitleId} :
    other ∈ ids.foldl enlist out ↔ other ∈ out ∨ other ∈ ids := by
  induction ids generalizing out with
  | nil => simp
  | cons id ids ih => rw [List.foldl_cons, ih, mem_enlist, List.mem_cons, or_assoc]

theorem nodup_foldl_enlist {ids out : List TitleId} (h : out.Nodup) : (ids.foldl enlist out).Nodup := by
  induction ids generalizing out with
  | nil => exact h
  | cons id ids ih =>
      apply ih
      unfold enlist
      by_cases hmem : id ∈ out
      · rwa [if_pos hmem]
      · rw [if_neg hmem]
        rw [← List.concat_eq_append]
        exact h.concat hmem

-- To list some of the identities only, or to keep only some of those that are listed.
theorem foldl_enlist_filter (p : TitleId → Bool) (ids out : List TitleId) :
    (ids.filter p).foldl enlist (out.filter p) = (ids.foldl enlist out).filter p := by
  induction ids generalizing out with
  | nil => rfl
  | cons id ids ih =>
      have hstep : (enlist out id).filter p =
          if p id = true then enlist (out.filter p) id else out.filter p := by
        unfold enlist
        by_cases hmem : id ∈ out <;> by_cases hp : p id = true <;> simp [hmem, hp]
      rw [List.foldl_cons, ← ih, hstep, List.filter_cons]
      by_cases hp : p id = true
      · rw [if_pos hp, if_pos hp, List.foldl_cons]
      · rw [if_neg hp, if_neg hp]

-- The identities of all that these applications miss.
def wantedOf (sites : Sites) (apps : List App) : List TitleId :=
  (apps.flatMap fun app => (sites app).missing.flatMap itemTitleIds).foldl enlist []

theorem mem_wantedOf {sites : Sites} {apps : List App} {id : TitleId} :
    id ∈ wantedOf sites apps ↔
      ∃ app ∈ apps, ∃ record ∈ (sites app).missing, id ∈ itemTitleIds record := by
  simp [wantedOf, mem_foldl_enlist]

theorem wantedOf_append (sites : Sites) (apps : List App) (app : App) {doc : Json}
    (h : pagedRecords doc = (sites app).missing) :
    wantedOf sites (apps ++ [app]) = extendTitleIds doc (wantedOf sites apps) := by
  simp [wantedOf, extendTitleIds, h, List.foldl_append]

-- Every application there is a key for can be listed.
structure Listable (answered : Prop) (keys : Keys) (sites : Sites) : Prop where
  answers : answered
  short : ∀ app, keys app = true → (sites app).missing.length < PAGE_LIMIT * PAGE_SIZE

variable {answered : Prop} {keys : Keys} {sites : Sites}

omit [UnicodeTables] in
theorem served_missing (app : App) (hkey : keys app = true) (extra : Text) :
    Remote.Served answered (fun net => net.state = sites) (getPagedWith app .Missing extra)
      (fun doc net => pagedRecords doc = (sites app).missing ∧ net.state = sites)
      (fun net => ¬Listable answered keys sites ∧ net.state = sites) := by
  have hpaged : Remote.Served answered (fun net => net.state = sites) (getPagedWith app .Missing extra)
      (fun doc net => listed (sites app) .Missing (fun _ => false) = some (pagedRecords doc) ∧
        net.state = sites)
      (fun net => ¬Listable answered keys sites ∧ net.state = sites) := by
    apply served_pagedInner
    · intro net hnet
      rw [hnet]
    · intro net extra page answer hnet
      exact hnet
    · intro hnone net hnet
      refine ⟨fun hlistable => ?_, hnet⟩
      have hsome : (listed (sites app) .Missing fun _ => false).isSome = true :=
        listed_short _ (hlistable.short app hkey)
      rw [hnone hlistable.answers] at hsome
      cases hsome
  exact hpaged.mono (fun _ hnet => hnet) (fun _ _ hnet => ⟨listed_all hnet.1, hnet.2⟩) fun _ hnet => hnet

-- The induction is on the applications that are still to be asked. `asked` are those that
-- have answered.
theorem served_wantedMissingFrom (rest : List App) :
    ∀ (before asked : List App) (lastErr : Option ControlError), before ++ rest = mediaApps →
      asked.Sublist (before.filter keys) →
      (Listable answered keys sites → asked = before.filter keys) →
      Remote.Served answered (fun net => net.state = sites)
        (wantedMissingFrom keys rest (wantedOf sites asked) (!asked.isEmpty) lastErr)
        (fun ids net => net.state = sites ∧ ∃ asked : List App,
          asked.Sublist (mediaApps.filter keys) ∧ ids = wantedOf sites asked ∧
            (asked = [] → mediaApps.any keys = false) ∧
            (Listable answered keys sites → asked = mediaApps.filter keys))
        (fun net => ¬Listable answered keys sites ∧ net.state = sites) := by
  induction rest with
  | nil =>
      intro before asked lastErr happs hasked hall
      rw [List.append_nil] at happs
      subst happs
      rw [wantedMissingFrom]
      have hany : mediaApps.any keys = true → mediaApps.filter keys ≠ [] := by
        intro h hnil
        obtain ⟨app, happ, hkey⟩ := List.any_eq_true.mp h
        exact List.filter_eq_nil_iff.mp hnil app happ hkey
      apply runs_ite
      · rintro ⟨hkeys, hnone⟩
        refine runs_throw fun net hnet => ⟨fun hlistable => hany hkeys ?_, hnet⟩
        rw [← hall hlistable]
        simpa using hnone
      · intro hnot
        refine runs_pure fun net hnet => ⟨hnet, asked, hasked, rfl, fun hnil => ?_, hall⟩
        by_contra hkeys
        exact hnot ⟨by simpa using hkeys, by rw [hnil]; rfl⟩
  | cons app rest ih =>
      intro before asked lastErr happs hasked hall
      have hnext : (before ++ [app]) ++ rest = mediaApps := by
        rw [List.append_assoc, List.singleton_append, happs]
      rw [wantedMissingFrom]
      apply runs_ite
      · intro hkey
        have hfilter : (before ++ [app]).filter keys = before.filter keys ++ [app] := by
          rw [List.filter_append, List.filter_cons_of_pos hkey, List.filter_nil]
        let answer : Except ControlError Json → Net → Prop := fun result net =>
          net.state = sites ∧
            (∀ doc, result = .ok doc → pagedRecords doc = (sites app).missing) ∧
            ∀ e, result = .error e → ¬Listable answered keys sites
        have hlisted : Remote.Served answered (fun net => net.state = sites)
            (getPagedWith app .Missing (wantedExtra app)).attempt answer
            (fun net => ¬Listable answered keys sites ∧ net.state = sites) := by
          apply Runs.attempt
          refine (served_missing app hkey _).mono (fun _ hnet => hnet) (fun doc _ hnet => ?_)
            fun _ hnet => ⟨hnet, fun _ => ⟨hnet.2, fun _ h => (by cases h), fun _ _ => hnet.1⟩⟩
          refine ⟨hnet.2, fun found hfound => ?_, fun _ h => by cases h⟩
          cases hfound
          exact hnet.1
        apply hlisted.bind
        intro result
        apply Runs.of_pre (fun _ hnet => hnet.2)
        intro hresult
        cases result with
        | ok doc =>
            have hflag : true = !(asked ++ [app]).isEmpty := by simp
            dsimp only
            rw [← wantedOf_append sites asked app (hresult.1 doc rfl), hflag]
            exact (ih (before ++ [app]) (asked ++ [app]) lastErr hnext
              (by rw [hfilter]; exact hasked.append (List.Sublist.refl _))
              fun hlistable => by rw [hfilter, hall hlistable]).mono
              (fun _ hnet => hnet.1) (fun _ _ hnet => hnet) fun _ hnet => hnet
        | error e =>
            exact (ih (before ++ [app]) asked (some e) hnext
              (by rw [hfilter]; exact hasked.trans (List.sublist_append_left _ _))
              fun hlistable => absurd hlistable (hresult.2 e rfl)).mono
              (fun _ hnet => hnet.1) (fun _ _ hnet => hnet) fun _ hnet => hnet
      · intro hkey
        have hfilter : (before ++ [app]).filter keys = before.filter keys := by
          rw [List.filter_append, List.filter_cons_of_neg hkey, List.filter_nil, List.append_nil]
        exact ih (before ++ [app]) asked lastErr hnext (by rwa [hfilter]) (by rwa [hfilter])

theorem served_wantedMissing (answered : Prop) (keys : Keys) (sites : Sites) :
    Remote.Served answered (fun net => net.state = sites) (wantedMissing keys)
      (fun ids net => net.state = sites ∧ ∃ asked : List App,
        asked.Sublist (mediaApps.filter keys) ∧ ids = wantedOf sites asked ∧
          (asked = [] → mediaApps.any keys = false) ∧
          (Listable answered keys sites → asked = mediaApps.filter keys))
      (fun net => ¬Listable answered keys sites ∧ net.state = sites) :=
  served_wantedMissingFrom mediaApps [] [] none rfl List.Sublist.slnil fun _ => rfl

-- The wanted titles are the identities in the missing lists of the applications that
-- answered, each once, and some application must have answered if there is a key for any.
-- To ask changes nothing.
theorem wanted_missing (keys : Keys) (sites : Sites) (moves : Nat → Move Net)
    (hmoves : ∀ n, (moves n).outside = id) (turn : Nat) :
    let ran := wantedMissing keys moves turn { state := sites }
    ran.world.state = sites ∧
      (∀ ids, ran.outcome = .Done ids → ids.Nodup ∧ ∃ asked : List App,
        asked.Sublist (mediaApps.filter keys) ∧ (asked = [] → mediaApps.any keys = false) ∧
          ∀ id, id ∈ ids ↔
            ∃ app ∈ asked, ∃ record ∈ (sites app).missing, id ∈ itemTitleIds record) ∧
      (Listable (∀ n, (moves n).fate = .Goes) keys sites →
        ran.outcome = .Done (wantedOf sites (mediaApps.filter keys))) := by
  intro ran
  have hserved := served_wantedMissing (∀ n, (moves n).fate = .Goes) keys sites
  obtain ⟨hdone, hhalted⟩ := Remote.served_run hserved (fun n => ⟨hmoves n, fun hgoes => hgoes n⟩) turn
    (rfl : ({ state := sites } : Net).state = sites)
  by_cases h : ∃ ids, ran.outcome = .Done ids
  · obtain ⟨ids, hids⟩ := h
    obtain ⟨hstate, asked, hasked, hwanted, hnone, hall⟩ := hdone ids hids
    refine ⟨hstate, fun other hother => ?_, fun hlistable => ?_⟩
    · rw [hids] at hother
      cases hother
      refine ⟨by rw [hwanted]; exact nodup_foldl_enlist List.nodup_nil, asked, hasked, hnone, fun id => ?_⟩
      rw [hwanted, mem_wantedOf]
    · rw [hids, hwanted, hall hlistable]
  · have hnot : ∀ ids, ran.outcome ≠ .Done ids := fun ids hids => h ⟨ids, hids⟩
    obtain ⟨hlistable, hstate⟩ := hhalted hnot
    exact ⟨hstate, fun ids hids => absurd hids (hnot ids), fun hall => absurd hall hlistable⟩

section Sample

def missingRecord : Json :=
  .Object [(idKey, Serde.ofNat 7), ("tmdbId".toList, Serde.ofNat 603)]

def parentsSite : Site :=
  { emptySite with
    parent := fun _ _ => some (.Object [(idKey, Serde.ofNat 7), ("monitored".toList, .Bool true)]) }

def missingSites : Sites :=
  Function.update (fun _ => parentsSite) .Radarr { parentsSite with missing := [missingRecord] }

def radarrKey : Keys := fun app => app = .Radarr

omit [UnicodeTables] in
theorem listable_missingSites :
    @Listable (∀ n, (calm n).fate = .Goes ∧ (calm n).pick = 0) radarrKey missingSites :=
  ⟨fun _ => ⟨rfl, rfl⟩, fun app _ => by cases app <;> decide⟩

omit [UnicodeTables] in
theorem wanted_missing_record :
    (@wantedMissing UnicodeTables.ascii radarrKey calm 0 { state := missingSites }).outcome =
      .Done (@wantedOf UnicodeTables.ascii missingSites (mediaApps.filter radarrKey)) :=
  (@wanted_missing UnicodeTables.ascii radarrKey missingSites calm (fun _ => rfl) 0).2.2
    ⟨fun _ => rfl, listable_missingSites.short⟩

end Sample

end Wanted

section Unmonitor

variable [UnicodeTables]

omit [UnicodeTables] in
theorem setUnmonitored_idem (parent : Json) :
    setUnmonitored (setUnmonitored parent) = setUnmonitored parent := by
  cases parent with
  | Object map => exact congrArg Json.Object (Json.assign_assign _ _ _ _)
  | _ => rfl

-- Nothing of a parent changes but whether it is monitored.
omit [UnicodeTables] in
theorem without_setUnmonitored (parent : Json) :
    (setUnmonitored parent).without monitoredKey = parent.without monitoredKey := by
  cases parent with
  | Object map => exact Json.without_assign _ _ _
  | _ => rfl

-- The parent that a title stands for at the application of its kind.
def unmonitorTarget (keys : Keys) (sites : Sites) (titleId : TitleId) : Option (App × TitleKind × Int) :=
  let app := ownerOf titleId.kind
  if keys app then
    (((sites app).missing.find? (isParentOf titleId)).bind unmonitorParent).map fun parent => (app, parent.2)
  else none

-- The applications when the parents of these titles are no longer monitored.
def unmonitored (keys : Keys) (sites : Sites) (titles : List TitleId) : Sites := fun app =>
  { sites app with
    parent := fun kind id =>
      if some (app, kind, id) ∈ titles.map (unmonitorTarget keys sites) then
        ((sites app).parent kind id).map setUnmonitored
      else (sites app).parent kind id }

-- Only the first record that names the title counts.
theorem unmonitorDoc_find (app : App) (titleId : TitleId) (records : List Json) :
    unmonitorDoc app titleId records =
      unmonitorDoc app titleId (records.find? (isParentOf titleId)).toList := by
  induction records with
  | nil => rfl
  | cons item rest ih =>
      rw [unmonitorDoc, List.find?_cons]
      unfold isParentOf at ih ⊢
      cases hparent : unmonitorParent item with
      | none => exact ih
      | some parent =>
          dsimp only
          rw [Option.isSome_some, Bool.true_and]
          cases hmatch : itemMatchesTitle item titleId with
          | true =>
              dsimp only
              rw [if_pos rfl, Option.toList_some, unmonitorDoc, hparent, hmatch]
              rfl
          | false =>
              rw [if_neg Bool.false_ne_true]
              exact ih

variable {answered : Prop} {keys : Keys} {sites : Sites} {done : List TitleId} {titleId : TitleId}
  {app : App} {kind : TitleKind} {id : Int}

theorem unmonitored_without (app : App) (kind : TitleKind) (id : Int) :
    ((unmonitored keys sites done app).parent kind id).map (Json.without monitoredKey) =
      ((sites app).parent kind id).map (Json.without monitoredKey) := by
  unfold unmonitored
  dsimp only
  split
  · rw [Option.map_map]
    exact congrArg (fun f => ((sites app).parent kind id).map f) (funext without_setUnmonitored)
  · rfl

theorem unmonitored_nil : unmonitored keys sites [] = sites := by
  funext app
  simp [unmonitored]

theorem unmonitored_none (h : unmonitorTarget keys sites titleId = none) :
    unmonitored keys sites (done ++ [titleId]) = unmonitored keys sites done := by
  funext app
  simp [unmonitored, h]

theorem parent_unmonitored (keys : Keys) (sites : Sites) (done : List TitleId) (app : App)
    (kind : TitleKind) (id : Int) :
    ((unmonitored keys sites done app).parent kind id).map setUnmonitored =
      ((sites app).parent kind id).map setUnmonitored := by
  unfold unmonitored
  dsimp only
  split
  · rw [Option.map_map]
    exact congrArg (fun f => ((sites app).parent kind id).map f) (funext setUnmonitored_idem)
  · rfl

theorem unmonitored_some (h : unmonitorTarget keys sites titleId = some (app, kind, id)) :
    unmonitored keys sites (done ++ [titleId]) =
      Function.update (unmonitored keys sites done) app
        { unmonitored keys sites done app with
          parent := fun k n =>
            if k = kind ∧ n = id then
              ((unmonitored keys sites done app).parent kind id).map setUnmonitored
            else (unmonitored keys sites done app).parent k n } := by
  rw [parent_unmonitored]
  funext other
  by_cases happ : other = app
  · subst happ
    rw [Function.update_self]
    simp only [unmonitored, Site.mk.injEq, true_and, and_true]
    funext k n
    by_cases hsame : k = kind ∧ n = id
    · obtain ⟨rfl, rfl⟩ := hsame
      simp [h]
    · have hother : some (other, kind, id) ≠ some (other, k, n) := by
        intro heq
        cases heq
        exact hsame ⟨rfl, rfl⟩
      simp [h, hsame, hother.symm]
  · rw [Function.update_of_ne happ]
    have hother : ∀ k n, some (other, k, n) ≠ some (app, kind, id) := by
      intro k n heq
      cases heq
      exact happ rfl
    simp [unmonitored, h, hother]

omit [UnicodeTables] in
theorem serve_getParent (sites : Sites) (app : App) (kind : TitleKind) (id : Int) :
    serve { app, method := .Get, target := .Parent kind id } sites =
      (match (sites app).parent kind id with
        | some parent => { status := 200, body := some parent }
        | none => { status := 404 }, sites) := by
  unfold serve Site.serve
  dsimp only
  cases (sites app).parent kind id <;> exact congrArg _ (Function.update_eq_self _ _)

omit [UnicodeTables] in
theorem serve_putParent (body : Json) (h : ((sites app).parent kind id).isSome = true) :
    serve { app, method := .Put, target := .Parent kind id, body := some body } sites =
      ({ status := 202, body := some body },
        Function.update sites app { sites app with
          parent := fun k n => if k = kind ∧ n = id then some body else (sites app).parent k n }) := by
  unfold serve Site.serve
  dsimp only
  rw [if_pos h]

-- Besides, no record names a parent that is not there.
structure Intact (answered : Prop) (keys : Keys) (sites : Sites) : Prop extends
    Listable answered keys sites where
  parents : ∀ titleId app kind id, unmonitorTarget keys sites titleId = some (app, kind, id) →
    ((sites app).parent kind id).isSome = true

-- A title is done with or it is not, and something went wrong.
def Halfway (answered : Prop) (keys : Keys) (sites : Sites) (done : List TitleId) (titleId : TitleId)
    (net : Net) : Prop :=
  ¬Intact answered keys sites ∧
    (net.state = unmonitored keys sites done ∨ net.state = unmonitored keys sites (done ++ [titleId]))

theorem served_unmonitorDoc
    (htarget : unmonitorTarget keys sites titleId = some (app, kind, id)) {item : Json} {own : TitleId}
    (hparent : unmonitorParent item = some (own, kind, id)) (hmatch : itemMatchesTitle item titleId = true) :
    Remote.Served answered (fun net => net.state = unmonitored keys sites done)
      (unmonitorDoc app titleId [item])
      (fun _ net => net.state = unmonitored keys sites (done ++ [titleId]))
      (Halfway answered keys sites done titleId) := by
  rw [unmonitorDoc, hparent]
  dsimp only
  rw [if_pos hmatch]
  let current := (unmonitored keys sites done app).parent kind id
  have hget : Remote.Served answered (fun net => net.state = unmonitored keys sites done)
      (json { app, method := .Get, target := .Parent kind id })
      (fun parent net => current = some parent ∧ net.state = unmonitored keys sites done)
      (Halfway answered keys sites done titleId) := by
    apply served_json
    · intro net hnet
      rw [hnet, serve_getParent]
      cases hcurrent : (unmonitored keys sites done app).parent kind id with
      | none =>
          refine ⟨fun hintact => ?_, .inl rfl⟩
          have hthere := hintact.parents titleId app kind id htarget
          have hmap := parent_unmonitored keys sites done app kind id
          rw [hcurrent, Option.map_none] at hmap
          rw [Option.map_eq_none_iff.mp hmap.symm] at hthere
          cases hthere
      | some parent => exact ⟨hcurrent, rfl⟩
    · intro hnot net hnet
      have hbroken : ¬Intact answered keys sites := fun h => hnot h.answers
      rw [hnet, serve_getParent]
      exact ⟨⟨hbroken, .inl rfl⟩, hbroken, .inl rfl⟩
  apply hget.bind
  intro parent
  apply Runs.of_pre (fun _ hnet => hnet.1)
  intro hcurrent
  let request : Request :=
    { app, method := .Put, target := .Parent kind id, body := some (setUnmonitored parent) }
  have hput : serve request (unmonitored keys sites done) =
      ({ status := 202, body := some (setUnmonitored parent) },
        unmonitored keys sites (done ++ [titleId])) := by
    have hthere : ((unmonitored keys sites done app).parent kind id).isSome = true := by
      rw [show (unmonitored keys sites done app).parent kind id = some parent from hcurrent]
      rfl
    rw [serve_putParent _ hthere, unmonitored_some htarget,
      show (unmonitored keys sites done app).parent kind id = some parent from hcurrent]
    rfl
  have hwritten : Remote.Served answered (fun net => net.state = unmonitored keys sites done)
      (json request)
      (fun _ net => net.state = unmonitored keys sites (done ++ [titleId]))
      (Halfway answered keys sites done titleId) := by
    apply served_json
    · intro net hnet
      rw [hnet, hput]
      rfl
    · intro hnot net hnet
      have hbroken : ¬Intact answered keys sites := fun h => hnot h.answers
      rw [hnet, hput]
      exact ⟨⟨hbroken, .inl rfl⟩, hbroken, .inr rfl⟩
  apply (hwritten.mono (fun _ hnet => hnet.2) (fun _ _ hnet => hnet) fun _ hnet => hnet).bind
  intro _
  exact runs_pure fun _ hnet => hnet

-- The title's parent is left unmonitored, if it has one, and nothing else is touched.
theorem served_unmonitor (titleId : TitleId) :
    Remote.Served answered (fun net => net.state = unmonitored keys sites done) (unmonitor keys titleId)
      (fun _ net => net.state = unmonitored keys sites (done ++ [titleId]))
      (Halfway answered keys sites done titleId) := by
  have hunchanged : unmonitorTarget keys sites titleId = none → ∀ net : Net,
      net.state = unmonitored keys sites done → net.state = unmonitored keys sites (done ++ [titleId]) := by
    intro hnone net hnet
    rwa [unmonitored_none hnone]
  rw [unmonitor]
  apply runs_ite
  · intro hkey
    have hlisted : Remote.Served answered (fun net => net.state = unmonitored keys sites done)
        (pagedInner (ownerOf titleId.kind) .Missing (wantedExtra (ownerOf titleId.kind))
          fun batch => batch.any (isParentOf titleId))
        (fun doc net => listed (unmonitored keys sites done (ownerOf titleId.kind)) .Missing
          (fun batch => batch.any (isParentOf titleId)) = some (pagedRecords doc) ∧
            net.state = unmonitored keys sites done)
        (Halfway answered keys sites done titleId) := by
      apply served_pagedInner
      · intro net hnet
        rw [hnet]
      · intro net extra page answer hnet
        exact hnet
      · intro hnone net hnet
        refine ⟨fun hintact => ?_, .inl hnet⟩
        have hsome : (listed (unmonitored keys sites done (ownerOf titleId.kind)) .Missing
            fun batch => batch.any (isParentOf titleId)).isSome = true :=
          listed_short _ (hintact.short _ hkey)
        rw [hnone hintact.answers] at hsome
        cases hsome
    apply hlisted.bind
    intro doc
    apply Runs.of_pre (fun _ hnet => hnet.1)
    intro hdoc
    have hfind : (pagedRecords doc).find? (isParentOf titleId) =
        (sites (ownerOf titleId.kind)).missing.find? (isParentOf titleId) := listed_find hdoc
    rw [unmonitorDoc_find, hfind]
    have htarget : unmonitorTarget keys sites titleId =
        (((sites (ownerOf titleId.kind)).missing.find? (isParentOf titleId)).bind
          unmonitorParent).map fun parent => (ownerOf titleId.kind, parent.2) := if_pos hkey
    have hrest : Remote.Served answered (fun net => net.state = unmonitored keys sites done)
        (unmonitorDoc (ownerOf titleId.kind) titleId
          ((sites (ownerOf titleId.kind)).missing.find? (isParentOf titleId)).toList)
        (fun _ net => net.state = unmonitored keys sites (done ++ [titleId]))
        (Halfway answered keys sites done titleId) := by
      cases hfound : (sites (ownerOf titleId.kind)).missing.find? (isParentOf titleId) with
      | none =>
          rw [hfound] at htarget
          exact runs_pure (hunchanged htarget)
      | some item =>
          have hparentOf : isParentOf titleId item = true := List.find?_some hfound
          obtain ⟨hparent, hmatch⟩ := Bool.and_eq_true_iff.mp hparentOf
          obtain ⟨⟨own, kind, id⟩, hown⟩ := Option.isSome_iff_exists.mp hparent
          rw [hfound, Option.bind_some, hown] at htarget
          exact served_unmonitorDoc htarget hown hmatch
    apply (hrest.mono (fun _ hnet => hnet.2) (fun _ _ hnet => hnet) fun _ hnet => hnet).bind
    intro _
    exact runs_pure fun _ hnet => hnet
  · intro hkey
    exact runs_pure (hunchanged (if_neg hkey))

end Unmonitor

end Mediaops.Arr.Inbox
