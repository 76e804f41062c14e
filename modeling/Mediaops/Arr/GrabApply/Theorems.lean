import Mediaops.Arr.GrabApply.AppRuns

namespace Mediaops.Arr

open Reconcile

-- Whole runs: what they leave, and that it does not matter where the ones before stopped.

-- A list of named objects as it is wanted.
structure NamedConfigured {α : Type} (name : α → Text) (members : α → List Json.Member)
    (fields : α → TextMap Text) (want : List α) (start items : List Json) : Prop where
  names : (items.map Json.nameOf).Perm (want.map fun spec => some (name spec))
  objects : ∀ spec ∈ want, ∃ item ∈ items, Json.nameOf item = some (name spec) ∧
    Carries (members spec) (fields spec) item ∧
      ∀ live ∈ start, Json.nameOf live = some (name spec) → KeepsRest (members spec) (fields spec) live item

-- An entry for each score, with the id of the format of its name.
def Scores (formats : List Json) (scores : List (Text × Int32)) (entries : List Json) : Prop :=
  List.Forall₂ (fun score entry => ∃ format ∈ formats, ∃ id, Json.nameOf format = some score.1 ∧
    idOf format = some id ∧ entry = formatItem id score.1 score.2) scores entries

structure Configured (desired : DesiredState) (app : App) (start after : Server) : Prop where
  indexers : wantedIndexers desired app ≠ [] →
    NamedConfigured (·.name) indexerMembers (·.fields) (wantedIndexers desired app)
      (start.items .Indexer) (after.items .Indexer)
  clients : wantedClients desired app ≠ [] →
    NamedConfigured (·.name) clientMembers (·.fields) (wantedClients desired app)
      (start.items .DownloadClient) (after.items .DownloadClient)
  profile : wantedPacks desired app ≠ [] → ∀ name, wantedProfile desired = some name →
    some name ∈ (after.items .QualityProfile).map Json.nameOf ∧
      ∀ item ∈ after.items .QualityProfile, Json.nameOf item = some name →
        ∃ entries, item.get formatItemsKey = some (.Array entries) ∧
          Scores (after.items .CustomFormat) (packScores (wantedPacks desired app)) entries
  delays : ∀ minutes, wantedDelay desired app = some minutes → ∀ item ∈ after.items .DelayProfile,
    item.get usenetDelayKey = some (Serde.ofU32 minutes) ∧
      item.get torrentDelayKey = some (Serde.ofU32 minutes) ∧
        ∀ value ∈ item.get delayKey, value = Serde.ofU32 minutes

-- The profile without the ids of the formats.
def withoutFormats (profile : Json) : Json :=
  match (profile.get formatItemsKey).bind Json.asArray with
  | some entries =>
      (Json.set formatItemsKey (.Array (entries.map (Json.without formatKey))) profile).getD profile
  | none => profile

-- Two servers that differ in the ids of new objects, and in where these are referred to.
structure Alike (server other : Server) : Prop where
  hostConfig : server.hostConfig = other.hostConfig
  applications : server.items .Applications = other.items .Applications
  indexers : ((server.items .Indexer).map (Json.without idKey)).Perm
    ((other.items .Indexer).map (Json.without idKey))
  clients : ((server.items .DownloadClient).map (Json.without idKey)).Perm
    ((other.items .DownloadClient).map (Json.without idKey))
  formats : ((server.items .CustomFormat).map (Json.without idKey)).Perm
    ((other.items .CustomFormat).map (Json.without idKey))
  profiles : (server.items .QualityProfile).map withoutFormats = (other.items .QualityProfile).map withoutFormats
  delays : server.items .DelayProfile = other.items .DelayProfile

-- A run that went through to its end, and one that failed at a request.
def Applied (desired : DesiredState) (keys : Keys) (servers after : App → Server) : Prop :=
  ∃ moves turn report, Alone moves ∧ (grabApply desired keys moves turn { servers }).outcome = .Done report ∧
    (grabApply desired keys moves turn { servers }).world.servers = after

def FailedRun (desired : DesiredState) (keys : Keys) (servers after : App → Server) : Prop :=
  ∃ moves turn, Alone moves ∧ Refused (grabApply desired keys moves turn { servers }).world.log ∧
    (grabApply desired keys moves turn { servers }).world.servers = after

section Runs

variable {desired : DesiredState} {hd : desired.grab.Distinct} {keys : Keys} {still : Prop}
  {start : App → Server}

-- How far the servers are. Those without a key are left alone.
structure Between (hd : desired.grab.Distinct) (keys : Keys) (still : Prop) (start : App → Server)
    (net : Net) : Prop where
  unkeyed : ∀ app, keys app = false → net.servers app = start app
  towards : ∀ app, keys app = true → Towards hd app (start app) (net.servers app)
  same : still → net.servers = start ∧ ReadOnly net.log

-- Of the applications these are still to come.
structure Progress (hd : desired.grab.Distinct) (keys : Keys) (still : Prop) (start : App → Server)
    (rest : List App) (net : Net) : Prop where
  between : Between hd keys still start net
  distinct : rest.Nodup
  left : ∀ app ∈ rest, net.servers app = start app
  done : ∀ app, keys app = true → app ∉ rest → Done hd app (net.servers app)

theorem served_applyKeyed (hready : ∀ app, keys app = true → Ready desired app (start app))
    (hstill : still → ∀ app, keys app = true → Done hd app (start app)) (app : App) (rest : List App) :
    Served False (Progress hd keys still start (app :: rest)) (applyKeyed desired keys app)
      (fun _ => Progress hd keys still start rest)
      fun net => Between hd keys still start net ∧ Refused net.log := by
  unfold applyKeyed
  apply runs_ite
  · intro hkey past net hnet
    have hbefore : net.servers app = start app := hnet.left app List.mem_cons_self
    have hrun : AppScene.Runs ⟨app, net.servers, still⟩ _ _ (applyApp desired app app.media) _ :=
      app_applyApp (hready app hkey) fun hs => hstill hs app hkey
    -- what was done to this server is what was done
    have hbetween : ∀ {after : Net} {server : Server}, after.servers = Function.update net.servers app server →
        Moved hd app still (start app) server → (still → ReadOnly after.log) →
        Between hd keys still start after := by
      intro after server hservers hmoved hlog
      refine ⟨fun other hother => ?_, fun other hother => ?_, fun hs => ⟨?_, hlog hs⟩⟩
      · have hne : other ≠ app := by
          rintro rfl
          rw [hkey] at hother
          cases hother
        rw [hservers, Function.update_of_ne hne]
        exact hnet.between.unkeyed other hother
      · by_cases hsame : other = app
        · subst hsame
          rw [hservers, Function.update_self]
          exact hmoved.towards
        · rw [hservers, Function.update_of_ne hsame]
          exact hnet.between.towards other hother
      · rw [hservers, hmoved.same hs, ← hbefore, Function.update_eq_self]
        exact (hnet.between.same hs).1
    have hframed : Served False (· = net) (applyApp desired app app.media)
        (fun _ => Progress hd keys still start rest)
        fun after => Between hd keys still start after ∧ Refused after.log := by
      refine hrun.mono ?_ ?_ ?_
      · rintro _ rfl
        refine ⟨start app, ?_, rfl, fun hs => (hnet.between.same hs).2⟩
        rw [← hbefore]
        exact (Function.update_eq_self app _).symm
      · rintro _ after ⟨server, hservers, ⟨hmoved, hdone⟩, hlog⟩
        obtain ⟨happ, hrest⟩ := List.nodup_cons.mp hnet.distinct
        refine ⟨hbetween hservers hmoved hlog, hrest, fun other hother => ?_, fun other hother hnot => ?_⟩
        · have hne : other ≠ app := fun hsame => happ (hsame ▸ hother)
          rw [hservers, Function.update_of_ne hne]
          exact hnet.left other (List.mem_cons_of_mem _ hother)
        · by_cases hsame : other = app
          · subst hsame
            rw [hservers, Function.update_self]
            exact hdone
          · rw [hservers, Function.update_of_ne hsame]
            refine hnet.done other hother fun hmem => ?_
            exact (List.mem_cons.mp hmem).elim hsame hnot
      · rintro after ⟨⟨server, hservers, hmoved, hlog⟩, hrefused⟩
        exact ⟨hbetween hservers hmoved hlog, hrefused⟩
    exact hframed past net rfl
  · intro hkey
    apply runs_pure
    intro net hnet
    refine ⟨hnet.between, (List.nodup_cons.mp hnet.distinct).2, fun other hother => ?_,
      fun other hother hnot => ?_⟩
    · exact hnet.left other (List.mem_cons_of_mem _ hother)
    · refine hnet.done other hother fun hmem => ?_
      rcases List.mem_cons.mp hmem with rfl | hmem
      · exact hkey hother
      · exact hnot hmem

theorem served_grabApply (hgrabber : desired.grabber = .Servarr) {checked : Unit}
    (hkeys : requireKeysForDesired desired keys = .ok checked)
    (hready : ∀ app, keys app = true → Ready desired app (start app))
    (hstill : still → ∀ app, keys app = true → Done hd app (start app)) :
    Served False (· = { servers := start }) (grabApply desired keys)
      (fun _ net => Between hd keys still start net ∧ ∀ app, keys app = true → Done hd app (net.servers app))
      fun net => Between hd keys still start net ∧ Refused net.log := by
  unfold grabApply
  rw [if_neg (not_not.mpr hgrabber), hkeys]
  apply Runs.bind (A := fun _ net => net = { servers := start })
  · exact runs_pure fun _ h => h
  intro _
  have hloop := served_forEach (fun rest => Progress hd keys still start rest)
    (served_applyKeyed hready hstill) apps
  refine Runs.bind (hloop.mono ?_ (fun _ _ h => h) fun _ h => h) ?_
  · rintro _ rfl
    refine ⟨⟨fun _ _ => rfl, fun app hkey => towards_refl (hready app hkey), fun _ => ⟨rfl, ?_⟩⟩, by decide,
      fun _ _ => rfl, fun app _ hnot => ?_⟩
    · exact fun _ h => absurd h List.not_mem_nil
    · exact absurd (by cases app <;> decide) hnot
  · intro _
    exact runs_pure fun net h => ⟨h.between, fun app hkey => h.done app hkey List.not_mem_nil⟩

end Runs

section Outcomes

variable {α : Type} {kind : Kind α} {lawful : kind.Lawful} {want : List α}
  {hdistinct : (want.map kind.name).Nodup} {start items items' : List Json}

theorem named_configured (hne : want ≠ []) (h : NamedTowards lawful want hdistinct start items)
    (hsettled : (plan lawful want hdistinct).Settled items) (hstart : Listed start) :
    NamedConfigured kind.name lawful.members lawful.fields want start items := by
  have hreaches := (h.underway hne).reaches
  refine ⟨settled_names hreaches hsettled hstart.names, fun spec hspec => ?_⟩
  obtain ⟨item, hitem, hname⟩ := List.mem_map.mp (hsettled.present spec hspec)
  have houtcome := settled_outcome hreaches hsettled hspec hitem hname
  refine ⟨item, hitem, hname, ?_, fun live hlive hlive' => ?_⟩
  · rcases houtcome with ⟨old, -, hold, rfl⟩ | ⟨-, hmade⟩
    · exact settle_carries lawful hold
    · exact made_carries lawful hmade
  · rcases houtcome with ⟨old, hold, hold', rfl⟩ | ⟨hnew, -⟩
    · obtain rfl := List.inj_on_of_nodup_map hstart.names hold hlive (hold'.trans hlive'.symm)
      exact settle_keepsRest lawful hlive'
    · exact absurd (List.mem_map.mpr ⟨live, hlive, hlive'⟩) hnew

theorem without_created (id : Nat) (map : List Json.Member) :
    Json.without idKey (Server.created id map) = Json.without idKey (.Object map) :=
  Json.without_assign idKey _ map

theorem made_alike (spec : α) {item item' : Json} (h : Made kind spec item) (h' : Made kind spec item') :
    Json.without idKey item = Json.without idKey item' := by
  obtain ⟨map, id, hbody, -, rfl⟩ := h
  obtain ⟨map', id', hbody', -, rfl⟩ := h'
  obtain rfl : map = map' := Json.Object.inj (Option.some.inj (hbody.symm.trans hbody'))
  rw [without_created, without_created]

theorem named_alike (hstart : want ≠ [] → Listed start) (h : NamedTowards lawful want hdistinct start items)
    (hsettled : want ≠ [] → (plan lawful want hdistinct).Settled items)
    (h' : NamedTowards lawful want hdistinct start items')
    (hsettled' : want ≠ [] → (plan lawful want hdistinct).Settled items') :
    (items.map (Json.without idKey)).Perm (items'.map (Json.without idKey)) := by
  by_cases hwant : want = []
  · rw [h.unwanted hwant, h'.unwanted hwant]
  · exact settled_unique made_alike (hstart hwant).names (h.underway hwant).reaches (hsettled hwant)
      (h'.underway hwant).reaches (hsettled' hwant)

variable {packs : List CustomFormatPack}

-- The new formats are those of the wanted names that were missing.
theorem added_names {names : List Text} {added : List (Text × Json)}
    (hmade : ∀ made ∈ added, made.1 ∈ names ∧ some made.1 ∉ start.map Json.nameOf ∧ MadeFormat made.1 made.2)
    (hall : ∀ name ∈ names, some name ∈ (start ++ added.map Prod.snd).map Json.nameOf) (name : Text) :
    name ∈ added.map Prod.fst ↔ name ∈ names ∧ some name ∉ start.map Json.nameOf := by
  constructor
  · intro hname
    obtain ⟨made, hin, rfl⟩ := List.mem_map.mp hname
    exact ⟨(hmade made hin).1, (hmade made hin).2.1⟩
  · rintro ⟨hname, hnew⟩
    have hmem := hall name hname
    rw [List.map_append, List.map_map, List.mem_append] at hmem
    obtain ⟨made, hin, hcalled⟩ := List.mem_map.mp (hmem.resolve_left hnew)
    obtain ⟨-, -, id, -, hitem⟩ := hmade made hin
    rw [Function.comp_apply, hitem, nameOf_format] at hcalled
    exact List.mem_map.mpr ⟨made, hin, Option.some.inj hcalled⟩

theorem formats_alike (h : FormatsTowards packs start items)
    (hall : ∀ name ∈ formatNames packs, some name ∈ items.map Json.nameOf) (h' : FormatsTowards packs start items')
    (hall' : ∀ name ∈ formatNames packs, some name ∈ items'.map Json.nameOf) :
    (items.map (Json.without idKey)).Perm (items'.map (Json.without idKey)) := by
  by_cases hpacks : packs = []
  · rw [h.unwanted hpacks, h'.unwanted hpacks]
  · obtain ⟨added, rfl, hdistinct, hmade⟩ := (h.underway hpacks).added
    obtain ⟨added', rfl, hdistinct', hmade'⟩ := (h'.underway hpacks).added
    have hperm : (added.map Prod.fst).Perm (added'.map Prod.fst) := by
      refine (List.perm_ext_iff_of_nodup hdistinct hdistinct').mpr fun name => ?_
      rw [added_names hmade hall, added_names hmade' hall']
    have hforms : ∀ {list : List (Text × Json)}, (∀ made ∈ list, MadeFormat made.1 made.2) →
        (list.map Prod.snd).map (Json.without idKey) =
          (list.map Prod.fst).map fun name => Json.without idKey (.Object (formatMembers name)) := by
      intro list hlist
      rw [List.map_map, List.map_map]
      refine List.map_congr_left fun made hin => ?_
      obtain ⟨id, -, hitem⟩ := hlist made hin
      rw [Function.comp_apply, Function.comp_apply, hitem, without_created]
    rw [List.map_append, List.map_append, hforms fun made hin => (hmade made hin).2.2,
      hforms fun made hin => (hmade' made hin).2.2]
    exact (List.Perm.refl _).append (hperm.map _)

theorem formatItem_alike (format format' : Int) (name : Text) (score : Int32) :
    Json.without formatKey (formatItem format name score) = Json.without formatKey (formatItem format' name score) := by
  have hmembers : ∀ id : Int, formatItem id name score = .Object [(formatKey, Serde.ofI64 id),
      (Json.nameKey, .String name), (scoreKey, Serde.ofI64 score.toInt)] := fun _ => rfl
  rw [hmembers, hmembers]
  rfl

theorem scoreItems_alike (packs : List CustomFormatPack) (cfs cfs' : List Json) :
    (scoreItems packs cfs).map (Json.without formatKey) = (scoreItems packs cfs').map (Json.without formatKey) := by
  rw [scoreItems, scoreItems, List.map_map, List.map_map]
  exact List.map_congr_left fun score _ => formatItem_alike _ _ score.1 score.2

theorem get_rescored_items {name : Text} {scores : List Json} {item : Json} (h : Json.nameOf item = some name) :
    (rescored name scores item).get formatItemsKey = some (.Array scores) := by
  obtain ⟨map, rfl⟩ := object_of_name h
  rw [rescored, if_pos h]
  show Json.lookup formatItemsKey (Json.assign formatItemsKey (.Array scores) map) = _
  rw [Json.lookup_assign, if_pos rfl]

theorem rescored_alike {name : Text} {scores scores' : List Json}
    (h : scores.map (Json.without formatKey) = scores'.map (Json.without formatKey)) (item : Json) :
    withoutFormats (rescored name scores item) = withoutFormats (rescored name scores' item) := by
  by_cases hname : Json.nameOf item = some name
  · have hcut : ∀ list : List Json, withoutFormats (rescored name list item) =
        rescored name (list.map (Json.without formatKey)) item := by
      intro list
      rw [withoutFormats, get_rescored_items hname]
      show (Json.set formatItemsKey (.Array (list.map (Json.without formatKey))) (rescored name list item)).getD
        (rescored name list item) = _
      rw [← rescored_rescored name list (list.map (Json.without formatKey)) item]
      exact (if_pos ((nameOf_rescored name list item).trans hname)).symm
    rw [hcut, hcut, h]
  · have hsame : ∀ list : List Json, rescored name list item = item := fun _ => if_neg hname
    rw [hsame, hsame]

-- In the end the profiles are the first ones with the scores.
theorem profiles_final {profile : Text} {scores : List Json}
    (h : ProfilesTowards packs (some profile) start items)
    (hfinal : items.map (rescored profile scores) = items) : items = start.map (rescored profile scores) := by
  rcases h.underway profile rfl with rfl | ⟨scores', rfl⟩
  · exact hfinal.symm
  · rw [map_rescored_rescored] at hfinal
    exact hfinal.symm

end Outcomes

section Servers

variable {desired : DesiredState} {hd : desired.grab.Distinct} {app : App} {start server other : Server}

theorem scores_of (cfs : List Json) (packs : List CustomFormatPack) (hids : ∀ item ∈ cfs, (idOf item).isSome)
    (hnames : ∀ name ∈ formatNames packs, some name ∈ cfs.map Json.nameOf) :
    Scores cfs (packScores packs) (scoreItems packs cfs) := by
  unfold Scores scoreItems
  rw [List.forall₂_map_right_iff]
  refine List.forall₂_same.mpr fun score hscore => ?_
  cases hnamed : named score.1 cfs with
  | none => exact absurd (hnames score.1 (List.mem_map_of_mem hscore)) (named_eq_none.mp hnamed)
  | some format =>
      obtain ⟨hformat, hname⟩ := named_some hnamed
      obtain ⟨id, hid⟩ := Option.isSome_iff_exists.mp (hids format hformat)
      refine ⟨format, hformat, id, hname, hid, ?_⟩
      rw [formatId, hnamed, Option.bind_some, hid, Option.getD_some]

theorem configured (hready : Ready desired app start) (h : Towards hd app start server)
    (hdone : Done hd app server) : Configured desired app start server := by
  have hafter := h.ready hready
  refine ⟨fun hne => ?_, fun hne => ?_, fun hpacks name hname => ?_, fun minutes hminutes item hitem => ?_⟩
  · exact named_configured hne h.indexers (hdone.indexers hne) hready.indexers
  · exact named_configured hne h.clients (hdone.clients hne) (hready.clients (media_of_clients hne))
  · have hmedia := media_of_packs hpacks
    refine ⟨hafter.profile hmedia name hname, fun item hitem hcalled => ⟨_, ?_, scores_of _ _ ?_ hdone.formats⟩⟩
    · have hfixed := hdone.profiles hpacks name hname
      have hself : rescored name (scoreItems (wantedPacks desired app) (server.items .CustomFormat)) item = item :=
        List.map_inj_left.mp (hfixed.trans (List.map_id _).symm) item hitem
      rw [← hself]
      exact get_rescored_items hcalled
    · exact (hafter.formats hmedia).ids
  · have hid := hafter.delayIds (media_of_delay (hminutes ▸ Option.some_ne_none minutes)) item hitem
    have hself : delayed minutes item = item :=
      List.map_inj_left.mp ((hdone.delays minutes hminutes).trans (List.map_id _).symm) item hitem
    have hget := fun key => hself ▸ (get_delayed hid key : (delayed minutes item).get key = _)
    refine ⟨?_, ?_, fun value hvalue => ?_⟩
    · rw [hget, if_pos (Or.inl rfl)]
    · rw [hget, if_pos (Or.inr (Or.inl rfl))]
    · have hpresent : (item.get delayKey).isSome := Option.isSome_iff_exists.mpr ⟨value, hvalue⟩
      have hsame := hvalue.symm.trans ((hget delayKey).trans (if_pos (Or.inr (Or.inr ⟨rfl, hpresent⟩))))
      exact Option.some.inj hsame

-- However often it was started again.
theorem alike (hready : Ready desired app start) (h : Towards hd app start server) (hdone : Done hd app server)
    (h' : Towards hd app start other) (hdone' : Done hd app other) : Alike server other := by
  refine ⟨h.hostConfig.trans h'.hostConfig.symm, h.applications.trans h'.applications.symm, ?_, ?_, ?_, ?_, ?_⟩
  · exact named_alike (fun _ => hready.indexers) h.indexers hdone.indexers h'.indexers hdone'.indexers
  · exact named_alike (fun hne => hready.clients (media_of_clients hne)) h.clients hdone.clients h'.clients
      hdone'.clients
  · exact formats_alike h.formats hdone.formats h'.formats hdone'.formats
  · by_cases hpacks : wantedPacks desired app = []
    · rw [h.profiles.unwanted (Or.inl hpacks), h'.profiles.unwanted (Or.inl hpacks)]
    · cases hprofile : wantedProfile desired with
      | none => rw [h.profiles.unwanted (Or.inr hprofile), h'.profiles.unwanted (Or.inr hprofile)]
      | some name =>
          rw [profiles_final (hprofile ▸ h.profiles) (hdone.profiles hpacks name hprofile),
            profiles_final (hprofile ▸ h'.profiles) (hdone'.profiles hpacks name hprofile),
            List.map_map, List.map_map]
          exact List.map_congr_left fun item _ => rescored_alike (scoreItems_alike _ _ _) item
  · cases hdelay : wantedDelay desired app with
    | none => rw [h.delays.unwanted hdelay, h'.delays.unwanted hdelay]
    | some minutes =>
        have hids := hready.delayIds (media_of_delay (hdelay ▸ Option.some_ne_none minutes))
        rw [← hdone.delays minutes hdelay, ← hdone'.delays minutes hdelay,
          (h.delays.underway minutes hdelay).map_delayed hids,
          (h'.delays.underway minutes hdelay).map_delayed hids]

theorem alike_refl (server : Server) : Alike server server :=
  ⟨rfl, rfl, List.Perm.refl _, List.Perm.refl _, List.Perm.refl _, rfl, rfl⟩

end Servers

section Converges

variable {desired : DesiredState} {hd : desired.grab.Distinct} {keys : Keys} {servers : App → Server}

-- Every run ends with all applications done, or was refused, or did not even begin.
theorem grabApply_run (hd : desired.grab.Distinct) (hgrabber : desired.grabber = .Servarr)
    (hready : ∀ app, keys app = true → Ready desired app (servers app)) (still : Prop)
    (hstill : still → ∀ app, keys app = true → Done hd app (servers app)) {moves : Nat → Move Net}
    (hmoves : Alone moves) (turn : Nat) :
    let ran := grabApply desired keys moves turn { servers }
    (∃ err, requireKeysForDesired desired keys = .error err ∧ ran.outcome = .Failed err ∧
        ran.world = { servers }) ∨
      (∃ checked, requireKeysForDesired desired keys = .ok checked) ∧ Between hd keys still servers ran.world ∧
        ((∃ report, ran.outcome = .Done report) ∧ (∀ app, keys app = true → Done hd app (ran.world.servers app)) ∨
          (∀ report, ran.outcome ≠ .Done report) ∧ Refused ran.world.log) := by
  intro ran
  cases hkeys : requireKeysForDesired desired keys with
  | error err =>
      have hran : ran = (throw err : Prog Net ControlError GrabApplyReport) moves turn { servers } := by
        show grabApply desired keys moves turn { servers } = _
        unfold grabApply
        rw [if_neg (not_not.mpr hgrabber), hkeys]
        rfl
      rw [hran]
      exact Or.inl ⟨err, rfl, rfl, rfl⟩
  | ok checked =>
      obtain ⟨hdone, hhalted⟩ := served_run (served_grabApply hgrabber hkeys hready hstill)
        (fun n => ⟨hmoves n, False.elim⟩) turn { servers } rfl
      refine Or.inr ⟨⟨checked, rfl⟩, ?_⟩
      by_cases hends : ∃ report, ran.outcome = .Done report
      · obtain ⟨report, hreport⟩ := hends
        obtain ⟨hbetween, hall⟩ := hdone report hreport
        exact ⟨hbetween, Or.inl ⟨⟨report, hreport⟩, hall⟩⟩
      · have hnone : ∀ report, ran.outcome ≠ .Done report := fun report hreport => hends ⟨report, hreport⟩
        obtain ⟨hbetween, hrefused⟩ := hhalted hnone
        exact ⟨hbetween, Or.inr ⟨hnone, hrefused⟩⟩

-- Where any number of failed runs leave the servers.
theorem failedRuns (hd : desired.grab.Distinct) (hgrabber : desired.grabber = .Servarr)
    (hready : ∀ app, keys app = true → Ready desired app (servers app)) {middle : App → Server}
    (h : Relation.TransGen (FailedRun desired keys) servers middle) :
    (∃ checked, requireKeysForDesired desired keys = .ok checked) ∧
      (∀ app, keys app = false → middle app = servers app) ∧
        ∀ app, keys app = true → Towards hd app (servers app) (middle app) := by
  have hstep : ∀ {before after : App → Server}, (∀ app, keys app = true → Ready desired app (before app)) →
      FailedRun desired keys before after →
      (∃ checked, requireKeysForDesired desired keys = .ok checked) ∧
        (∀ app, keys app = false → after app = before app) ∧
          ∀ app, keys app = true → Towards hd app (before app) (after app) := by
    rintro before _ hbefore ⟨moves, turn, hmoves, hrefused, rfl⟩
    rcases grabApply_run hd hgrabber hbefore False False.elim hmoves turn with
      ⟨err, -, -, hworld⟩ | ⟨hkeys, hbetween, -⟩
    · rw [hworld] at hrefused
      obtain ⟨exchange, hexchange, -⟩ := hrefused
      exact absurd hexchange List.not_mem_nil
    · exact ⟨hkeys, hbetween.unkeyed, hbetween.towards⟩
  induction h with
  | single h => exact hstep hready h
  | tail _ hrun ih =>
      obtain ⟨hkeys, hunkeyed, htowards⟩ := ih
      obtain ⟨-, hunkeyed', htowards'⟩ := hstep (fun app hkey => (htowards app hkey).ready (hready app hkey)) hrun
      refine ⟨hkeys, fun app hkey => (hunkeyed' app hkey).trans (hunkeyed app hkey), fun app hkey => ?_⟩
      exact (htowards app hkey).trans (hready app hkey) (htowards' app hkey)

-- A run that went through began with the keys it needs.
theorem applied_towards (hd : desired.grab.Distinct) (hgrabber : desired.grabber = .Servarr)
    (hready : ∀ app, keys app = true → Ready desired app (servers app)) {after : App → Server}
    (h : Applied desired keys servers after) :
    (∀ app, keys app = false → after app = servers app) ∧
      ∀ app, keys app = true → Towards hd app (servers app) (after app) ∧ Done hd app (after app) := by
  obtain ⟨moves, turn, report, hmoves, hreport, rfl⟩ := h
  rcases grabApply_run hd hgrabber hready False False.elim hmoves turn with
    ⟨err, -, hfailed, -⟩ | ⟨-, hbetween, ⟨-, hdone⟩ | ⟨hnone, -⟩⟩
  · rw [hreport] at hfailed
    cases hfailed
  · exact ⟨hbetween.unkeyed, fun app hkey => ⟨hbetween.towards app hkey, hdone app hkey⟩⟩
  · exact absurd hreport (hnone report)

-- Servers where nothing is left to do are not written.
theorem applied_again (hd : desired.grab.Distinct) (hgrabber : desired.grabber = .Servarr)
    (hready : ∀ app, keys app = true → Ready desired app (servers app))
    (hdone : ∀ app, keys app = true → Done hd app (servers app)) {moves : Nat → Move Net}
    (hmoves : Alone moves) (turn : Nat) :
    (grabApply desired keys moves turn { servers }).world.servers = servers ∧
      ReadOnly (grabApply desired keys moves turn { servers }).world.log := by
  rcases grabApply_run hd hgrabber hready True (fun _ => hdone) hmoves turn with
    ⟨err, -, -, hworld⟩ | ⟨-, hbetween, -⟩
  · rw [hworld]
    exact ⟨rfl, fun _ h => absurd h List.not_mem_nil⟩
  · exact hbetween.same trivial

-- A run that goes through configures the servers, and the next one writes nothing. Failed
-- runs before it make no difference but in ids, and it fails only at a request itself.
theorem grab_apply_converges {raw : DesiredStateToml} (hraw : fromToml raw = .ok desired)
    (hgrabber : desired.grabber = .Servarr) (keys : Keys) (servers : App → Server)
    (hready : ∀ app, keys app = true → Ready desired app (servers app)) :
    (∀ after, Applied desired keys servers after →
      (∀ app, keys app = true → Configured desired app (servers app) (after app)) ∧
        ∀ moves, Alone moves → ∀ turn,
          (grabApply desired keys moves turn { servers := after }).world.servers = after ∧
            ReadOnly (grabApply desired keys moves turn { servers := after }).world.log) ∧
    ∀ middle, Relation.TransGen (FailedRun desired keys) servers middle →
      (∀ moves, Alone moves → ∀ turn,
        ¬Refused (grabApply desired keys moves turn { servers := middle }).world.log →
          ∃ report, (grabApply desired keys moves turn { servers := middle }).outcome = .Done report) ∧
      ∀ final, Applied desired keys middle final →
        (∀ app, keys app = true → Configured desired app (servers app) (final app)) ∧
          ∀ after, Applied desired keys servers after → ∀ app, Alike (after app) (final app) := by
  have hd := fromToml_distinct hraw
  refine ⟨fun after hafter => ?_, fun middle hmiddle => ?_⟩
  · obtain ⟨-, hall⟩ := applied_towards hd hgrabber hready hafter
    refine ⟨fun app hkey => configured (hready app hkey) (hall app hkey).1 (hall app hkey).2, ?_⟩
    intro moves hmoves turn
    exact applied_again hd hgrabber (fun app hkey => (hall app hkey).1.ready (hready app hkey))
      (fun app hkey => (hall app hkey).2) hmoves turn
  · obtain ⟨⟨checked, hkeys⟩, hunkeyed, htowards⟩ := failedRuns hd hgrabber hready hmiddle
    have hagain : ∀ app, keys app = true → Ready desired app (middle app) := fun app hkey =>
      (htowards app hkey).ready (hready app hkey)
    refine ⟨fun moves hmoves turn hclean => ?_, fun final hfinal => ?_⟩
    · rcases grabApply_run hd hgrabber hagain False False.elim hmoves turn with
        ⟨err, herr, -, -⟩ | ⟨-, -, ⟨hreport, -⟩ | ⟨-, hrefused⟩⟩
      · rw [hkeys] at herr
        cases herr
      · exact hreport
      · exact absurd hrefused hclean
    · obtain ⟨hsame, hall⟩ := applied_towards hd hgrabber hagain hfinal
      have hwhole : ∀ app, keys app = true → Towards hd app (servers app) (final app) := fun app hkey =>
        (htowards app hkey).trans (hready app hkey) (hall app hkey).1
      refine ⟨fun app hkey => configured (hready app hkey) (hwhole app hkey) (hall app hkey).2, ?_⟩
      intro after hafter app
      obtain ⟨hsame', hdirect⟩ := applied_towards hd hgrabber hready hafter
      cases hkey : keys app with
      | false =>
          rw [hsame' app hkey, hsame app hkey, hunkeyed app hkey]
          exact alike_refl _
      | true =>
          exact alike (hready app hkey) (hdirect app hkey).1 (hdirect app hkey).2 (hwhole app hkey)
            (hall app hkey).2

end Converges

-- One application that lacks the client and the format, and has an indexer too many.
theorem sorted_apiKey : [("apiKey".toList, "k".toList)].Pairwise fun a b => a.1 < b.1 :=
  List.pairwise_singleton _ _

theorem sorted_none : ([] : List (Text × Text)).Pairwise fun a b => a.1 < b.1 := List.Pairwise.nil

theorem sorted_x265 : [("x265".toList, (-100 : Int32))].Pairwise fun a b => a.1 < b.1 :=
  List.pairwise_singleton _ _

def sampleIndexer : GrabIndexer where
  name := "nyaa"
  priority := 25
  app := "sonarr"
  implementation := "Torznab"
  fields := ⟨_, sorted_apiKey⟩

def sampleClient : GrabDownloadClient where
  name := "sab"
  priority := 1
  kind := .Sabnzbd
  fields := ⟨_, sorted_none⟩

def samplePack : CustomFormatPack where
  name := "pack"
  scores := ⟨_, sorted_x265⟩

def sampleToml : DesiredStateToml where
  grabber := .Servarr
  grab :=
    { indexers := [sampleIndexer]
      downloadClients := [sampleClient]
      customFormatPacks := [samplePack]
      policy := { delayMinutes := some 60, qualityProfile := some "HD".toList } }

def sampleState : DesiredState where
  grabber := sampleToml.grabber
  grab := sampleToml.grab
  edge := none

def sampleKeys : Keys := fun app => app = .Sonarr

def sampleServers (_ : App) : Server where
  hostConfig := .Object []
  items
    | .Indexer => [.Object [(idKey, Serde.ofNat 1), (Json.nameKey, .String "nyaa")],
        .Object [(idKey, Serde.ofNat 2), (Json.nameKey, .String "old")]]
    | .QualityProfile => [.Object [(idKey, Serde.ofNat 1), (Json.nameKey, .String "HD")]]
    | .DelayProfile => [.Object [(delayKey, Serde.ofNat 0), (idKey, Serde.ofNat 1)]]
    | _ => []

theorem ready_sample (app : App) (h : sampleKeys app = true) : Ready sampleState app (sampleServers app) := by
  have hsonarr : app = .Sonarr := of_decide_eq_true h
  subst hsonarr
  have hprofile : ∀ name, wantedProfile sampleState = some name →
      some name ∈ ((sampleServers .Sonarr).items .QualityProfile).map Json.nameOf := by
    rintro name ⟨⟩
    decide
  exact ⟨⟨by decide, by decide, by decide, by decide⟩, fun _ => ⟨by decide, by decide, by decide, by decide⟩,
    fun _ => ⟨by decide, by decide, by decide⟩, fun _ => ⟨by decide, by decide, by decide⟩, fun _ => hprofile,
    fun _ => by decide, fun _ => by decide, fun _ => by decide⟩

-- The eighth request is served and not answered.
def interrupted (n : Nat) : Move Net := if n = 7 then { fate := .Fails 6 } else {}

def uninterrupted (_ : Nat) : Move Net := {}

theorem failed_sample : FailedRun sampleState sampleKeys sampleServers
    (grabApply sampleState sampleKeys interrupted 0 { servers := sampleServers }).world.servers := by
  refine ⟨interrupted, 0, fun n => ?_, by decide, rfl⟩
  unfold interrupted
  split <;> rfl

theorem applied_sample : ∃ after, Applied sampleState sampleKeys sampleServers after :=
  ⟨_, uninterrupted, 0, _, fun _ => rfl, rfl, rfl⟩

theorem rerun_sample : ∃ final, Applied sampleState sampleKeys
    (grabApply sampleState sampleKeys interrupted 0 { servers := sampleServers }).world.servers final :=
  ⟨_, uninterrupted, 0, _, fun _ => rfl, rfl, rfl⟩

theorem grab_apply_converges_sample :
    ∃ middle after final, FailedRun sampleState sampleKeys sampleServers middle ∧
      Applied sampleState sampleKeys sampleServers after ∧ Applied sampleState sampleKeys middle final ∧
        Configured sampleState .Sonarr (sampleServers .Sonarr) (final .Sonarr) ∧
          Alike (after .Sonarr) (final .Sonarr) := by
  obtain ⟨after, hafter⟩ := applied_sample
  obtain ⟨final, hfinal⟩ := rerun_sample
  have hraw : fromToml sampleToml = .ok sampleState := rfl
  have h := (grab_apply_converges hraw rfl sampleKeys sampleServers ready_sample).2 _ (.single failed_sample)
  exact ⟨_, after, final, failed_sample, hafter, hfinal, (h.2 final hfinal).1 .Sonarr rfl,
    (h.2 final hfinal).2 after hafter .Sonarr⟩

end Mediaops.Arr
