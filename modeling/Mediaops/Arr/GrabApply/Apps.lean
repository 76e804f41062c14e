import Mediaops.Arr.GrabApply.Policies

namespace Mediaops.Arr

-- One application after the other: what a whole run does to the servers, and where it
-- may be when it ends early.

section Kinds

theorem keys_indexerMembers (spec : GrabIndexer) : (Json.keys (indexerMembers spec)).Sublist
    [Json.nameKey, priorityKey, enableKey, implementationKey, protocolKey, configContractKey] := by
  unfold indexerMembers
  cases spec.protocol <;> cases spec.configContract
  · exact (List.nil_sublist [protocolKey, configContractKey]).append_left
      [Json.nameKey, priorityKey, enableKey, implementationKey]
  · exact (List.sublist_cons_self protocolKey [configContractKey]).append_left
      [Json.nameKey, priorityKey, enableKey, implementationKey]
  · exact (List.sublist_append_left [protocolKey] [configContractKey]).append_left
      [Json.nameKey, priorityKey, enableKey, implementationKey]
  · exact List.Sublist.refl _

def indexerLawful : indexerKind.Lawful where
  members := indexerMembers
  fields := (·.fields)
  missing := "indexer missing name"
  body_eq _ _ := rfl
  fromValue_eq := rfl
  nodup spec := (by decide : [Json.nameKey, priorityKey, enableKey, implementationKey, protocolKey,
    configContractKey].Nodup).sublist (keys_indexerMembers spec)
  named _ := List.mem_cons_self
  noId spec h := absurd ((keys_indexerMembers spec).subset h) (by decide)
  noFields spec h := absurd ((keys_indexerMembers spec).subset h) (by decide)

theorem keys_clientMembers (spec : GrabDownloadClient) :
    Json.keys (clientMembers spec) = [Json.nameKey, priorityKey, enableKey, implementationKey] := rfl

def clientLawful : clientKind.Lawful where
  members := clientMembers
  fields := (·.fields)
  missing := "download client missing name"
  body_eq _ _ := rfl
  fromValue_eq := rfl
  nodup spec := by
    rw [keys_clientMembers]
    decide
  named _ := List.mem_cons_self
  noId spec := by
    rw [keys_clientMembers]
    decide
  noFields spec := by
    rw [keys_clientMembers]
    decide

theorem posts_client : clientKind.Posts := by
  intro app others still I Q A map name _ hopen hQ hafter
  apply Runs.mapError
  apply scene_mono (scene_postAll (A := fun _ => A) hopen (fun items hq => (hQ items hq).1) hafter) fun _ h => h
  exact fun _ _ h => h

-- The list is read once more before the post, and has no object of that name.
theorem posts_indexer : indexerKind.Posts := by
  intro app others still I Q A map name hname hopen hQ hafter
  show Scene.Runs _ I Q (postIndexer app (.Object map)) _
  unfold postIndexer
  rw [hname, Option.getD_some]
  apply scene_bind (A := fun live items => (live.any fun idx => idx.name = name) = false ∧ Q items)
  · apply scene_bind (scene_getAll fun items hq => (hQ items hq).1)
    intro value
    have hread : ∀ items, Listed items → value = .Array items →
        identitiesFromArray indexerFromValue value = .ok (items.map identOf) := by
      rintro items hlisted rfl
      exact identities_listed hlisted
    intro past net hnet
    obtain ⟨items, hservers, ⟨hvalue, hq⟩, hlog⟩ := hnet
    obtain ⟨-, hlisted, hnew⟩ := hQ items hq
    rw [hread items hlisted hvalue]
    refine wp_pure ⟨items, hservers, ⟨?_, hq⟩, hlog⟩
    rw [List.any_eq_false]
    intro idx hidx
    obtain ⟨item, hitem, rfl⟩ := List.mem_map.mp hidx
    obtain ⟨other, hother⟩ := Option.isSome_iff_exists.mp (hlisted.named item hitem)
    have hne : other ≠ name := fun hsame =>
      hnew (List.mem_map.mpr ⟨item, hitem, hsame ▸ hother⟩)
    simpa [identOf, hother] using hne
  · intro live
    apply scene_of_pre fun _ h => h.1
    intro hnone
    rw [if_neg (by simp [hnone])]
    apply Runs.mapError
    apply scene_mono (scene_postAll (A := fun _ => A) hopen (fun items hq => (hQ items hq.2).1)
      fun items id hq => hafter items id hq.2) fun _ h => h
    exact fun _ _ h => h

end Kinds

-- What is wanted of one application.
def wantedClients (desired : DesiredState) (app : App) : List GrabDownloadClient :=
  if app.media then desired.grab.downloadClients else []

def wantedPacks (desired : DesiredState) (app : App) : List CustomFormatPack :=
  if app.media then desired.grab.customFormatPacks else []

def wantedProfile (desired : DesiredState) : Option Text := desired.grab.policy.qualityProfile

def wantedDelay (desired : DesiredState) (app : App) : Option UInt32 :=
  if app.media then desired.grab.policy.delayMinutes else none

def formatNames (packs : List CustomFormatPack) : List Text := (packScores packs).map Prod.fst

section Towards

variable {α : Type} {kind : Kind α}

structure NamedTowards (lawful : kind.Lawful) (want : List α) (hdistinct : (want.map kind.name).Nodup)
    (start items : List Json) : Prop where
  unwanted : want = [] → items = start
  underway : want ≠ [] → Underway lawful hdistinct False start items

structure ProfilesTowards (packs : List CustomFormatPack) (profile : Option Text)
    (start items : List Json) : Prop where
  unwanted : packs = [] ∨ profile = none → items = start
  underway : ∀ name, profile = some name → items = start ∨ ∃ scores, items = start.map (rescored name scores)

variable {lawful : kind.Lawful} {want : List α} {hdistinct : (want.map kind.name).Nodup}
  {start middle items : List Json}

theorem namedTowards_refl (h : want ≠ [] → Listed start) : NamedTowards lawful want hdistinct start start :=
  ⟨fun _ => rfl, fun hne => ⟨Relation.ReflTransGen.refl, h hne, fun _ => rfl⟩⟩

theorem NamedTowards.trans (h : NamedTowards lawful want hdistinct start middle)
    (h' : NamedTowards lawful want hdistinct middle items) : NamedTowards lawful want hdistinct start items := by
  refine ⟨fun hnil => (h'.unwanted hnil).trans (h.unwanted hnil), fun hne => ?_⟩
  exact ⟨(h.underway hne).reaches.trans (h'.underway hne).reaches, (h'.underway hne).listed, False.elim⟩

theorem NamedTowards.listed (h : NamedTowards lawful want hdistinct start items) (hstart : Listed start) :
    Listed items := by
  by_cases hnil : want = []
  · rw [h.unwanted hnil]
    exact hstart
  · exact (h.underway hnil).listed

theorem get_rescored {name : Text} {scores : List Json} {key : Text} (hkey : key ≠ formatItemsKey)
    (item : Json) : (rescored name scores item).get key = item.get key := by
  unfold rescored
  split
  · cases hset : Json.set formatItemsKey (.Array scores) item with
    | none => rfl
    | some after => rw [Option.getD_some, Json.get_set hset, if_neg (Ne.symm hkey)]
  · rfl

theorem nameOf_rescored (name : Text) (scores : List Json) (item : Json) :
    Json.nameOf (rescored name scores item) = Json.nameOf item := by
  rw [Json.nameOf, get_rescored (by decide), Json.nameOf]

theorem idOf_rescored (name : Text) (scores : List Json) (item : Json) :
    idOf (rescored name scores item) = idOf item := by
  rw [idOf, get_rescored (by decide), idOf]

theorem rescored_rescored (name : Text) (scores scores' : List Json) (item : Json) :
    rescored name scores' (rescored name scores item) = rescored name scores' item := by
  by_cases hname : Json.nameOf item = some name
  · have hfirst : rescored name scores item = (Json.set formatItemsKey (.Array scores) item).getD item :=
      if_pos hname
    have hsecond : rescored name scores' (rescored name scores item) =
        (Json.set formatItemsKey (.Array scores') (rescored name scores item)).getD
          (rescored name scores item) := if_pos ((nameOf_rescored name scores item).trans hname)
    have hdirect : rescored name scores' item = (Json.set formatItemsKey (.Array scores') item).getD item :=
      if_pos hname
    obtain ⟨map, rfl⟩ := object_of_name hname
    rw [hsecond, hfirst, hdirect]
    show Json.Object (Json.assign _ _ (Json.assign _ _ map)) = Json.Object (Json.assign _ _ map)
    rw [Json.assign_assign]
  · have hsame : rescored name scores item = item := if_neg hname
    rw [hsame]

theorem map_rescored_rescored (name : Text) (scores scores' : List Json) (items : List Json) :
    (items.map (rescored name scores)).map (rescored name scores') = items.map (rescored name scores') := by
  rw [List.map_map]
  exact List.map_congr_left fun item _ => rescored_rescored name scores scores' item

theorem ProfilesTowards.trans {packs : List CustomFormatPack} {profile : Option Text}
    (h : ProfilesTowards packs profile start middle) (h' : ProfilesTowards packs profile middle items) :
    ProfilesTowards packs profile start items := by
  refine ⟨fun hnone => (h'.unwanted hnone).trans (h.unwanted hnone), fun name hname => ?_⟩
  rcases h.underway name hname with rfl | ⟨scores, rfl⟩
  · exact h'.underway name hname
  · rcases h'.underway name hname with rfl | ⟨scores', rfl⟩
    · exact Or.inr ⟨scores, rfl⟩
    · exact Or.inr ⟨scores', map_rescored_rescored name scores scores' start⟩

theorem ProfilesTowards.numbered {packs : List CustomFormatPack} {profile : Option Text}
    (h : ProfilesTowards packs profile start items) (hstart : Numbered start) : Numbered items := by
  cases hprofile : profile with
  | none =>
      rw [h.unwanted (Or.inr hprofile)]
      exact hstart
  | some name =>
      rcases h.underway name hprofile with rfl | ⟨scores, rfl⟩
      · exact hstart
      · refine ⟨?_, ?_, ?_⟩
        · intro item hitem
          obtain ⟨old, hold, rfl⟩ := List.mem_map.mp hitem
          rw [idOf_rescored]
          exact hstart.ids old hold
        · rw [List.filterMap_map]
          refine Eq.mpr (congrArg List.Nodup (List.filterMap_congr fun item _ => ?_)) hstart.distinct
          exact idOf_rescored name scores item
        · rw [List.filterMap_map]
          refine Eq.mpr (congrArg List.Nodup (List.filterMap_congr fun item _ => ?_)) hstart.names
          exact nameOf_rescored name scores item

theorem ProfilesTowards.names {packs : List CustomFormatPack} {profile : Option Text}
    (h : ProfilesTowards packs profile start items) : items.map Json.nameOf = start.map Json.nameOf := by
  cases hprofile : profile with
  | none => rw [h.unwanted (Or.inr hprofile)]
  | some name =>
      rcases h.underway name hprofile with rfl | ⟨scores, rfl⟩
      · rfl
      · rw [List.map_map]
        exact List.map_congr_left fun item _ => nameOf_rescored name scores item

structure FormatsTowards (packs : List CustomFormatPack) (start items : List Json) : Prop where
  unwanted : packs = [] → items = start
  underway : packs ≠ [] → FormatsFrom (formatNames packs) start items

theorem formatsTowards_refl {packs : List CustomFormatPack} (h : packs ≠ [] → Numbered start) :
    FormatsTowards packs start start :=
  ⟨fun _ => rfl, fun hne => formatsFrom_refl (h hne)⟩

theorem FormatsTowards.trans {packs : List CustomFormatPack} (h : FormatsTowards packs start middle)
    (h' : FormatsTowards packs middle items) : FormatsTowards packs start items :=
  ⟨fun hnil => (h'.unwanted hnil).trans (h.unwanted hnil), fun hne => (h.underway hne).trans (h'.underway hne)⟩

structure DelaysTowards (delay : Option UInt32) (start items : List Json) : Prop where
  unwanted : delay = none → items = start
  underway : ∀ minutes, delay = some minutes → DelaysFrom minutes start items

theorem delaysTowards_refl {delay : Option UInt32} : DelaysTowards delay start start :=
  ⟨fun _ => rfl, fun _ _ => delaysFrom_refl start⟩

theorem DelaysTowards.trans {delay : Option UInt32} (h : DelaysTowards delay start middle)
    (h' : DelaysTowards delay middle items) (hids : delay ≠ none → ∀ item ∈ start, (idOf item).isSome) :
    DelaysTowards delay start items := by
  refine ⟨fun hnone => (h'.unwanted hnone).trans (h.unwanted hnone), fun minutes hminutes => ?_⟩
  exact (h.underway minutes hminutes).trans (h'.underway minutes hminutes)
    (hids (hminutes ▸ Option.some_ne_none minutes))

theorem DelaysTowards.ids {delay : Option UInt32} (h : DelaysTowards delay start items)
    (hids : delay ≠ none → ∀ item ∈ start, (idOf item).isSome) : items.map idOf = start.map idOf := by
  cases hdelay : delay with
  | none => rw [h.unwanted hdelay]
  | some minutes => exact (h.underway minutes hdelay).ids (hids (hdelay ▸ Option.some_ne_none minutes))

end Towards

section Servers

variable {desired : DesiredState} (hd : desired.grab.Distinct) (app : App)

include hd in
theorem distinct_clients : ((wantedClients desired app).map clientKind.name).Nodup := by
  unfold wantedClients
  by_cases hmedia : app.media = true
  · rw [if_pos hmedia]
    exact hd.downloadClients
  · rw [if_neg hmedia]
    exact List.nodup_nil

-- What the application's server must be like for its part to be applied.
structure Ready (desired : DesiredState) (app : App) (server : Server) : Prop where
  indexers : Listed (server.items .Indexer)
  clients : app.media = true → Listed (server.items .DownloadClient)
  formats : app.media = true → Numbered (server.items .CustomFormat)
  profiles : app.media = true → Numbered (server.items .QualityProfile)
  profile : app.media = true → ∀ name, wantedProfile desired = some name →
    some name ∈ (server.items .QualityProfile).map Json.nameOf
  delayIds : app.media = true → ∀ item ∈ server.items .DelayProfile, (idOf item).isSome
  delaysDistinct : app.media = true → ((server.items .DelayProfile).filterMap idOf).Nodup
  delays : app.media = true → server.items .DelayProfile ≠ []

-- A server on its way from `before`.
structure Towards (before after : Server) : Prop where
  hostConfig : after.hostConfig = before.hostConfig
  applications : after.items .Applications = before.items .Applications
  indexers : NamedTowards indexerLawful (wantedIndexers desired app) (hd.indexers_of_app app.name)
    (before.items .Indexer) (after.items .Indexer)
  clients : NamedTowards clientLawful (wantedClients desired app) (distinct_clients hd app)
    (before.items .DownloadClient) (after.items .DownloadClient)
  formats : FormatsTowards (wantedPacks desired app) (before.items .CustomFormat) (after.items .CustomFormat)
  profiles : ProfilesTowards (wantedPacks desired app) (wantedProfile desired)
    (before.items .QualityProfile) (after.items .QualityProfile)
  delays : DelaysTowards (wantedDelay desired app) (before.items .DelayProfile) (after.items .DelayProfile)

-- A server where nothing is left to do.
structure Done (server : Server) : Prop where
  indexers : wantedIndexers desired app ≠ [] →
    (plan indexerLawful (wantedIndexers desired app) (hd.indexers_of_app app.name)).Settled
      (server.items .Indexer)
  clients : wantedClients desired app ≠ [] →
    (plan clientLawful (wantedClients desired app) (distinct_clients hd app)).Settled
      (server.items .DownloadClient)
  formats : ∀ name ∈ formatNames (wantedPacks desired app),
    some name ∈ (server.items .CustomFormat).map Json.nameOf
  profiles : wantedPacks desired app ≠ [] → ∀ name, wantedProfile desired = some name →
    (server.items .QualityProfile).map (rescored name (scoreItems (wantedPacks desired app)
      (server.items .CustomFormat))) = server.items .QualityProfile
  delays : ∀ minutes, wantedDelay desired app = some minutes →
    (server.items .DelayProfile).map (delayed minutes) = server.items .DelayProfile

variable {hd app} {before middle after : Server}

theorem media_of_clients (h : wantedClients desired app ≠ []) : app.media = true := by
  by_contra hother
  exact h (if_neg hother)

theorem media_of_packs (h : wantedPacks desired app ≠ []) : app.media = true := by
  by_contra hother
  exact h (if_neg hother)

theorem media_of_delay (h : wantedDelay desired app ≠ none) : app.media = true := by
  by_contra hother
  exact h (if_neg hother)

theorem towards_refl (h : Ready desired app before) : Towards hd app before before where
  hostConfig := rfl
  applications := rfl
  indexers := namedTowards_refl fun _ => h.indexers
  clients := namedTowards_refl fun hne => h.clients (media_of_clients hne)
  formats := formatsTowards_refl fun hne => h.formats (media_of_packs hne)
  profiles := ⟨fun _ => rfl, fun _ _ => Or.inl rfl⟩
  delays := delaysTowards_refl

theorem Towards.trans (hready : Ready desired app before) (h : Towards hd app before middle)
    (h' : Towards hd app middle after) : Towards hd app before after where
  hostConfig := h'.hostConfig.trans h.hostConfig
  applications := h'.applications.trans h.applications
  indexers := h.indexers.trans h'.indexers
  clients := h.clients.trans h'.clients
  formats := h.formats.trans h'.formats
  profiles := h.profiles.trans h'.profiles
  delays := h.delays.trans h'.delays fun hne => hready.delayIds (media_of_delay hne)

-- A run that was stopped leaves a server that the next one can start from.
theorem Towards.ready (h : Towards hd app before after) (hready : Ready desired app before) :
    Ready desired app after := by
  have hids : app.media = true → (after.items .DelayProfile).map idOf = (before.items .DelayProfile).map idOf :=
    fun hmedia => h.delays.ids fun _ => hready.delayIds hmedia
  refine ⟨h.indexers.listed hready.indexers, fun hmedia => h.clients.listed (hready.clients hmedia), ?_,
    fun hmedia => h.profiles.numbered (hready.profiles hmedia), ?_, ?_, ?_, ?_⟩
  · intro hmedia
    by_cases hnil : wantedPacks desired app = []
    · rw [h.formats.unwanted hnil]
      exact hready.formats hmedia
    · exact (h.formats.underway hnil).numbered
  · intro hmedia name hname
    rw [h.profiles.names]
    exact hready.profile hmedia name hname
  · intro hmedia item hitem
    have hmem : idOf item ∈ (before.items .DelayProfile).map idOf := hids hmedia ▸ List.mem_map_of_mem hitem
    obtain ⟨old, hold, hsame⟩ := List.mem_map.mp hmem
    exact hsame ▸ hready.delayIds hmedia old hold
  · intro hmedia
    have hdistinct := hready.delaysDistinct hmedia
    have hsame := congrArg (List.filterMap id) (hids hmedia)
    rw [List.filterMap_map, List.filterMap_map] at hsame
    exact Eq.mpr (congrArg List.Nodup hsame) hdistinct
  · intro hmedia hnil
    have hsame := hids hmedia
    rw [hnil] at hsame
    exact hready.delays hmedia (List.map_eq_nil_iff.mp hsame.symm)

end Servers

end Mediaops.Arr
