import Mediaops.Arr.GrabApply.Apps

namespace Mediaops.Arr

-- The parts of `applyApp`, each on the whole server of the application.

structure AppScene where
  app : App
  others : App → Server
  still : Prop

namespace AppScene

variable (scene : AppScene)

def At (Q : Server → Prop) (net : Net) : Prop :=
  ∃ server, net.servers = Function.update scene.others scene.app server ∧ Q server ∧
    (scene.still → ReadOnly net.log)

abbrev Runs {ε α : Type} (J Q : Server → Prop) (m : Prog Net ε α) (A : α → Server → Prop) : Prop :=
  Served False (scene.At Q) m (fun a => scene.At (A a)) fun net => scene.At J net ∧ Refused net.log

end AppScene

section Rules

variable {scene : AppScene} {ε α β : Type} {J Q : Server → Prop}

theorem app_pure {a : α} {A : α → Server → Prop} (h : ∀ server, Q server → A a server) :
    scene.Runs J Q (pure a : Prog Net ε α) A :=
  runs_pure fun _ ⟨server, hnet, hq, hlog⟩ => ⟨server, hnet, h server hq, hlog⟩

theorem app_bind {m : Prog Net ε α} {f : α → Prog Net ε β} {A : α → Server → Prop}
    {B : β → Server → Prop} (h : scene.Runs J Q m A) (hf : ∀ a, scene.Runs J (A a) (f a) B) :
    scene.Runs J Q (m >>= f) B :=
  Runs.bind h hf

theorem app_mono {J' Q' : Server → Prop} {m : Prog Net ε α} {A A' : α → Server → Prop}
    (h : scene.Runs J Q m A) (hhalt : ∀ server, J server → J' server) (hpre : ∀ server, Q' server → Q server)
    (hpost : ∀ a server, A a server → A' a server) : scene.Runs J' Q' m A' :=
  h.mono (fun _ ⟨server, hnet, hq, hlog⟩ => ⟨server, hnet, hpre server hq, hlog⟩)
    (fun a _ ⟨server, hnet, ha, hlog⟩ => ⟨server, hnet, hpost a server ha, hlog⟩)
    fun _ ⟨⟨server, hnet, hj, hlog⟩, hrefused⟩ => ⟨⟨server, hnet, hhalt server hj, hlog⟩, hrefused⟩

-- A part that is known from each server alone.
theorem app_each {m : Prog Net ε α} {A : α → Server → Prop}
    (h : ∀ server, Q server → scene.Runs J (· = server) m A) : scene.Runs J Q m A := by
  rintro past net ⟨server, hnet, hq, hlog⟩
  exact h server hq past net ⟨server, hnet, rfl, hlog⟩

-- What a part does to one list it does to the server.
theorem app_list {resource : Resource} {server : Server} {I P : List Json → Prop}
    {m : Prog Net ε α} {A : α → List Json → Prop}
    (h : Scene.Runs ⟨scene.app, resource, Function.update scene.others scene.app server, scene.still⟩ I P m A)
    (hstart : P (server.items resource)) :
    scene.Runs (fun after => ∃ items, after = server.put resource items ∧ I items) (· = server) m
      fun a after => ∃ items, after = server.put resource items ∧ A a items := by
  have hservers : ∀ items,
      Scene.servers ⟨scene.app, resource, Function.update scene.others scene.app server, scene.still⟩ items =
        Function.update scene.others scene.app (server.put resource items) := by
    intro items
    simp [Scene.servers]
  refine h.mono ?_ ?_ ?_
  · rintro net ⟨_, hnet, rfl, hlog⟩
    refine ⟨_, ?_, hstart, hlog⟩
    rw [hnet, hservers, Server.put_self]
  · rintro a net ⟨items, hnet, ha, hlog⟩
    exact ⟨_, hnet.trans (hservers items), ⟨items, rfl, ha⟩, hlog⟩
  · rintro net ⟨⟨items, hnet, hi, hlog⟩, hrefused⟩
    exact ⟨⟨_, hnet.trans (hservers items), ⟨items, rfl, hi⟩, hlog⟩, hrefused⟩

theorem app_getAll {resource : Resource} {server : Server} (hj : J server) :
    scene.Runs J (· = server) (getJson scene.app (.All resource))
      fun value after => value = .Array (server.items resource) ∧ after = server := by
  have hget : Scene.Runs ⟨scene.app, resource, Function.update scene.others scene.app server, scene.still⟩
      (· = server.items resource) (· = server.items resource)
      (getJson scene.app (.All resource) : Prog Net ArrError Json)
      fun value items => value = .Array items ∧ items = server.items resource :=
    scene_getAll fun _ h => h
  apply app_mono (app_list (P := (· = server.items resource)) hget rfl) ?_ (fun _ h => h) ?_
  · rintro after ⟨_, rfl, rfl⟩
    rwa [Server.put_self]
  · rintro value after ⟨_, rfl, rfl, rfl⟩
    exact ⟨rfl, Server.put_self server _⟩

end Rules

section Parts

variable {desired : DesiredState} {hd : desired.grab.Distinct} {app : App} {others : App → Server}
  {still : Prop} {before server after : Server}

-- How far the server is, and that it stays where nothing is left to do.
structure Moved (hd : desired.grab.Distinct) (app : App) (still : Prop) (before after : Server) : Prop where
  towards : Towards hd app before after
  same : still → after = before

theorem moved_refl (h : Ready desired app server) : Moved hd app still server server :=
  ⟨towards_refl h, fun _ => rfl⟩

theorem Moved.trans (hready : Ready desired app before) (h : Moved hd app still before server)
    (h' : Moved hd app still server after) : Moved hd app still before after :=
  ⟨h.towards.trans hready h'.towards, fun hs => (h'.same hs).trans (h.same hs)⟩

-- One part of an application's run, which changes these lists and brings about `A`.
abbrev Part (hd : desired.grab.Distinct) (app : App) (others : App → Server) (still : Prop) (server : Server)
    (changed : List Resource) (m : Prog Net ControlError (List Text)) (A : Server → Prop) : Prop :=
  AppScene.Runs ⟨app, others, still⟩ (Moved hd app still server) (· = server) m fun _ after =>
    (Moved hd app still server after ∧ ∀ resource ∉ changed, after.items resource = server.items resource) ∧
      A after

-- The next part starts where the last one ended.
theorem part_next {changed : List Resource} {m : Prog Net ControlError (List Text)} {P A B : Server → Prop}
    (hready : Ready desired app before) (hstill : still → Done hd app before)
    (h : ∀ server, Ready desired app server → (still → Done hd app server) →
      Part hd app others still server changed m A)
    (hkeep : ∀ server after, (∀ resource ∉ changed, after.items resource = server.items resource) →
      P server → A after → B after) :
    AppScene.Runs ⟨app, others, still⟩ (Moved hd app still before)
      (fun server => Moved hd app still before server ∧ P server) m
      fun _ after => Moved hd app still before after ∧ B after := by
  apply app_each
  rintro server ⟨hmoved, hp⟩
  have hdone : still → Done hd app server := fun hs => (hmoved.same hs).symm ▸ hstill hs
  apply app_mono (h server (hmoved.towards.ready hready) hdone) ?_ fun _ h => h
  · rintro _ after ⟨⟨hafter, hrest⟩, ha⟩
    exact ⟨hmoved.trans hready hafter, hkeep server after hrest hp ha⟩
  · exact fun after hafter => hmoved.trans hready hafter

theorem put_same {resource : Resource} {items : List Json} (h : items = server.items resource) :
    server.put resource items = server := by
  rw [h, Server.put_self]

theorem items_put_rest {resource : Resource} {items : List Json} :
    ∀ other ∉ [resource], (server.put resource items).items other = server.items other :=
  fun _ hother => Server.items_put_of_ne server (fun hsame => hother (List.mem_singleton.mpr hsame)) items

theorem part_indexers (hready : Ready desired app server) (hstill : still → Done hd app server) :
    Part hd app others still server [.Indexer] (applyIndexers app desired) fun after =>
      wantedIndexers desired app ≠ [] →
        (plan indexerLawful (wantedIndexers desired app) (hd.indexers_of_app app.name)).Settled
          (after.items .Indexer) := by
  have hmoved : ∀ items, (wantedIndexers desired app = [] → items = server.items .Indexer) →
      Underway indexerLawful (hd.indexers_of_app app.name) still (server.items .Indexer) items →
      Moved hd app still server (server.put .Indexer items) := by
    intro items hnil hunderway
    have hrefl : Towards hd app server server := towards_refl hready
    refine ⟨{ hrefl with indexers := ⟨hnil, fun _ => ?_⟩ }, fun hs => put_same (hunderway.same hs)⟩
    exact ⟨hunderway.reaches, hunderway.listed, False.elim⟩
  have hunderway : Underway indexerLawful (hd.indexers_of_app app.name) still (server.items .Indexer)
      (server.items .Indexer) := ⟨Relation.ReflTransGen.refl, hready.indexers, fun _ => rfl⟩
  have hscene : (indexerKind.scene app (Function.update others app server) still).Runs _ _
      (applyNamed indexerKind app (wantedIndexers desired app)) _ :=
    scene_applyNamed posts_indexer (fun hs hne => (hstill hs).indexers hne) hready.indexers
  apply app_mono (app_list (P := (· = server.items .Indexer)) hscene rfl) ?_ (fun _ h => h) ?_
  · rintro after ⟨items, rfl, hnil, hunderway⟩
    exact hmoved items hnil hunderway
  · rintro _ after ⟨items, rfl, hnil, hunderway, hsettled⟩
    exact ⟨⟨hmoved items hnil hunderway, items_put_rest⟩, hsettled⟩

theorem part_clients (hmedia : app.media = true) (hready : Ready desired app server)
    (hstill : still → Done hd app server) :
    Part hd app others still server [.DownloadClient] (applyDownloadClients app desired) fun after =>
      wantedClients desired app ≠ [] →
        (plan clientLawful (wantedClients desired app) (distinct_clients hd app)).Settled
          (after.items .DownloadClient) := by
  have hwant : desired.grab.downloadClients = wantedClients desired app := (if_pos hmedia).symm
  have hmoved : ∀ items, (wantedClients desired app = [] → items = server.items .DownloadClient) →
      Underway clientLawful (distinct_clients hd app) still (server.items .DownloadClient) items →
      Moved hd app still server (server.put .DownloadClient items) := by
    intro items hnil hunderway
    have hrefl : Towards hd app server server := towards_refl hready
    refine ⟨{ hrefl with clients := ⟨hnil, fun _ => ?_⟩ }, fun hs => put_same (hunderway.same hs)⟩
    exact ⟨hunderway.reaches, hunderway.listed, False.elim⟩
  have hscene : (clientKind.scene app (Function.update others app server) still).Runs _ _
      (applyNamed clientKind app (wantedClients desired app)) _ :=
    scene_applyNamed posts_client (fun hs hne => (hstill hs).clients hne) (hready.clients hmedia)
  unfold applyDownloadClients
  rw [hwant]
  apply app_mono (app_list (P := (· = server.items .DownloadClient)) hscene rfl) ?_ (fun _ h => h) ?_
  · rintro after ⟨items, rfl, hnil, hunderway⟩
    exact hmoved items hnil hunderway
  · rintro _ after ⟨items, rfl, hnil, hunderway, hsettled⟩
    exact ⟨⟨hmoved items hnil hunderway, items_put_rest⟩, hsettled⟩

theorem part_policy (hmedia : app.media = true) (hready : Ready desired app server)
    (hstill : still → Done hd app server) :
    Part hd app others still server [.DelayProfile] (applyPolicy app desired) fun after =>
      ∀ minutes, wantedDelay desired app = some minutes →
        (after.items .DelayProfile).map (delayed minutes) = after.items .DelayProfile := by
  have hwant : desired.grab.policy.delayMinutes = wantedDelay desired app := (if_pos hmedia).symm
  unfold applyPolicy
  rw [hwant]
  cases hdelay : wantedDelay desired app with
  | none =>
      apply app_pure
      rintro _ rfl
      exact ⟨⟨moved_refl hready, fun _ _ => rfl⟩, fun _ h => absurd h (Option.some_ne_none _).symm⟩
  | some minutes =>
      have hmoved : ∀ items, DelaysFrom minutes (server.items .DelayProfile) items →
          (still → items = server.items .DelayProfile) →
          Moved hd app still server (server.put .DelayProfile items) := by
        intro items hfrom hsame
        have hrefl : Towards hd app server server := towards_refl hready
        refine ⟨{ hrefl with delays := ⟨fun hnone => ?_, fun other hother => ?_⟩ }, fun hs => put_same (hsame hs)⟩
        · rw [hdelay] at hnone
          cases hnone
        · obtain rfl := Option.some.inj (hdelay.symm.trans hother)
          exact hfrom
      have hscene : (delayScene app (Function.update others app server) still).Runs _ _
          (forEach (applyDelay app minutes) (server.items .DelayProfile)) _ :=
        scene_applyDelays (hready.delayIds hmedia) (hready.delaysDistinct hmedia)
          fun hs => (hstill hs).delays minutes hdelay
      apply app_bind (A := fun value after => value = .Array (server.items .DelayProfile) ∧ after = server)
      · exact Runs.mapError (app_getAll (moved_refl hready))
      · intro value
        apply Runs.of_pre (p := value = .Array (server.items .DelayProfile)) fun _ ⟨_, _, h, _⟩ => h.1
        rintro rfl
        simp only [Json.asArray, List.isEmpty_iff, if_neg (hready.delays hmedia)]
        apply app_mono (app_list (P := (· = server.items .DelayProfile)) hscene rfl) ?_ (fun _ h => h.2) ?_
        · rintro after ⟨items, rfl, hfrom, hsame⟩
          exact hmoved items hfrom hsame
        · rintro _ after ⟨items, rfl, rfl, hsame⟩
          refine ⟨⟨hmoved _ ?_ hsame, items_put_rest⟩, ?_⟩
          · have hall : DelaysFrom minutes (server.items .DelayProfile ++ [])
                ((server.items .DelayProfile).map (delayed minutes) ++ []) := delaysFrom_split
            simpa using hall
          · rintro _ ⟨⟩
            rw [Server.items_put, List.map_map]
            exact List.map_congr_left fun item hitem => delayed_delayed (hready.delayIds hmedia item hitem)

-- Where the formats are, in the middle of the packs.
structure FormatsIn (desired : DesiredState) (app : App) (known : List Json) (after : Server) : Prop where
  items_eq : after.items .CustomFormat = known
  ids : ∀ item ∈ known, (idOf item).isSome
  names : ∀ name ∈ formatNames (wantedPacks desired app), some name ∈ known.map Json.nameOf

theorem part_formats (hmedia : app.media = true) (hready : Ready desired app server)
    (hstill : still → Done hd app server) (hpacks : wantedPacks desired app ≠ []) :
    AppScene.Runs ⟨app, others, still⟩ (Moved hd app still server) (· = server)
      (applyFormats app (formatNames (wantedPacks desired app)) (server.items .CustomFormat))
      fun result after => (Moved hd app still server after ∧
        ∀ resource ∉ [Resource.CustomFormat], after.items resource = server.items resource) ∧
          FormatsIn desired app result.2 after := by
  have hmoved : ∀ items, FormatsFrom (formatNames (wantedPacks desired app)) (server.items .CustomFormat) items →
      (still → items = server.items .CustomFormat) →
      Moved hd app still server (server.put .CustomFormat items) := by
    intro items hfrom hsame
    have hrefl : Towards hd app server server := towards_refl hready
    refine ⟨{ hrefl with formats := ⟨fun hnil => absurd hnil hpacks, fun _ => hfrom⟩ }, fun hs => ?_⟩
    exact put_same (hsame hs)
  have hscene : (formatScene app (Function.update others app server) still).Runs _ _
      (applyFormats app (formatNames (wantedPacks desired app)) (server.items .CustomFormat)) _ :=
    scene_applyFormats (fun hs => (hstill hs).formats) fun _ h => h
  have hstart : FormatsFrom (formatNames (wantedPacks desired app)) (server.items .CustomFormat) _ :=
    formatsFrom_refl (hready.formats hmedia)
  apply app_mono (app_list hscene ⟨rfl, hstart, fun _ => rfl⟩) ?_ (fun _ h => h) ?_
  · rintro after ⟨items, rfl, hfrom, hsame⟩
    exact hmoved items hfrom hsame
  · rintro ⟨diffs, known⟩ after ⟨items, rfl, rfl, hfrom, hsame, hnames, -⟩
    exact ⟨⟨hmoved items hfrom hsame, items_put_rest⟩, Server.items_put _ _ _, hfrom.numbered.ids, hnames⟩

theorem part_scores (hmedia : app.media = true) (hready : Ready desired app server)
    (hstill : still → Done hd app server) (hpacks : wantedPacks desired app ≠ []) {profile : Text}
    (hprofile : wantedProfile desired = some profile) {known : List Json} (hin : FormatsIn desired app known server) :
    Part hd app others still server [.QualityProfile]
      (applyQualityProfileScores app profile (wantedPacks desired app) known) fun after =>
        (after.items .QualityProfile).map (rescored profile (scoreItems (wantedPacks desired app)
          (server.items .CustomFormat))) = after.items .QualityProfile := by
  have hmoved : ∀ items, (items = server.items .QualityProfile ∨ items = (server.items .QualityProfile).map
      (rescored profile (scoreItems (wantedPacks desired app) known))) →
      (still → items = server.items .QualityProfile) →
      Moved hd app still server (server.put .QualityProfile items) := by
    intro items hitems hsame
    have hrefl : Towards hd app server server := towards_refl hready
    refine ⟨{ hrefl with profiles := ⟨fun hnone => ?_, fun name hname => ?_⟩ }, fun hs => put_same (hsame hs)⟩
    · rcases hnone with hnil | hnone
      · exact absurd hnil hpacks
      · rw [hprofile] at hnone
        cases hnone
    · obtain rfl := Option.some.inj (hprofile.symm.trans hname)
      exact hitems.imp id fun h => ⟨_, h⟩
  have hscene : (profileScene app (Function.update others app server) still).Runs _ _
      (applyQualityProfileScores app profile (wantedPacks desired app) known) _ :=
    scene_profile (hready.profiles hmedia) (hready.profile hmedia profile hprofile) hin.ids hin.names
      fun hs => hin.items_eq ▸ (hstill hs).profiles hpacks profile hprofile
  apply app_mono (app_list (P := (· = server.items .QualityProfile)) hscene rfl) ?_ (fun _ h => h) ?_
  · rintro after ⟨items, rfl, hitems, hsame⟩
    exact hmoved items hitems hsame
  · rintro _ after ⟨items, rfl, rfl, hsame⟩
    refine ⟨⟨hmoved _ (Or.inr rfl) hsame, items_put_rest⟩, ?_⟩
    dsimp only
    rw [Server.items_put, hin.items_eq]
    exact map_rescored_rescored _ _ _ _

-- What the packs leave.
structure Scored (desired : DesiredState) (app : App) (after : Server) : Prop where
  formats : ∀ name ∈ formatNames (wantedPacks desired app),
    some name ∈ (after.items .CustomFormat).map Json.nameOf
  profiles : wantedPacks desired app ≠ [] → ∀ name, wantedProfile desired = some name →
    (after.items .QualityProfile).map (rescored name (scoreItems (wantedPacks desired app)
      (after.items .CustomFormat))) = after.items .QualityProfile

theorem part_cfPacks (hmedia : app.media = true) (hready : Ready desired app server)
    (hstill : still → Done hd app server) :
    Part hd app others still server [.CustomFormat, .QualityProfile] (applyCfPacks app desired)
      (Scored desired app) := by
  have hwant : desired.grab.customFormatPacks = wantedPacks desired app := (if_pos hmedia).symm
  unfold applyCfPacks
  rw [hwant]
  dsimp only
  apply runs_ite
  · intro hnil
    rw [List.isEmpty_iff] at hnil
    apply app_pure
    rintro _ rfl
    refine ⟨⟨moved_refl hready, fun _ _ => rfl⟩, ?_, fun hne => absurd hnil hne⟩
    rw [hnil]
    exact fun _ h => absurd h List.not_mem_nil
  · intro hne
    rw [List.isEmpty_iff] at hne
    apply app_bind (Runs.mapError (app_getAll (moved_refl hready)))
    intro value
    apply Runs.of_pre (p := value = .Array (server.items .CustomFormat)) fun _ ⟨_, _, h, _⟩ => h.1
    rintro rfl
    simp only [Json.asArray]
    apply app_bind (app_mono (part_formats hmedia hready hstill hne) (fun _ h => h) (fun _ h => h.2) fun _ _ h => h)
    rintro ⟨diffs, known⟩
    apply app_each
    rintro middle ⟨⟨hmoved, hrest⟩, hin⟩
    have hkeep : ∀ resource ∉ [Resource.CustomFormat, .QualityProfile],
        middle.items resource = server.items resource := by
      intro resource hresource
      rw [List.mem_cons, not_or] at hresource
      exact hrest resource fun hsame => hresource.1 (List.mem_singleton.mp hsame)
    cases hprofile : desired.grab.policy.qualityProfile with
    | none =>
        apply app_pure
        rintro _ rfl
        refine ⟨⟨hmoved, hkeep⟩, hin.items_eq ▸ hin.names, fun _ name hname => ?_⟩
        exact absurd (hprofile.symm.trans hname) (Option.some_ne_none name).symm
    | some profile =>
        have hmiddle := hmoved.towards.ready hready
        have hdone : still → Done hd app middle := fun hs => (hmoved.same hs).symm ▸ hstill hs
        apply app_bind (A := fun _ after => (Moved hd app still server after ∧
          ∀ resource ∉ [Resource.CustomFormat, .QualityProfile], after.items resource = server.items resource) ∧
            Scored desired app after)
        · apply app_mono (part_scores hmedia hmiddle hdone hne hprofile hin) ?_ (fun _ h => h) ?_
          · exact fun _ hafter => hmoved.trans hready hafter
          · rintro _ after ⟨⟨hafter, hsame⟩, hscored⟩
            refine ⟨⟨hmoved.trans hready hafter, fun resource hresource => ?_⟩, ?_⟩
            · have hnot : resource ∉ [Resource.QualityProfile] := fun hmem =>
                hresource (List.mem_cons_of_mem _ hmem)
              exact (hsame resource hnot).trans (hkeep resource hresource)
            · have hformats := hsame .CustomFormat (by decide)
              refine ⟨?_, fun _ name hname => ?_⟩
              · rw [hformats, hin.items_eq]
                exact hin.names
              · obtain rfl := Option.some.inj (hprofile.symm.trans hname)
                rw [hformats]
                exact hscored
        · intro _
          exact app_pure fun _ h => h

-- The lists of indexers and of download clients are left by what comes behind them.
structure Lists (hd : desired.grab.Distinct) (app : App) (after : Server) : Prop where
  indexers : wantedIndexers desired app ≠ [] →
    (plan indexerLawful (wantedIndexers desired app) (hd.indexers_of_app app.name)).Settled
      (after.items .Indexer)
  clients : wantedClients desired app ≠ [] →
    (plan clientLawful (wantedClients desired app) (distinct_clients hd app)).Settled
      (after.items .DownloadClient)

-- A part behind them.
theorem Lists.keep {changed : List Resource} (h : Lists hd app server) (hindexer : Resource.Indexer ∉ changed)
    (hclient : Resource.DownloadClient ∉ changed)
    (hrest : ∀ resource ∉ changed, after.items resource = server.items resource) : Lists hd app after := by
  refine ⟨fun hne => ?_, fun hne => ?_⟩
  · rw [hrest .Indexer hindexer]
    exact h.indexers hne
  · rw [hrest .DownloadClient hclient]
    exact h.clients hne

theorem app_applyApp (hready : Ready desired app before) (hstill : still → Done hd app before) :
    AppScene.Runs ⟨app, others, still⟩ (Moved hd app still before) (· = before)
      (applyApp desired app app.media)
      fun _ after => Moved hd app still before after ∧ Done hd app after := by
  unfold applyApp
  apply app_bind (app_mono (part_indexers hready hstill) (fun _ h => h) (fun _ h => h) fun _ _ h =>
    (⟨h.1.1, h.2⟩ : _ ∧ _))
  intro diffs
  by_cases hmedia : app.media = true
  · rw [if_pos hmedia]
    apply app_bind (part_next (B := Lists hd app) hready hstill (fun _ => part_clients hmedia) ?_)
    · intro clients
      apply app_bind (part_next (B := fun after => Lists hd app after ∧ Scored desired app after) hready hstill
        (fun _ => part_cfPacks hmedia) ?_)
      · intro packs
        apply app_bind (part_next (B := Done hd app) hready hstill (fun _ => part_policy hmedia) ?_)
        · intro policy
          exact app_pure fun _ h => h
        · rintro server after hrest ⟨hlists, hscored⟩ hdelays
          have hafter := hlists.keep (by decide) (by decide) hrest
          have hformats := hrest .CustomFormat (by decide)
          have hprofiles := hrest .QualityProfile (by decide)
          refine ⟨hafter.indexers, hafter.clients, ?_, ?_, hdelays⟩
          · rw [hformats]
            exact hscored.formats
          · rw [hformats, hprofiles]
            exact hscored.profiles
      · intro server after hrest hlists hscored
        exact ⟨hlists.keep (by decide) (by decide) hrest, hscored⟩
    · intro server after hrest hindexers hclients
      refine ⟨fun hne => ?_, hclients⟩
      rw [hrest .Indexer (by decide)]
      exact hindexers hne
  · rw [if_neg hmedia]
    apply app_pure
    rintro after ⟨hmoved, hindexers⟩
    have hclients : wantedClients desired app = [] := if_neg hmedia
    have hpacks : wantedPacks desired app = [] := if_neg hmedia
    have hdelay : wantedDelay desired app = none := if_neg hmedia
    refine ⟨hmoved, hindexers, fun hne => absurd hclients hne, ?_, fun hne => absurd hpacks hne, ?_⟩
    · rw [hpacks]
      exact fun _ h => absurd h List.not_mem_nil
    · rw [hdelay]
      exact fun _ h => absurd h (Option.some_ne_none _).symm

end Parts

end Mediaops.Arr
