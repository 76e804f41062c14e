import Mediaops.Arr.Edge.Checks

namespace Mediaops.Arr

-- The edge that is applied once more.

variable {servers : App → Server} {desired : DesiredState} {keys : Keys} {app : App}
  {unifiedDiff : Json → Json → Text → Text}

def urlOk (desired : DesiredState) (item : Json) : Bool :=
  Prowlarr.applicationUrlOk ((prowlarrAppBaseUrl item).getD []) (baseOf desired item)

section States

-- What an application's server is left as.
def appliedServer (desired : DesiredState) (app : App) (server : Server) : Server :=
  let host := Json.setAll (edgeMembers (.new desired) desired app) server.hostConfig
  let configured := { server with hostConfig := host.getD server.hostConfig }
  if app = .Prowlarr then
    configured.put .Applications ((server.items .Applications).map (appliedApplication desired))
  else configured

def appliedServers (desired : DesiredState) (keys : Keys) (servers : App → Server) (app : App) : Server :=
  if keys app then appliedServer desired app (servers app) else servers app

-- A server that can be left so: its documents are objects, and an application whose URL
-- changes has an id.
structure Takes (desired : DesiredState) (app : App) (server : Server) : Prop where
  host : (Json.setAll (edgeMembers (.new desired) desired app) server.hostConfig).isSome = true
  applications : app = .Prowlarr → ∀ item ∈ server.items .Applications,
    Applicable desired item ∧ (urlOk desired item = true ∨ (idOf item).isSome = true)

theorem hostConfig_applied (desired : DesiredState) (app : App) (server : Server) :
    (appliedServer desired app server).hostConfig =
      (Json.setAll (edgeMembers (.new desired) desired app) server.hostConfig).getD server.hostConfig := by
  unfold appliedServer
  dsimp only
  split <;> rfl

theorem items_applied (desired : DesiredState) (server : Server) :
    (appliedServer desired .Prowlarr server).items .Applications =
      (server.items .Applications).map (appliedApplication desired) := by
  unfold appliedServer
  rw [if_pos rfl, Server.items_put]

-- To set what is set changes nothing.
theorem setAll_again {live body : Json}
    (h : Json.setAll (edgeMembers (.new desired) desired app) live = some body) :
    Json.setAll (edgeMembers (.new desired) desired app) body = some body := by
  have hdistinct : (Json.keys (edgeMembers (.new desired) desired app)).Nodup := by
    show [bindKey, urlBaseKey, authKey].Nodup
    decide
  apply Json.setAll_self
  intro member hmember
  rw [Json.get_setAll hdistinct h, Json.lookup_of_mem hdistinct hmember, Option.some_or]

theorem setProwlarrAppBaseUrl_again {item after : Json} {url : Text}
    (h : setProwlarrAppBaseUrl url item = some after) : setProwlarrAppBaseUrl url after = some after := by
  unfold setProwlarrAppBaseUrl at h
  cases hfields : fieldsOf item with
  | some fields =>
      rw [hfields] at h
      have hput : Json.putEntry baseUrlKey (.String url) (Json.putEntry baseUrlKey (.String url) fields) =
          Json.putEntry baseUrlKey (.String url) fields := by
        apply Json.putEntry_self
        rw [Json.entryValue_putEntry, if_pos rfl]
      rw [setProwlarrAppBaseUrl, fieldsOf_set h]
      dsimp only
      rw [hput]
      exact Json.set_self (by rw [Json.get_set h, if_pos rfl])
  | none =>
      rw [hfields] at h
      have hnone : fieldsOf after = none := by
        rw [fieldsOf, Json.get_set h, if_neg (by decide)]
        exact hfields
      rw [setProwlarrAppBaseUrl, hnone]
      exact Json.set_self (by rw [Json.get_set h, if_pos rfl])

-- An application whose URL is right, or stays what it is when it is set once more.
def Settled (desired : DesiredState) (item : Json) : Prop :=
  urlOk desired item = true ∨ (idOf item).isSome = true ∧
    setProwlarrAppBaseUrl (targetUrl (lowerName item) (baseOf desired item)) item = some item

theorem settled_applied {item : Json} (happlicable : Applicable desired item)
    (hid : urlOk desired item = true ∨ (idOf item).isSome = true) :
    Settled desired (appliedApplication desired item) := by
  by_cases hok : urlOk desired item = true
  · have hsame : appliedApplication desired item = item := if_pos hok
    rw [hsame]
    exact .inl hok
  · obtain ⟨after, hset⟩ := Option.isSome_iff_exists.mp (happlicable.resolve_left hok)
    have hafter : appliedApplication desired item = after := by
      unfold appliedApplication
      exact (if_neg hok).trans (by rw [hset, Option.getD_some])
    have hname : lowerName after = lowerName item := by rw [lowerName, nameOf_set hset, lowerName]
    have hbase : baseOf desired after = baseOf desired item := by rw [baseOf, hname, baseOf]
    rw [hafter]
    right
    rw [hname, hbase, idOf_set hset]
    exact ⟨hid.resolve_left hok, setProwlarrAppBaseUrl_again hset⟩

-- Only a URL that is hidden stays wrong.
theorem urlOk_applied {item : Json} (hbase : SegmentBase (baseOf desired item))
    (happlicable : Applicable desired item) :
    urlOk desired (appliedApplication desired item) = true ↔
      urlOk desired item = true ∨ ¬Shadowed item := by
  have hdrift : applicationDrift (.new desired) (appliedApplication desired item) = [] ↔
      ApplicationAgrees desired desired item := applied_ok_iff hbase happlicable
  rw [applicationDrift_nil] at hdrift
  unfold ApplicationAgrees at hdrift
  rw [if_pos rfl] at hdrift
  exact hdrift

end States

section First

-- A part that goes through shows of its item what `q` says, whatever it does to the servers.
theorem served_shown {α β ε : Type} {part : α → Prog Net ε (List β)} {q : α → Prop}
    (h : ∀ item, Served False (fun _ => True) (part item) (fun _ _ => q item) (fun _ => True))
    (items : List α) :
    Served False (fun _ => True) (forEach part items) (fun _ _ => ∀ item ∈ items, q item)
      (fun _ => True) := by
  induction items with
  | nil => exact runs_pure fun _ _ _ hitem => absurd hitem List.not_mem_nil
  | cons item rest ih =>
      apply (h item).bind
      intro first
      apply Runs.of_pre (fun _ hnet => hnet)
      intro hitem
      apply (ih.mono (fun _ _ => trivial) (fun _ _ hnet => hnet) fun _ hnet => hnet).bind
      intro others
      exact runs_pure fun _ hrest => List.forall_mem_cons.mpr ⟨hitem, hrest⟩

-- An application without an id is not written to.
theorem served_applyProwlarrApp_id (item : Json) :
    Served False (fun _ => True) (applyProwlarrApp (.new desired) desired item)
      (fun _ _ => urlOk desired item = true ∨ (idOf item).isSome = true) (fun _ => True) := by
  unfold applyProwlarrApp
  dsimp only
  rw [desiredBase_new]
  apply runs_ite
  · exact fun hok => runs_pure fun _ _ => .inl hok
  · intro _
    cases idOf item with
    | none => exact runs_throw fun _ _ => trivial
    | some id =>
        apply (served_orPanic _).bind
        intro body
        have hput : Served False (fun _ => True) (putJson .Prowlarr (.One .Applications id) body)
            (fun _ _ => True) (fun _ => True) := by
          apply served_json
          · intro net pick _
            dsimp only
            split <;> trivial
          · exact fun _ _ _ => ⟨trivial, fun _ => trivial⟩
        apply (hput.mapError.mono (fun _ _ => trivial) (fun _ _ hnet => hnet) fun _ hnet => hnet).bind
        intro _
        exact runs_pure fun _ _ => .inr rfl

theorem served_applyProwlarrAppUrls_exact (server : Server)
    (hdistinct : ((server.items .Applications).filterMap idOf).Nodup) :
    Served False (fun net => net.servers = Function.update servers .Prowlarr server)
      (applyProwlarrAppUrls (.new desired) desired)
      (fun _ net => (∀ item ∈ server.items .Applications,
          Applicable desired item ∧ (urlOk desired item = true ∨ (idOf item).isSome = true)) ∧
        net.servers = Function.update servers .Prowlarr
          (server.put .Applications ((server.items .Applications).map (appliedApplication desired))))
      (fun _ => True) := by
  have hids : Served False (fun net => net.servers = Function.update servers .Prowlarr server)
      (applyProwlarrAppUrls (.new desired) desired)
      (fun _ _ => ∀ item ∈ server.items .Applications,
        urlOk desired item = true ∨ (idOf item).isSome = true) (fun _ => True) := by
    apply (served_getAll (Q := (· = Function.update servers .Prowlarr server))
      fun _ _ => trivial).mapError.bind
    intro value
    apply Runs.of_pre (p := value = .Array (server.items .Applications))
    · rintro net ⟨rfl, hnet⟩
      rw [hnet, Function.update_self]
    rintro rfl
    exact (served_shown served_applyProwlarrApp_id _).mono (fun _ _ => trivial)
      (fun _ _ hnet => hnet) fun _ hnet => hnet
  apply ((served_applyProwlarrAppUrls server hdistinct).both hids).mono (fun _ hnet => hnet)
  · rintro _ net ⟨⟨happlicable, hservers⟩, hid⟩
    exact ⟨fun item hitem => ⟨happlicable item hitem, hid item hitem⟩, hservers⟩
  · exact fun _ _ => trivial

theorem served_applyEdgeApp_exact
    (hdistinct : app = .Prowlarr → (((servers app).items .Applications).filterMap idOf).Nodup) :
    Served False (fun net => net.servers = servers)
      (applyEdgeApp unifiedDiff (.new desired) desired keys app)
      (fun _ net => (keys app = true → Takes desired app (servers app)) ∧
        net.servers = Function.update servers app (appliedServers desired keys servers app))
      (fun _ => True) := by
  unfold applyEdgeApp appliedServers
  by_cases hkey : keys app = true
  · rw [if_pos hkey, if_pos hkey]
    apply served_applyHostConfig.bind
    intro diffs
    apply runs_exists
    intro body
    apply Runs.of_pre (fun _ hnet => hnet.1)
    intro hset
    have hhost : (Json.setAll (edgeMembers (.new desired) desired app)
        (servers app).hostConfig).isSome = true := by rw [hset]; rfl
    apply runs_ite
    · rintro rfl
      have happlied : appliedServer desired .Prowlarr (servers .Prowlarr) =
          ({ servers .Prowlarr with hostConfig := body } : Server).put .Applications
            (((servers .Prowlarr).items .Applications).map (appliedApplication desired)) := by
        rw [appliedServer, hset]
        rfl
      rw [happlied]
      apply Runs.bind
      · apply (served_applyProwlarrAppUrls_exact { servers .Prowlarr with hostConfig := body }
          (hdistinct rfl)).mono
        · exact fun _ hnet => hnet.2
        · exact fun _ _ hnet => hnet
        · exact fun _ _ => trivial
      · intro more
        exact runs_pure fun net hnet => ⟨fun _ => ⟨hhost, fun _ => hnet.1⟩, hnet.2⟩
    · intro hother
      have happlied : appliedServer desired app (servers app) =
          { servers app with hostConfig := body } := by
        unfold appliedServer
        rw [hset]
        exact if_neg hother
      rw [happlied]
      exact runs_pure fun net hnet => ⟨fun _ => ⟨hhost, fun h => absurd h hother⟩, hnet.2⟩
  · rw [if_neg hkey, if_neg hkey, Function.update_eq_self]
    exact runs_pure fun net hnet => ⟨fun h => absurd h hkey, hnet⟩

-- The servers when these applications are applied to.
def appliedTo (desired : DesiredState) (keys : Keys) (servers : App → Server) (done : List App)
    (app : App) : Server :=
  if app ∈ done then appliedServers desired keys servers app else servers app

theorem appliedTo_append (done : List App) (app : App) :
    appliedTo desired keys servers (done ++ [app]) =
      Function.update (appliedTo desired keys servers done) app
        (appliedServers desired keys servers app) := by
  funext other
  by_cases hother : other = app
  · subst hother
    simp [appliedTo]
  · rw [Function.update_of_ne hother]
    simp [appliedTo, hother]

-- The induction is on the applications that are left.
theorem served_applyEach
    (hdistinct : (((servers .Prowlarr).items .Applications).filterMap idOf).Nodup) (rest : List App) :
    ∀ done : List App, (done ++ rest).Nodup →
      Served False (fun net => net.servers = appliedTo desired keys servers done)
        (forEach (applyEdgeApp unifiedDiff (.new desired) desired keys) rest)
        (fun _ net => (∀ app ∈ rest, keys app = true → Takes desired app (servers app)) ∧
          net.servers = appliedTo desired keys servers (done ++ rest))
        (fun _ => True) := by
  induction rest with
  | nil =>
      intro done _
      rw [List.append_nil]
      exact runs_pure fun _ hnet => ⟨fun _ h => absurd h List.not_mem_nil, hnet⟩
  | cons app rest ih =>
      intro done hnodup
      have hnext : done ++ app :: rest = (done ++ [app]) ++ rest := by simp
      have hleft : appliedTo desired keys servers done app = servers app := by
        apply if_neg
        intro hmem
        exact (List.nodup_append.mp hnodup).2.2 app hmem app List.mem_cons_self rfl
      have hone : Served False (fun net => net.servers = appliedTo desired keys servers done)
          (applyEdgeApp unifiedDiff (.new desired) desired keys app)
          (fun _ net => (keys app = true → Takes desired app (servers app)) ∧
            net.servers = appliedTo desired keys servers (done ++ [app])) (fun _ => True) := by
        rw [appliedTo_append, ← hleft]
        have hsame : appliedServers desired keys (appliedTo desired keys servers done) app =
            appliedServers desired keys servers app := by rw [appliedServers, hleft, appliedServers]
        rw [← hsame]
        apply served_applyEdgeApp_exact
        rintro rfl
        rw [hleft]
        exact hdistinct
      apply hone.bind
      intro first
      apply Runs.of_pre (fun _ hnet => hnet.1)
      intro htakes
      have hrest := ih (done ++ [app]) (by rwa [← hnext])
      apply (hrest.mono (fun _ hnet => hnet.2) (fun _ _ hnet => hnet) fun _ hnet => hnet).bind
      intro others
      rw [hnext]
      refine runs_pure fun net hnet => ⟨?_, hnet.2⟩
      exact List.forall_mem_cons.mpr ⟨htakes, hnet.1⟩

theorem served_edgeApply_exact
    (hdistinct : (((servers .Prowlarr).items .Applications).filterMap idOf).Nodup) :
    Served False (fun net => net.servers = servers) (edgeApply unifiedDiff desired keys)
      (fun _ net => isStar (LocalhostGrabOps.new desired).bind = false ∧
        (∀ app, keys app = true → Takes desired app (servers app)) ∧
          net.servers = appliedServers desired keys servers)
      (fun _ => True) := by
  have hall : ∀ app, app ∈ apps := by
    intro app
    cases app <;> decide
  have hnone : appliedTo desired keys servers [] = servers := by
    funext app
    exact if_neg List.not_mem_nil
  have heach : appliedTo desired keys servers ([] ++ apps) = appliedServers desired keys servers := by
    funext app
    exact if_pos (hall app)
  unfold edgeApply applyEdgeHost
  rw [desiredBind_new]
  by_cases hstar : isStar (LocalhostGrabOps.new desired).bind = true
  · rw [if_pos hstar]
    exact (runs_throw (A := fun _ _ => False) fun _ _ => trivial).bind fun _ _ _ h => h.elim
  · rw [if_neg hstar]
    have hloop : Served False (fun net => net.servers = appliedTo desired keys servers [])
        (forEach (applyEdgeApp unifiedDiff (.new desired) desired keys) apps) _ _ :=
      served_applyEach hdistinct apps [] (by decide)
    rw [hnone, heach] at hloop
    apply hloop.bind
    intro diffs
    refine runs_pure fun net hnet => ⟨Bool.eq_false_iff.mpr hstar, fun app => ?_, hnet.2⟩
    exact hnet.1 app (hall app)

end First

section Again

-- The line that a second apply reports of an application.
def againDiff (desired : DesiredState) (item : Json) : List Text :=
  if urlOk desired item then [] else ["~prowlarr app ".toList ++ lowerName item ++ " url_base".toList]

def againDiffs (desired : DesiredState) (keys : Keys) (servers : App → Server) (app : App) : List Text :=
  if keys app = true ∧ app = .Prowlarr then
    ((servers .Prowlarr).items .Applications).flatMap (againDiff desired)
  else []

theorem served_applyHostConfig_again
    (h : Json.setAll (edgeMembers (.new desired) desired app) (servers app).hostConfig =
      some (servers app).hostConfig) :
    Served True (fun net => net.servers = servers)
      (applyHostConfig unifiedDiff (.new desired) desired app)
      (fun diffs net => diffs = [] ∧ net.servers = servers) (fun _ => False) := by
  apply (served_getHost (Q := (· = servers)) fun h => absurd trivial h).mapError.bind
  intro live
  apply Runs.of_pre (p := live = (servers app).hostConfig)
  · rintro net ⟨rfl, rfl⟩
    rfl
  rintro rfl
  rw [h]
  apply Runs.bind (A := fun body net => body = (servers app).hostConfig ∧ net.servers = servers)
  · exact runs_pure fun net hnet => ⟨rfl, hnet.2⟩
  · intro body
    apply Runs.of_pre (fun _ hnet => hnet.1)
    rintro rfl
    rw [if_neg (fun h => h rfl)]
    exact runs_pure fun net hnet => ⟨rfl, hnet.2⟩

-- What is written is what is there.
theorem served_applyProwlarrApp_again {item : Json}
    (hitem : item ∈ (servers .Prowlarr).items .Applications)
    (hdistinct : (((servers .Prowlarr).items .Applications).filterMap idOf).Nodup)
    (hsettled : Settled desired item) :
    Served True (fun net => net.servers = servers) (applyProwlarrApp (.new desired) desired item)
      (fun diffs net => diffs = againDiff desired item ∧ net.servers = servers) (fun _ => False) := by
  unfold applyProwlarrApp againDiff
  dsimp only
  rw [desiredBase_new]
  apply runs_ite
  · intro hok
    rw [if_pos (show urlOk desired item = true from hok)]
    exact runs_pure fun net hnet => ⟨rfl, hnet⟩
  · intro hbad
    rw [if_neg (show ¬urlOk desired item = true from hbad)]
    obtain ⟨hid, hset⟩ := hsettled.resolve_left hbad
    obtain ⟨id, hid⟩ := Option.isSome_iff_exists.mp hid
    rw [hid, hset]
    apply Runs.bind (A := fun body net => body = item ∧ net.servers = servers)
    · exact runs_pure fun net hnet => ⟨rfl, hnet⟩
    intro body
    apply Runs.of_pre (fun _ hnet => hnet.1)
    rintro rfl
    have hserve : ∀ pick, deliver .Prowlarr
        { method := .Put, target := .One .Applications id, body := some body } pick servers =
          ({ status := 202, body := some body }, servers) := by
      intro pick
      have hmem : some id ∈ ((servers .Prowlarr).items .Applications).map idOf :=
        List.mem_map.mpr ⟨body, hitem, hid⟩
      obtain ⟨front, back, hlist⟩ := List.append_of_mem hitem
      have hreplace : ((servers .Prowlarr).items .Applications).map (fun other =>
          if idOf other = some id then body else other) = (servers .Prowlarr).items .Applications := by
        rw [hlist] at hdistinct ⊢
        exact map_replace hdistinct hid
      have hserver : (servers .Prowlarr).serve pick
          { method := .Put, target := .One .Applications id, body := some body } =
            ({ status := 202, body := some body }, servers .Prowlarr) := by
        simp only [Server.serve]
        rw [if_pos hmem, hreplace, Server.put_self]
      rw [deliver, hserver]
      exact congrArg _ (Function.update_eq_self _ _)
    have hput : Served True (fun net => net.servers = servers)
        (putJson .Prowlarr (.One .Applications id) body) (fun _ net => net.servers = servers)
        (fun _ => False) := by
      apply served_json
      · intro net pick hnet
        rw [hnet, hserve]
        rfl
      · exact fun h => absurd trivial h
    apply (hput.mapError.mono (fun _ hnet => hnet.2) (fun _ _ hnet => hnet) fun _ hnet => hnet).bind
    intro _
    exact runs_pure fun net hnet => ⟨rfl, hnet⟩

theorem served_applyEdgeApp_again
    (hhost : keys app = true → Json.setAll (edgeMembers (.new desired) desired app)
      (servers app).hostConfig = some (servers app).hostConfig)
    (hdistinct : (((servers .Prowlarr).items .Applications).filterMap idOf).Nodup)
    (hsettled : keys .Prowlarr = true → ∀ item ∈ (servers .Prowlarr).items .Applications,
      Settled desired item) :
    Served True (fun net => net.servers = servers)
      (applyEdgeApp unifiedDiff (.new desired) desired keys app)
      (fun diffs net => diffs = againDiffs desired keys servers app ∧ net.servers = servers)
      (fun _ => False) := by
  unfold applyEdgeApp againDiffs
  by_cases hkey : keys app = true
  · rw [if_pos hkey]
    apply (served_applyHostConfig_again (hhost hkey)).bind
    intro diffs
    apply Runs.of_pre (fun _ hnet => hnet.1)
    rintro rfl
    by_cases hprowlarr : app = .Prowlarr
    · subst hprowlarr
      rw [if_pos rfl, if_pos ⟨hkey, rfl⟩]
      have hlist : Served True (fun net => net.servers = servers)
          (applyProwlarrAppUrls (.new desired) desired)
          (fun diffs net => diffs = ((servers .Prowlarr).items .Applications).flatMap
            (againDiff desired) ∧ net.servers = servers) (fun _ => False) := by
        apply (served_getAll (Q := (· = servers)) fun h => absurd trivial h).mapError.bind
        intro value
        apply Runs.of_pre (p := value = .Array ((servers .Prowlarr).items .Applications))
        · rintro net ⟨rfl, rfl⟩
          rfl
        rintro rfl
        apply (served_flatMap fun item hitem => served_applyProwlarrApp_again hitem hdistinct
          (hsettled hkey item hitem)).mono (fun _ hnet => hnet.2) (fun _ _ hnet => hnet)
        exact fun _ hnet => hnet
      apply (hlist.mono (fun _ hnet => hnet.2) (fun _ _ hnet => hnet) fun _ hnet => hnet).bind
      intro more
      exact runs_pure fun net hnet => hnet
    · rw [if_neg hprowlarr, if_neg fun h => hprowlarr h.2]
      exact runs_pure fun net hnet => ⟨rfl, hnet.2⟩
  · rw [if_neg hkey, if_neg fun h => hkey h.1]
    exact runs_pure fun net hnet => ⟨rfl, hnet⟩

theorem againDiffs_nil :
    (∀ app, againDiffs desired keys servers app = []) ↔
      (keys .Prowlarr = true → ∀ item ∈ (servers .Prowlarr).items .Applications,
        urlOk desired item = true) := by
  have hdiff : ∀ item, againDiff desired item = [] ↔ urlOk desired item = true := by
    intro item
    unfold againDiff
    by_cases hok : urlOk desired item = true <;> simp [hok]
  have hprowlarr : againDiffs desired keys servers .Prowlarr = [] ↔
      (keys .Prowlarr = true → ∀ item ∈ (servers .Prowlarr).items .Applications,
        urlOk desired item = true) := by
    unfold againDiffs
    by_cases hkey : keys .Prowlarr = true
    · rw [if_pos ⟨hkey, rfl⟩, List.flatMap_eq_nil_iff]
      simp only [hdiff, hkey, forall_const]
    · rw [if_neg fun h => hkey h.1]
      exact iff_of_true rfl fun h => absurd h hkey
  rw [← hprowlarr]
  refine ⟨fun h => h .Prowlarr, fun h app => ?_⟩
  by_cases happ : app = .Prowlarr
  · rw [happ, h]
  · exact if_neg fun hor => happ hor.2

theorem served_edgeApply_again (hstar : isStar (LocalhostGrabOps.new desired).bind = false)
    (hhost : ∀ app, keys app = true → Json.setAll (edgeMembers (.new desired) desired app)
      (servers app).hostConfig = some (servers app).hostConfig)
    (hdistinct : (((servers .Prowlarr).items .Applications).filterMap idOf).Nodup)
    (hsettled : keys .Prowlarr = true → ∀ item ∈ (servers .Prowlarr).items .Applications,
      Settled desired item) :
    Served True (fun net => net.servers = servers) (edgeApply unifiedDiff desired keys)
      (fun report net => (report.noop = true ↔
          (keys .Prowlarr = true → ∀ item ∈ (servers .Prowlarr).items .Applications,
            urlOk desired item = true)) ∧
        net.servers = servers) (fun _ => False) := by
  unfold edgeApply applyEdgeHost
  rw [desiredBind_new, if_neg (by rw [hstar]; exact Bool.false_ne_true)]
  have hloop : Served True (fun net => net.servers = servers)
      (forEach (applyEdgeApp unifiedDiff (.new desired) desired keys) apps)
      (fun diffs net => diffs = apps.flatMap (againDiffs desired keys servers) ∧
        net.servers = servers) (fun _ => False) :=
    served_flatMap fun app _ => served_applyEdgeApp_again (hhost app) hdistinct hsettled
  apply hloop.bind
  intro diffs
  refine runs_pure fun net hnet => ⟨?_, hnet.2⟩
  rw [hnet.1, ← againDiffs_nil]
  show List.isEmpty _ = true ↔ _
  rw [List.isEmpty_iff, List.flatMap_eq_nil_iff]
  exact ⟨fun hall app => hall app (by cases app <;> decide), fun hall app _ => hall app⟩

end Again

section Twice

theorem setAll_appliedServer {server : Server} (h : Takes desired app server) :
    Json.setAll (edgeMembers (.new desired) desired app) (appliedServer desired app server).hostConfig =
      some (appliedServer desired app server).hostConfig := by
  obtain ⟨body, hset⟩ := Option.isSome_iff_exists.mp h.host
  rw [hostConfig_applied, hset]
  exact setAll_again hset

-- An apply that went through leaves each server with a key as it should be, and the others
-- alone. The same apply once more changes no server, and it says that there was nothing to
-- do unless the flat URL of an application hides the one that was written.
theorem edge_apply_twice (unifiedDiff : Json → Json → Text → Text) (desired : DesiredState) (keys : Keys)
    (servers : App → Server) (moves moves' : Nat → Move Net) (turn turn' : Nat)
    (hbases : SegmentBases desired)
    (hids : (((servers .Prowlarr).items .Applications).filterMap idOf).Nodup)
    (hmoves : Alone moves) (hmoves' : Answered moves')
    (happly : ∃ report,
      (edgeApply unifiedDiff desired keys moves turn { servers }).outcome = .Done report) :
    let first := (edgeApply unifiedDiff desired keys moves turn { servers }).world.servers
    let again := edgeApply unifiedDiff desired keys moves' turn' { servers := first }
    first = appliedServers desired keys servers ∧ again.world.servers = first ∧
      ∃ report, again.outcome = .Done report ∧
        (report.noop = true ↔
          (keys .Prowlarr = true → ∀ item ∈ (servers .Prowlarr).items .Applications,
            urlOk desired item = true ∨ ¬Shadowed item)) := by
  obtain ⟨report, happly⟩ := happly
  have hserved : Served False (fun net => net.servers = servers)
      (edgeApply unifiedDiff desired keys) _ _ := served_edgeApply_exact hids
  obtain ⟨hstar, htakes, hfirst⟩ :=
    (served_run hserved (fun n => ⟨hmoves n, False.elim⟩) turn { servers } rfl).1 report happly
  intro first again
  refine ⟨hfirst, ?_⟩
  have hat : ∀ app, keys app = true → first app = appliedServer desired app (servers app) := by
    intro app hkey
    rw [show first = appliedServers desired keys servers from hfirst]
    exact if_pos hkey
  have hoff : ∀ app, keys app ≠ true → first app = servers app := by
    intro app hkey
    rw [show first = appliedServers desired keys servers from hfirst]
    exact if_neg hkey
  have hitems : keys .Prowlarr = true → (first .Prowlarr).items .Applications =
      ((servers .Prowlarr).items .Applications).map (appliedApplication desired) := by
    intro hkey
    rw [hat .Prowlarr hkey, items_applied]
  have hhost : ∀ app, keys app = true → Json.setAll (edgeMembers (.new desired) desired app)
      (first app).hostConfig = some (first app).hostConfig := by
    intro app hkey
    rw [hat app hkey]
    exact setAll_appliedServer (htakes app hkey)
  have hdistinct : (((first .Prowlarr).items .Applications).filterMap idOf).Nodup := by
    by_cases hkey : keys .Prowlarr = true
    · have hsame := filterMap_idOf_applied desired ((servers .Prowlarr).items .Applications) []
      rw [List.append_nil, List.append_nil] at hsame
      rw [hitems hkey, hsame]
      exact hids
    · rw [hoff .Prowlarr hkey]
      exact hids
  have hsettled : keys .Prowlarr = true → ∀ item ∈ (first .Prowlarr).items .Applications,
      Settled desired item := by
    intro hkey item hitem
    rw [hitems hkey] at hitem
    obtain ⟨live, hlive, rfl⟩ := List.mem_map.mp hitem
    obtain ⟨happlicable, hid⟩ := (htakes .Prowlarr hkey).applications rfl live hlive
    exact settled_applied happlicable hid
  have hsecond : Served True (fun net => net.servers = first)
      (edgeApply unifiedDiff desired keys) _ _ :=
    served_edgeApply_again hstar hhost hdistinct hsettled
  have hran := served_run hsecond (fun n => ⟨(hmoves' n).1, fun _ => (hmoves' n).2⟩) turn'
    { servers := first } rfl
  by_cases hdone : ∃ report, again.outcome = .Done report
  · obtain ⟨report, hreport⟩ := hdone
    obtain ⟨hnoop, hsame⟩ := hran.1 report hreport
    refine ⟨hsame, report, hreport, hnoop.trans ?_⟩
    refine imp_congr_right fun hkey => ?_
    rw [hitems hkey, List.forall_mem_map]
    refine forall_congr' fun item => forall_congr' fun hitem => ?_
    exact urlOk_applied (segmentBase_baseOf hbases item)
      ((htakes .Prowlarr hkey).applications rfl item hitem).1
  · exact (hran.2 fun report hreport => hdone ⟨report, hreport⟩).elim

theorem edge_apply_twice_hidden :
    let first := (edgeApply labelled plainState (fun _ => true) quiet 0 { servers := emptyServers }).world.servers
    let again := edgeApply labelled plainState (fun _ => true) quiet 0 { servers := first }
    first = appliedServers plainState (fun _ => true) emptyServers ∧ again.world.servers = first ∧
      ∃ report, again.outcome = .Done report ∧
        (report.noop = true ↔
          (true = true → ∀ item ∈ (emptyServers .Prowlarr).items .Applications,
            urlOk plainState item = true ∨ ¬Shadowed item)) :=
  edge_apply_twice labelled plainState (fun _ => true) emptyServers quiet quiet 0 0 segmentBases_plain
    ids_hidden alone_quiet answered_quiet applied_hidden

end Twice

end Mediaops.Arr
