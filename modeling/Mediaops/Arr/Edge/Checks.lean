import Mediaops.Arr.Edge

namespace Mediaops.Arr

-- What the check says of the servers that the edge was applied to.

-- A slash and a segment that is not empty.
def SegmentBase (base : Text) : Prop := ∃ c rest, base = '/' :: c :: rest ∧ c ≠ '/'

-- The flat URL hides the one in the fields, which is where it is written.
def Shadowed (app : Json) : Prop := (flatUrl app).isSome ∧ (fieldsOf app).isSome

instance : DecidablePred Shadowed := fun app =>
  inferInstanceAs (Decidable ((flatUrl app).isSome ∧ (fieldsOf app).isSome))

-- The base an application is checked for, by its name.
def baseOf (desired : DesiredState) (app : Json) : Text :=
  appUrlBase (.new desired) (lowerName app)

-- The daemon's base is in the URL when it is the base that is applied, and the URL has it
-- or does not hide what is written; when it is another base, it is in the URL that stays.
def ApplicationAgrees (daemon desired : DesiredState) (app : Json) : Prop :=
  let url := (prowlarrAppBaseUrl app).getD []
  let base := baseOf desired app
  if baseOf daemon app = base then Prowlarr.applicationUrlOk url base = true ∨ ¬Shadowed app
  else if Prowlarr.applicationUrlOk url base = true ∨ Shadowed app then
    Prowlarr.applicationUrlOk url (baseOf daemon app) = true
  else Prowlarr.applicationUrlOk (targetUrl (lowerName app) base) (baseOf daemon app) = true

structure EdgeAgrees (daemon desired : DesiredState) (items : List Json) : Prop where
  bind : (LocalhostGrabOps.new daemon).bind = (LocalhostGrabOps.new desired).bind
  auth : Text.eqIgnoreAsciiCase (LocalhostGrabOps.new desired).auth (LocalhostGrabOps.new daemon).auth = true
  bases : ∀ app, hostUrlBase (.new daemon) app = hostUrlBase (.new desired) app
  applications : ∀ app ∈ items, ApplicationAgrees daemon desired app

section Urls

theorem flatUrl_set_fields {app after value : Json} (h : Json.set fieldsKey value app = some after) :
    flatUrl after = flatUrl app := by
  rw [flatUrl, Json.get_set h, Json.get_set h, if_neg (by decide), if_neg (by decide), flatUrl]

theorem flatUrl_set_base {app after : Json} {url : Text}
    (h : Json.set baseUrlKey (.String url) app = some after) : flatUrl after = some url := by
  rw [flatUrl, Json.get_set h, if_pos rfl]
  rfl

-- Where the URL is read once it is written.
theorem prowlarrAppBaseUrl_set {app after : Json} {url : Text}
    (h : setProwlarrAppBaseUrl url app = some after) :
    prowlarrAppBaseUrl after = if Shadowed app then flatUrl app else some url := by
  unfold setProwlarrAppBaseUrl at h
  cases hfields : fieldsOf app with
  | some fields =>
      rw [hfields] at h
      unfold prowlarrAppBaseUrl
      rw [flatUrl_set_fields h]
      cases hflat : flatUrl app with
      | some flat =>
          rw [if_pos ⟨by rw [hflat]; rfl, by rw [hfields]; rfl⟩]
      | none =>
          rw [if_neg (fun hshadow => by simp [Shadowed, hflat] at hshadow), fieldsOf_set h]
          simp only [Option.bind_some, Json.entryValue_putEntry, if_pos]
          rfl
  | none =>
      rw [hfields] at h
      unfold prowlarrAppBaseUrl
      rw [flatUrl_set_base h, if_neg (fun hshadow => by simp [Shadowed, hfields] at hshadow)]

theorem idOf_set {app after : Json} {url : Text} (h : setProwlarrAppBaseUrl url app = some after) :
    idOf after = idOf app := by
  unfold setProwlarrAppBaseUrl at h
  cases hfields : fieldsOf app with
  | some fields =>
      rw [hfields] at h
      rw [idOf, Json.get_set h, if_neg (by decide), idOf]
  | none =>
      rw [hfields] at h
      rw [idOf, Json.get_set h, if_neg (by decide), idOf]

theorem nameOf_set {app after : Json} {url : Text} (h : setProwlarrAppBaseUrl url app = some after) :
    Json.nameOf after = Json.nameOf app := by
  unfold setProwlarrAppBaseUrl at h
  cases hfields : fieldsOf app with
  | some fields =>
      rw [hfields] at h
      rw [Json.nameOf, Json.get_set h, if_neg (by decide), Json.nameOf]
  | none =>
      rw [hfields] at h
      rw [Json.nameOf, Json.get_set h, if_neg (by decide), Json.nameOf]

theorem trimBase_segment {base : Text} (h : SegmentBase base) : Prowlarr.trimBase base ≠ [] := by
  obtain ⟨c, rest, rfl, hc⟩ := h
  have hkeep : Text.trimEndMatches (· == '/') (c :: rest) ≠ [] := by
    rw [Text.trimEndMatches_cons, if_neg (fun hdrop => hc (by simpa using hdrop.2))]
    exact List.cons_ne_nil _ _
  rw [Prowlarr.trimBase, Text.trimEndMatches_cons, if_neg (fun hdrop => hkeep hdrop.1)]
  exact List.cons_ne_nil _ _

-- What is written has the base it is written for.
theorem targetUrl_ok {base : Text} (h : SegmentBase base) (name : Text) :
    Prowlarr.applicationUrlOk (targetUrl name base) base = true := by
  have hhead : base.head? = some '/' := by
    obtain ⟨c, rest, rfl, -⟩ := h
    rfl
  rw [Prowlarr.applicationUrlOk_iff hhead]
  refine ⟨trimBase_segment h, "http://127.0.0.1:".toList ++ Text.decimal (applicationPort name),
    base.rtakeWhile (· == '/'), ?_, ?_⟩
  · rw [Prowlarr.trimBase, Text.trimEndMatches, List.rdropWhile_append_rtakeWhile]
    rfl
  · intro c hc
    have hslash := List.mem_rtakeWhile_imp (p := (· == '/')) (List.mem_of_mem_head? hc)
    simp [beq_iff_eq.mp hslash]

end Urls

section Drift

variable {host : HostConfig} {urlBase bind auth app : Text}

theorem bindDrift_nil (hstar : isStar host.bindAddress = false) :
    bindDrift host bind app = [] ↔ host.bindAddress = bind := by
  rw [bindDrift, if_neg (by simp [hstar])]
  by_cases h : host.bindAddress = bind <;> simp [h]

theorem urlBaseDrift_nil (hne : host.urlBase ≠ []) :
    urlBaseDrift host urlBase app = [] ↔ host.urlBase = urlBase := by
  rw [urlBaseDrift, if_neg hne]
  by_cases h : host.urlBase = urlBase <;> simp [h]

theorem authDrift_nil :
    authDrift host auth app = [] ↔ Text.eqIgnoreAsciiCase host.authenticationMethod auth = true := by
  rw [authDrift]
  by_cases h : Text.eqIgnoreAsciiCase host.authenticationMethod auth = true <;> simp [h]

theorem applicationDrift_nil {ops : LocalhostGrabOps} {app : Json} :
    applicationDrift ops app = [] ↔
      Prowlarr.applicationUrlOk ((prowlarrAppBaseUrl app).getD []) (appUrlBase ops (lowerName app)) = true := by
  simp only [applicationDrift]
  split
  · rename_i hok
    simp [hok]
  · rename_i hbad
    simp [hbad]

end Drift

section Applied

variable {desired : DesiredState}

-- The host configuration an application is left with.
def appliedHost (desired : DesiredState) (app : App) : HostConfig where
  bindAddress := (LocalhostGrabOps.new desired).bind
  urlBase := hostUrlBase (.new desired) app
  authenticationMethod := (LocalhostGrabOps.new desired).auth

-- An application of the list as it is left.
def appliedApplication (desired : DesiredState) (app : Json) : Json :=
  if Prowlarr.applicationUrlOk ((prowlarrAppBaseUrl app).getD []) (baseOf desired app) = true then app
  else (setProwlarrAppBaseUrl (targetUrl (lowerName app) (baseOf desired app)) app).getD app

theorem desiredBind_new (desired : DesiredState) :
    desiredBind (.new desired) desired = (LocalhostGrabOps.new desired).bind := by
  unfold desiredBind LocalhostGrabOps.new
  cases desired.edge <;> rfl

theorem desiredBase_new (desired : DesiredState) (app : Json) :
    desiredBase (.new desired) desired (lowerName app) = baseOf desired app := by
  unfold desiredBase baseOf appUrlBase LocalhostGrabOps.new
  cases desired.edge with
  | none => rfl
  | some edge =>
      dsimp only [Option.bind_some, Option.map_some, Option.getD_some]
      cases edge.urlBases.get (lowerName app) <;> rfl

theorem edgeMembers_new (desired : DesiredState) (app : App) :
    edgeMembers (.new desired) desired app =
      [(bindKey, .String (appliedHost desired app).bindAddress),
        (urlBaseKey, .String (appliedHost desired app).urlBase),
        (authKey, .String (appliedHost desired app).authenticationMethod)] := by
  unfold edgeMembers appliedHost
  rw [desiredBind_new]
  unfold hostUrlBase LocalhostGrabOps.new
  cases desired.edge <;> rfl

-- What was set is read.
theorem parseHostConfig_applied {app : App} {live body : Json}
    (h : Json.setAll (edgeMembers (.new desired) desired app) live = some body) :
    parseHostConfig body = .ok (appliedHost desired app) := by
  rw [edgeMembers_new] at h
  have hget := Json.get_setAll (by show [bindKey, urlBaseKey, authKey].Nodup; decide) h
  have hread : ∀ key text, Json.lookup key
      [(bindKey, Json.String (appliedHost desired app).bindAddress),
        (urlBaseKey, .String (appliedHost desired app).urlBase),
        (authKey, .String (appliedHost desired app).authenticationMethod)] = some (.String text) →
      requireStr body key = .ok text := by
    intro key text hkey
    rw [requireStr, hget, hkey]
    rfl
  unfold parseHostConfig
  rw [hread bindKey _ rfl, hread urlBaseKey _ rfl, hread authKey _ rfl]
  rfl

theorem idOf_applied (app : Json) : idOf (appliedApplication desired app) = idOf app := by
  unfold appliedApplication
  split
  · rfl
  · cases hset : setProwlarrAppBaseUrl (targetUrl (lowerName app) (baseOf desired app)) app with
    | none => rfl
    | some after => exact idOf_set hset

-- The application can be left as it is, or it takes the URL.
def Applicable (desired : DesiredState) (app : Json) : Prop :=
  Prowlarr.applicationUrlOk ((prowlarrAppBaseUrl app).getD []) (baseOf desired app) = true ∨
    (setProwlarrAppBaseUrl (targetUrl (lowerName app) (baseOf desired app)) app).isSome

-- The application is as it is checked if it agrees, and in no other case.
theorem applied_ok_iff {daemon : DesiredState} {app : Json}
    (hbase : SegmentBase (baseOf desired app)) (happlicable : Applicable desired app) :
    applicationDrift (.new daemon) (appliedApplication desired app) = [] ↔
      ApplicationAgrees daemon desired app := by
  rw [applicationDrift_nil]
  unfold appliedApplication ApplicationAgrees
  dsimp only
  by_cases hok : Prowlarr.applicationUrlOk ((prowlarrAppBaseUrl app).getD []) (baseOf desired app) = true
  · rw [if_pos hok]
    show Prowlarr.applicationUrlOk _ (baseOf daemon app) = true ↔ _
    by_cases hsame : baseOf daemon app = baseOf desired app
    · rw [if_pos hsame, hsame]
      exact iff_of_true hok (Or.inl hok)
    · rw [if_neg hsame, if_pos (Or.inl hok)]
  · obtain ⟨after, hset⟩ := Option.isSome_iff_exists.mp (happlicable.resolve_left hok)
    have hname : lowerName after = lowerName app := by rw [lowerName, nameOf_set hset, lowerName]
    rw [if_neg hok, hset, Option.getD_some, hname, prowlarrAppBaseUrl_set hset]
    show Prowlarr.applicationUrlOk _ (baseOf daemon app) = true ↔ _
    by_cases hshadow : Shadowed app
    · have hflat : (flatUrl app).getD [] = (prowlarrAppBaseUrl app).getD [] := by
        obtain ⟨flat, hflat⟩ := Option.isSome_iff_exists.mp hshadow.1
        rw [prowlarrAppBaseUrl, hflat]
      rw [if_pos hshadow, hflat]
      by_cases hsame : baseOf daemon app = baseOf desired app
      · rw [if_pos hsame, hsame]
        exact iff_of_false hok (fun h => h.elim hok fun hclear => hclear hshadow)
      · rw [if_neg hsame, if_pos (Or.inr hshadow)]
    · rw [if_neg hshadow, Option.getD_some]
      by_cases hsame : baseOf daemon app = baseOf desired app
      · rw [if_pos hsame, hsame]
        exact iff_of_true (targetUrl_ok hbase _) (Or.inr hshadow)
      · rw [if_neg hsame, if_neg (fun h => h.elim hok hshadow)]

end Applied

section Runs

variable {answered : Prop} {app : App} {Q : (App → Server) → Prop} {H : Net → Prop}

-- A reading of what a server always has.
theorem served_get {target : Target} (read : Server → Json)
    (hread : ∀ server pick, Server.serve server pick { method := .Get, target } =
      ({ status := 200, body := some (read server) }, server))
    (hH : ¬answered → ∀ net, H net) :
    Served answered (fun net => Q net.servers) (getJson app target)
      (fun value net => value = read (net.servers app) ∧ Q net.servers) H := by
  apply served_json
  · intro net pick hnet
    have hdeliver : deliver app { method := .Get, target } pick net.servers =
        ({ status := 200, body := some (read (net.servers app)) }, net.servers) := by
      rw [deliver, hread]
      exact congrArg _ (Function.update_eq_self _ _)
    rw [hdeliver]
    exact ⟨rfl, hnet⟩
  · intro hunanswered net _
    exact ⟨hH hunanswered _, fun _ => hH hunanswered _⟩

theorem served_getHost (hH : ¬answered → ∀ net, H net) :
    Served answered (fun net => Q net.servers) (getJson app .HostConfig)
      (fun value net => value = (net.servers app).hostConfig ∧ Q net.servers) H :=
  served_get (·.hostConfig) (fun _ _ => rfl) hH

theorem served_getAll {resource : Resource} (hH : ¬answered → ∀ net, H net) :
    Served answered (fun net => Q net.servers) (getJson app (.All resource))
      (fun value net => value = .Array ((net.servers app).items resource) ∧ Q net.servers) H :=
  served_get (fun server => .Array (server.items resource)) (fun _ _ => rfl) hH

-- What holds from every state of the servers.
theorem served_at {ε α : Type} {m : Prog Net ε α} {A : α → Net → Prop}
    (h : ∀ servers, Q servers → Served answered (fun net => net.servers = servers) m A H) :
    Served answered (fun net => Q net.servers) m A H :=
  fun past net hnet => h net.servers hnet past net rfl

end Runs

section Apply

variable {servers : App → Server} {desired : DesiredState} {app : App}
  {unifiedDiff : Json → Json → Text → Text}

theorem served_orPanic {α : Type} {P : Net → Prop} (value : Option α) :
    Served False P (orPanic value) (fun a net => value = some a ∧ P net) (fun _ => True) := by
  cases value with
  | none => exact runs_throw fun _ _ => trivial
  | some a => exact runs_pure fun _ hnet => ⟨rfl, hnet⟩

-- A request whose answer does not matter, when any failure may end the run.
theorem served_put {target : Target} {body : Json} {after : Server}
    (hserve : ∀ pick answer, (servers app).serve pick { method := .Put, target, body := some body } = answer →
      answer.1.status < 400 → answer.2 = after) :
    Served False (fun net => net.servers = servers) (putJson app target body)
      (fun _ net => net.servers = Function.update servers app after) (fun _ => True) := by
  apply served_json
  · rintro net pick rfl
    dsimp only
    split
    · trivial
    · rename_i hstatus
      exact congrArg (Function.update net.servers app) (hserve pick _ rfl (Nat.lt_of_not_le hstatus))
  · exact fun _ _ _ => ⟨trivial, fun _ => trivial⟩

theorem served_applyHostConfig :
    Served False (fun net => net.servers = servers)
      (applyHostConfig unifiedDiff (.new desired) desired app)
      (fun _ net => ∃ body,
        Json.setAll (edgeMembers (.new desired) desired app) (servers app).hostConfig = some body ∧
          net.servers = Function.update servers app { servers app with hostConfig := body })
      (fun _ => True) := by
  apply (served_getHost (Q := (· = servers)) fun _ _ => trivial).mapError.bind
  intro live
  apply (served_orPanic _).bind
  intro body
  apply Runs.of_pre (p := Json.setAll (edgeMembers (.new desired) desired app)
    (servers app).hostConfig = some body)
  · rintro net ⟨hset, rfl, rfl⟩
    exact hset
  intro hset
  apply runs_ite
  · intro _
    apply Runs.bind (A := fun _ net =>
      net.servers = Function.update servers app { servers app with hostConfig := body })
    · apply Runs.mapError
      have hserve : ∀ pick answer, (servers app).serve pick
            { method := .Put, target := .HostConfig, body := some body } = answer →
          answer.1.status < 400 → answer.2 = { servers app with hostConfig := body } := by
        rintro pick _ rfl _
        rfl
      apply (served_put hserve).mono
      · exact fun net hnet => hnet.2.2
      · exact fun _ _ hnet => hnet
      · exact fun _ _ => trivial
    · intro _
      exact runs_pure fun net hnet => ⟨body, hset, hnet⟩
  · intro hsame
    apply runs_pure
    rintro net ⟨_, hlive, hservers⟩
    refine ⟨body, hset, ?_⟩
    rw [hservers] at hlive ⊢
    rw [← not_not.mp hsame, hlive]
    exact (Function.update_eq_self app servers).symm

-- A server with the applications from `done` on still to be applied to.
def midway (desired : DesiredState) (server : Server) (done rest : List Json) : Server :=
  server.put .Applications (done.map (appliedApplication desired) ++ rest)

theorem filterMap_idOf_applied (desired : DesiredState) (done rest : List Json) :
    (done.map (appliedApplication desired) ++ rest).filterMap idOf = (done ++ rest).filterMap idOf := by
  rw [List.filterMap_append, List.filterMap_append, List.filterMap_map]
  congr 2
  exact funext idOf_applied

theorem served_applyProwlarrApp {done rest : List Json} {item : Json}
    (hdistinct : ((done ++ item :: rest).filterMap idOf).Nodup) {server : Server} :
    Served False
      (fun net => net.servers = Function.update servers .Prowlarr (midway desired server done (item :: rest)))
      (applyProwlarrApp (.new desired) desired item)
      (fun _ net => Applicable desired item ∧
        net.servers = Function.update servers .Prowlarr (midway desired server (done ++ [item]) rest))
      (fun _ => True) := by
  unfold applyProwlarrApp
  dsimp only
  rw [desiredBase_new]
  have hnext : ∀ body, appliedApplication desired item = body →
      midway desired server (done ++ [item]) rest =
        server.put .Applications (done.map (appliedApplication desired) ++ body :: rest) := by
    rintro body rfl
    simp [midway]
  apply runs_ite
  · intro hok
    have hsame : appliedApplication desired item = item := if_pos hok
    apply runs_pure
    intro net hnet
    rw [hnext item hsame]
    exact ⟨Or.inl hok, hnet⟩
  · intro hbad
    cases hid : idOf item with
    | none => exact runs_throw fun _ _ => trivial
    | some id =>
        apply (served_orPanic _).bind
        intro body
        apply Runs.of_pre (fun _ hnet => hnet.1)
        intro hset
        have hbody : appliedApplication desired item = body := by
          rw [appliedApplication, if_neg hbad]
          exact congrArg (Option.getD · item) hset
        have hdistinct : ((done.map (appliedApplication desired) ++ item :: rest).filterMap idOf).Nodup := by
          rw [filterMap_idOf_applied]
          exact hdistinct
        apply Runs.bind (A := fun _ net => net.servers =
          Function.update servers .Prowlarr (midway desired server (done ++ [item]) rest))
        · apply Runs.mapError
          have hserve : ∀ pick answer,
              (midway desired server done (item :: rest)).serve pick
                { method := .Put, target := .One .Applications id, body := some body } = answer →
              answer.1.status < 400 → answer.2 = midway desired server (done ++ [item]) rest := by
            rintro pick _ rfl
            simp only [Server.serve]
            split
            · intro _
              rw [hnext body hbody]
              simp only [midway, Server.items_put, Server.put_put]
              rw [map_replace hdistinct hid]
            · intro hstatus
              simp at hstatus
          rw [← Function.update_self .Prowlarr (midway desired server done (item :: rest)) servers]
            at hserve
          apply (served_put hserve).mono (fun net hnet => hnet.2)
          · intro _ net hnet
            rw [hnet, Function.update_idem]
          · exact fun _ _ => trivial
        · intro _
          exact runs_pure fun net hnet => ⟨Or.inr (by rw [hset]; rfl), hnet⟩

theorem served_applyProwlarrAppUrls (server : Server)
    (hdistinct : ((server.items .Applications).filterMap idOf).Nodup) :
    Served False (fun net => net.servers = Function.update servers .Prowlarr server)
      (applyProwlarrAppUrls (.new desired) desired)
      (fun _ net => (∀ item ∈ server.items .Applications, Applicable desired item) ∧
        net.servers = Function.update servers .Prowlarr
          (server.put .Applications ((server.items .Applications).map (appliedApplication desired))))
      (fun _ => True) := by
  apply (served_getAll (Q := (· = Function.update servers .Prowlarr server)) fun _ _ => trivial).mapError.bind
  intro value
  apply Runs.of_pre (p := value = .Array (server.items .Applications))
  · rintro net ⟨rfl, hnet⟩
    rw [hnet, Function.update_self]
  rintro rfl
  -- what is left to do, and that it makes the list of before with what is done
  refine Runs.mono (served_forEach (H := fun _ => True) (fun rest net => ∃ done, done ++ rest = server.items .Applications ∧
      (∀ item ∈ done, Applicable desired item) ∧
        net.servers = Function.update servers .Prowlarr (midway desired server done rest)) ?_
    (server.items .Applications)) ?_ ?_ fun _ _ => trivial
  · intro item rest
    apply runs_exists
    intro done
    apply Runs.of_pre (fun _ hnet => hnet.1)
    intro hdone
    apply Runs.of_pre (fun _ hnet => hnet.2.1)
    intro happlicable
    apply (served_applyProwlarrApp (hdone ▸ hdistinct)).mono
    · exact fun _ hnet => hnet.2.2
    · rintro _ net ⟨hitem, hnet⟩
      refine ⟨done ++ [item], by simp [hdone], ?_, hnet⟩
      intro other hother
      rcases List.mem_append.mp hother with hother | hother
      · exact happlicable other hother
      · exact List.mem_singleton.mp hother ▸ hitem
    · exact fun _ _ => trivial
  · intro net hnet
    refine ⟨[], rfl, fun _ hitem => absurd hitem List.not_mem_nil, ?_⟩
    rw [hnet.2, midway, List.map_nil, List.nil_append, Server.put_self]
  · rintro _ net ⟨done, hdone, happlicable, hnet⟩
    rw [List.append_nil] at hdone
    rw [← hdone]
    refine ⟨happlicable, ?_⟩
    rw [hnet, midway, List.append_nil]

-- What an application is left with.
structure AppliedTo (desired : DesiredState) (app : App) (before after : Server) : Prop where
  host : parseHostConfig after.hostConfig = .ok (appliedHost desired app)
  applications : app = .Prowlarr →
    (∀ item ∈ before.items .Applications, Applicable desired item) ∧
      after.items .Applications = (before.items .Applications).map (appliedApplication desired)

theorem served_applyEdgeApp {keys : Keys} (hkey : keys app = true)
    (hdistinct : app = .Prowlarr → (((servers app).items .Applications).filterMap idOf).Nodup) :
    Served False (fun net => net.servers = servers)
      (applyEdgeApp unifiedDiff (.new desired) desired keys app)
      (fun _ net => ∃ after, AppliedTo desired app (servers app) after ∧
        net.servers = Function.update servers app after)
      (fun _ => True) := by
  unfold applyEdgeApp
  rw [if_pos hkey]
  apply served_applyHostConfig.bind
  intro diffs
  apply runs_exists
  intro body
  apply Runs.of_pre (fun _ hnet => hnet.1)
  intro hset
  have hhost := parseHostConfig_applied hset
  apply runs_ite
  · rintro rfl
    apply Runs.bind
    · apply (served_applyProwlarrAppUrls { servers .Prowlarr with hostConfig := body }
        (hdistinct rfl)).mono
      · exact fun _ hnet => hnet.2
      · exact fun _ _ hnet => hnet
      · exact fun _ _ => trivial
    · intro more
      apply runs_pure
      rintro net ⟨happlicable, hnet⟩
      exact ⟨_, ⟨hhost, fun _ => ⟨happlicable, Server.items_put _ _ _⟩⟩, hnet⟩
  · intro hother
    apply runs_pure
    intro net hnet
    exact ⟨_, ⟨hhost, fun hprowlarr => absurd hprowlarr hother⟩, hnet.2⟩

-- Each application has its server applied to, one after the other.
theorem served_edgeApply {keys : Keys} (hkeys : ∀ app, keys app = true)
    (hdistinct : (((servers .Prowlarr).items .Applications).filterMap idOf).Nodup) :
    Served False (fun net => net.servers = servers) (edgeApply unifiedDiff desired keys)
      (fun _ net => isStar (LocalhostGrabOps.new desired).bind = false ∧
        ∀ app, AppliedTo desired app (servers app) (net.servers app))
      (fun _ => True) := by
  unfold edgeApply applyEdgeHost
  rw [desiredBind_new]
  by_cases hstar : isStar (LocalhostGrabOps.new desired).bind = true
  · rw [if_pos hstar]
    exact (runs_throw (A := fun _ _ => False) fun _ _ => trivial).bind fun _ _ _ h => h.elim
  rw [if_neg hstar]
  apply Runs.bind (A := fun _ net => ∀ app, AppliedTo desired app (servers app) (net.servers app))
  · refine Runs.mono (served_forEach (H := fun _ => True) (fun rest net => rest.Nodup ∧
        (∀ app ∈ rest, net.servers app = servers app) ∧
          ∀ app, app ∉ rest → AppliedTo desired app (servers app) (net.servers app)) ?_ apps)
      ?_ ?_ fun _ _ => trivial
    · intro app rest
      apply served_at (Q := fun state => (app :: rest).Nodup ∧
        (∀ other ∈ app :: rest, state other = servers other) ∧
          ∀ other, other ∉ app :: rest → AppliedTo desired other (servers other) (state other))
      rintro state ⟨hnodup, hleft, hdone⟩
      have hsame := hleft app List.mem_cons_self
      apply (served_applyEdgeApp (hkeys app) ?_).mono (fun _ hnet => hnet)
      · rintro _ net ⟨after, happlied, hnet⟩
        rw [hsame] at happlied
        refine ⟨(List.nodup_cons.mp hnodup).2, ?_, ?_⟩
        · intro other hother
          have hne : other ≠ app := fun h => (List.nodup_cons.mp hnodup).1 (h ▸ hother)
          rw [hnet, Function.update_of_ne hne]
          exact hleft other (List.mem_cons_of_mem _ hother)
        · intro other hother
          by_cases hne : other = app
          · subst hne
            rw [hnet, Function.update_self]
            exact happlied
          · rw [hnet, Function.update_of_ne hne]
            exact hdone other (by simp [hne, hother])
      · exact fun _ _ => trivial
      · rintro rfl
        rw [hsame]
        exact hdistinct
    · rintro net rfl
      refine ⟨by decide, fun _ _ => rfl, ?_⟩
      intro app hnone
      exact absurd (by cases app <;> decide) hnone
    · rintro diffs net ⟨-, -, hall⟩
      exact fun app => hall app List.not_mem_nil
  · intro diffs
    exact runs_pure fun net hall => ⟨Bool.not_eq_true _ ▸ hstar, hall⟩

end Apply

section Check

variable {servers : App → Server} {daemon : DesiredState} {app : App}

theorem served_checkEdgeApp {keys : Keys} {host : HostConfig} (hkey : keys app = true)
    (hhost : parseHostConfig (servers app).hostConfig = .ok host) :
    Served True (fun net => net.servers = servers) (checkEdgeApp (.new daemon) keys app)
      (fun found net =>
        found = hostConfigDrift host (hostUrlBase (.new daemon) app) (LocalhostGrabOps.new daemon).bind
            (LocalhostGrabOps.new daemon).auth app.name ++
          (if app = .Prowlarr then
            ((servers app).items .Applications).flatMap (applicationDrift (.new daemon)) else []) ∧
        net.servers = servers)
      (fun _ => False) := by
  unfold checkEdgeApp checkHostClient
  rw [if_pos hkey]
  apply Runs.bind (A := fun found net =>
    found = hostConfigDrift host (hostUrlBase (.new daemon) app) (LocalhostGrabOps.new daemon).bind
      (LocalhostGrabOps.new daemon).auth app.name ∧ net.servers = servers)
  · apply (served_getHost (Q := (· = servers)) fun h => absurd trivial h).mapError.bind
    intro value
    apply Runs.of_pre (p := value = (servers app).hostConfig)
    · rintro net ⟨rfl, rfl⟩
      rfl
    rintro rfl
    rw [hhost]
    apply Runs.bind (A := fun found net => found = host ∧ net.servers = servers)
    · exact (runs_pure fun net hnet => ⟨rfl, hnet.2⟩).mapError
    · intro found
      apply Runs.of_pre (fun _ hnet => hnet.1)
      rintro rfl
      exact runs_pure fun net hnet => ⟨rfl, hnet.2⟩
  · intro drift
    apply Runs.of_pre (fun _ hnet => hnet.1)
    rintro rfl
    apply runs_ite
    · rintro rfl
      apply ((served_getAll (Q := (· = servers)) fun h => absurd trivial h).mapError.mono
        (fun net hnet => hnet.2) (fun _ _ hnet => hnet) fun _ h => h).bind
      intro value
      apply Runs.of_pre (p := value = .Array ((servers .Prowlarr).items .Applications))
      · rintro net ⟨rfl, rfl⟩
        rfl
      rintro rfl
      exact runs_pure fun net hnet => ⟨rfl, hnet.2⟩
    · intro hother
      apply runs_pure
      intro net hnet
      rw [if_neg hother, List.append_nil]
      exact ⟨rfl, hnet.2⟩

-- What the check finds at one application.
def foundAt (daemon desired : DesiredState) (items : List Json) (app : App) : List Text :=
  hostConfigDrift (appliedHost desired app) (hostUrlBase (.new daemon) app)
      (LocalhostGrabOps.new daemon).bind (LocalhostGrabOps.new daemon).auth app.name ++
    (if app = .Prowlarr then items.flatMap (applicationDrift (.new daemon)) else [])

theorem served_edgeApiCheck {desired : DesiredState} {keys : Keys} (hkeys : ∀ app, keys app = true)
    (hhost : ∀ app, parseHostConfig (servers app).hostConfig = .ok (appliedHost desired app)) :
    Served True (fun net => net.servers = servers) (edgeApiCheck (.new daemon) keys)
      (fun report _ => report.invariantOk = true ↔
        ∀ app, foundAt daemon desired ((servers .Prowlarr).items .Applications) app = [])
      (fun _ => False) := by
  unfold edgeApiCheck checkEdgeApps
  have hloop : Served True (fun net => net.servers = servers) (forEach (checkEdgeApp (.new daemon) keys) apps)
      (fun found net =>
        found = apps.flatMap (foundAt daemon desired ((servers .Prowlarr).items .Applications)) ∧
          net.servers = servers) (fun _ => False) := by
    apply served_flatMap
    intro app _
    apply (served_checkEdgeApp (hkeys app) (hhost app)).mono (fun _ hnet => hnet) ?_ fun _ h => h
    rintro _ net ⟨rfl, hnet⟩
    refine ⟨?_, hnet⟩
    unfold foundAt
    by_cases hprowlarr : app = .Prowlarr
    · subst hprowlarr
      rfl
    · rw [if_neg hprowlarr, if_neg hprowlarr]
  apply hloop.bind
  intro drift
  apply runs_pure
  rintro net ⟨rfl, -⟩
  show List.isEmpty _ = true ↔ _
  rw [List.isEmpty_iff, List.flatMap_eq_nil_iff]
  exact ⟨fun hall app => hall app (by cases app <;> decide), fun hall app _ => hall app⟩

end Check

section Agreement

variable {daemon desired : DesiredState}

def SegmentBases (desired : DesiredState) : Prop :=
  ∀ edge ∈ desired.edge, ∀ entry ∈ edge.urlBases.entries, SegmentBase entry.2

theorem segmentBase_get (h : SegmentBases desired) (name : Text) :
    ∀ base ∈ (LocalhostGrabOps.new desired).urlBases.get name, SegmentBase base := by
  intro base hbase
  unfold LocalhostGrabOps.new at hbase
  cases hedge : desired.edge with
  | none =>
      rw [hedge] at hbase
      cases hbase
  | some edge =>
      rw [hedge] at hbase
      obtain ⟨entry, hfind, rfl⟩ := Option.map_eq_some_iff.mp hbase
      exact h edge hedge entry (List.mem_of_find?_eq_some hfind)

theorem segmentBase_default (name : Text) : SegmentBase (defaultBase name) := by
  unfold defaultBase
  split
  · exact ⟨'r', _, rfl, by decide⟩
  · split
    · exact ⟨'l', _, rfl, by decide⟩
    · split
      · exact ⟨'p', _, rfl, by decide⟩
      · exact ⟨'s', _, rfl, by decide⟩

theorem segmentBase_baseOf (h : SegmentBases desired) (app : Json) : SegmentBase (baseOf desired app) := by
  unfold baseOf appUrlBase
  cases hbase : (LocalhostGrabOps.new desired).urlBases.get (lowerName app) with
  | none => exact segmentBase_default _
  | some base => exact segmentBase_get h _ base hbase

theorem segmentBase_host (h : SegmentBases desired) (app : App) :
    SegmentBase (hostUrlBase (.new desired) app) := by
  unfold hostUrlBase
  cases hbase : (LocalhostGrabOps.new desired).urlBases.get app.name with
  | none => cases app <;> exact ⟨_, _, rfl, by decide⟩
  | some base => exact segmentBase_get h _ base hbase

theorem hostConfigDrift_nil (hstar : isStar (LocalhostGrabOps.new desired).bind = false)
    (hbases : SegmentBases desired) (app : App) :
    hostConfigDrift (appliedHost desired app) (hostUrlBase (.new daemon) app)
        (LocalhostGrabOps.new daemon).bind (LocalhostGrabOps.new daemon).auth app.name = [] ↔
      (LocalhostGrabOps.new daemon).bind = (LocalhostGrabOps.new desired).bind ∧
        hostUrlBase (.new daemon) app = hostUrlBase (.new desired) app ∧
          Text.eqIgnoreAsciiCase (LocalhostGrabOps.new desired).auth
            (LocalhostGrabOps.new daemon).auth = true := by
  have hne : (appliedHost desired app).urlBase ≠ [] := by
    obtain ⟨c, rest, hbase, -⟩ := segmentBase_host hbases app
    show hostUrlBase (.new desired) app ≠ []
    rw [hbase]
    exact List.cons_ne_nil _ _
  unfold hostConfigDrift
  rw [List.append_eq_nil_iff, List.append_eq_nil_iff, bindDrift_nil hstar, urlBaseDrift_nil hne,
    authDrift_nil, and_assoc]
  exact and_congr eq_comm (and_congr eq_comm Iff.rfl)

-- Nothing is found if the two desired states agree, and in no other case.
theorem found_nil_iff {items : List Json} (hstar : isStar (LocalhostGrabOps.new desired).bind = false)
    (hbases : SegmentBases desired) (happlicable : ∀ item ∈ items, Applicable desired item) :
    (∀ app, foundAt daemon desired (items.map (appliedApplication desired)) app = []) ↔
      EdgeAgrees daemon desired items := by
  have hitems : (items.map (appliedApplication desired)).flatMap (applicationDrift (.new daemon)) = [] ↔
      ∀ item ∈ items, ApplicationAgrees daemon desired item := by
    rw [List.flatMap_eq_nil_iff, List.forall_mem_map]
    refine forall_congr' fun item => forall_congr' fun hitem => ?_
    exact applied_ok_iff (segmentBase_baseOf hbases item) (happlicable item hitem)
  have hfound : ∀ app, foundAt daemon desired (items.map (appliedApplication desired)) app = [] ↔
      ((LocalhostGrabOps.new daemon).bind = (LocalhostGrabOps.new desired).bind ∧
        hostUrlBase (.new daemon) app = hostUrlBase (.new desired) app ∧
          Text.eqIgnoreAsciiCase (LocalhostGrabOps.new desired).auth
            (LocalhostGrabOps.new daemon).auth = true) ∧
        (app = .Prowlarr → ∀ item ∈ items, ApplicationAgrees daemon desired item) := by
    intro app
    rw [foundAt, List.append_eq_nil_iff, hostConfigDrift_nil hstar hbases]
    refine and_congr_right fun _ => ?_
    by_cases hprowlarr : app = .Prowlarr
    · rw [if_pos hprowlarr, hitems]
      exact ⟨fun h _ => h, fun h => h hprowlarr⟩
    · rw [if_neg hprowlarr]
      exact iff_of_true rfl fun h => absurd h hprowlarr
  constructor
  · intro hall
    have hat := fun app => (hfound app).mp (hall app)
    exact ⟨(hat .Prowlarr).1.1, (hat .Prowlarr).1.2.2, fun app => (hat app).1.2.1, (hat .Prowlarr).2 rfl⟩
  · intro h app
    exact (hfound app).mpr ⟨⟨h.bind, h.bases app, h.auth⟩, fun _ => h.applications⟩

-- The check of the daemon after an apply that went through.
theorem edge_check_reports {unifiedDiff : Json → Json → Text → Text} {keys : Keys} {servers : App → Server}
    (hkeys : ∀ app, keys app = true) (hbases : SegmentBases desired)
    (hids : (((servers .Prowlarr).items .Applications).filterMap idOf).Nodup)
    {moves moves' : Nat → Move Net} (hmoves : Alone moves) (hmoves' : Answered moves') {turn turn' : Nat}
    (happly : ∃ report, (edgeApply unifiedDiff desired keys moves turn { servers }).outcome = .Done report) :
    ∃ found, (edgeApiCheck (.new daemon) keys moves' turn'
        { servers := (edgeApply unifiedDiff desired keys moves turn { servers }).world.servers }).outcome =
          .Done found ∧
      (found.invariantOk = true ↔
        EdgeAgrees daemon desired ((servers .Prowlarr).items .Applications)) := by
  obtain ⟨report, happly⟩ := happly
  have hserved : Served False (fun net => net.servers = servers) (edgeApply unifiedDiff desired keys) _ _ :=
    served_edgeApply hkeys hids
  obtain ⟨hstar, happlied⟩ :=
    (served_run hserved (fun n => ⟨hmoves n, False.elim⟩) turn { servers } rfl).1 report happly
  have hprowlarr := (happlied .Prowlarr).applications rfl
  have hchecked : Served True _ (edgeApiCheck (.new daemon) keys) _ _ :=
    served_edgeApiCheck hkeys fun app => (happlied app).host
  have hcheck := served_run hchecked (fun n => ⟨(hmoves' n).1, fun _ => (hmoves' n).2⟩) turn'
    { servers := (edgeApply unifiedDiff desired keys moves turn { servers }).world.servers } rfl
  by_cases hdone : ∃ found, (edgeApiCheck (.new daemon) keys moves' turn'
      { servers := (edgeApply unifiedDiff desired keys moves turn { servers }).world.servers }).outcome =
        .Done found
  · obtain ⟨found, hfound⟩ := hdone
    refine ⟨found, hfound, (hcheck.1 found hfound).trans ?_⟩
    rw [hprowlarr.2]
    exact found_nil_iff hstar hbases hprowlarr.1
  · exact (hcheck.2 fun found hfound => hdone ⟨found, hfound⟩).elim

-- The URL that is written is read back unless a flat one hides it.
theorem prowlarrAppBaseUrl_written (map : List Json.Member) (url : Text) :
    ∃ after, setProwlarrAppBaseUrl url (.Object map) = some after ∧
      (prowlarrAppBaseUrl after = some url ↔
        (Shadowed (.Object map) → flatUrl (.Object map) = some url)) := by
  have hset : ∃ after, setProwlarrAppBaseUrl url (.Object map) = some after := by
    unfold setProwlarrAppBaseUrl
    cases fieldsOf (.Object map) <;> exact ⟨_, rfl⟩
  obtain ⟨after, hset⟩ := hset
  refine ⟨after, hset, ?_⟩
  rw [prowlarrAppBaseUrl_set hset]
  by_cases hshadow : Shadowed (.Object map)
  · rw [if_pos hshadow]
    exact ⟨fun h _ => h, fun h => h hshadow⟩
  · rw [if_neg hshadow]
    exact iff_of_true rfl fun h => absurd h hshadow

-- After an apply that went through the check reports no drift if the daemon's desired state
-- agrees with the applied one, and no URL that is written is hidden.
theorem edge_check_after_apply (unifiedDiff : Json → Json → Text → Text) (daemon desired : DesiredState)
    (keys : Keys) (servers : App → Server) (moves moves' : Nat → Move Net) (turn turn' : Nat)
    (hkeys : ∀ app, keys app = true) (hbases : SegmentBases desired)
    (hids : (((servers .Prowlarr).items .Applications).filterMap idOf).Nodup)
    (hmoves : Alone moves) (hmoves' : Answered moves')
    (happly : ∃ report, (edgeApply unifiedDiff desired keys moves turn { servers }).outcome = .Done report) :
    (∃ found, (edgeApiCheck (.new daemon) keys moves' turn'
        { servers := (edgeApply unifiedDiff desired keys moves turn { servers }).world.servers }).outcome =
          .Done found ∧
      (found.invariantOk = true ↔
        EdgeAgrees daemon desired ((servers .Prowlarr).items .Applications))) ∧
    ∀ map url, ∃ after, setProwlarrAppBaseUrl url (.Object map) = some after ∧
      (prowlarrAppBaseUrl after = some url ↔
        (Shadowed (.Object map) → flatUrl (.Object map) = some url)) :=
  ⟨edge_check_reports hkeys hbases hids hmoves hmoves' happly, prowlarrAppBaseUrl_written⟩

end Agreement

-- One server for all, whose only application has a flat URL and a list of fields.
def plainState : DesiredState where
  grabber := .None
  grab := {}
  edge := none

def hiddenApplication : Json :=
  .Object [(idKey, Serde.ofNat 1), (Json.nameKey, .String "Sonarr"),
    (baseUrlKey, .String "http://127.0.0.1:8989/1/"), (fieldsKey, .Array [])]

def emptyServers (app : App) : Server where
  hostConfig := .Object []
  items _ := if app = .Prowlarr then [hiddenApplication] else []

def labelled (_ _ : Json) (label : Text) : Text := label

theorem segmentBases_plain : SegmentBases plainState := by
  intro edge hedge
  cases hedge

theorem ids_hidden : (((emptyServers .Prowlarr).items .Applications).filterMap idOf).Nodup := by
  decide

def quiet (_ : Nat) : Move Net := {}

theorem alone_quiet : Alone quiet := fun _ => rfl

theorem answered_quiet : Answered quiet := fun _ => ⟨rfl, rfl⟩

theorem applied_hidden : ∃ report,
    (edgeApply labelled plainState (fun _ => true) quiet 0 { servers := emptyServers }).outcome =
      .Done report :=
  ⟨_, rfl⟩

theorem edge_check_after_apply_plain :
    (∃ found, (edgeApiCheck (.new plainState) (fun _ => true) quiet 0
        { servers := (edgeApply labelled plainState (fun _ => true) quiet 0
          { servers := emptyServers }).world.servers }).outcome = .Done found ∧
      (found.invariantOk = true ↔
        EdgeAgrees plainState plainState ((emptyServers .Prowlarr).items .Applications))) ∧
    ∀ map url, ∃ after, setProwlarrAppBaseUrl url (.Object map) = some after ∧
      (prowlarrAppBaseUrl after = some url ↔
        (Shadowed (.Object map) → flatUrl (.Object map) = some url)) :=
  edge_check_after_apply labelled plainState plainState (fun _ => true) emptyServers quiet quiet
    0 0 (fun _ => rfl) segmentBases_plain ids_hidden alone_quiet answered_quiet applied_hidden

-- The URL of the hidden application stays what it was, and the check says so each time.
theorem edge_check_after_apply_hidden :
    ¬∀ (unifiedDiff : Json → Json → Text → Text) (daemon desired : DesiredState) (keys : Keys)
      (servers : App → Server) (moves moves' : Nat → Move Net) (turn turn' : Nat),
      (∀ app, keys app = true) → SegmentBases desired →
      (((servers .Prowlarr).items .Applications).filterMap idOf).Nodup → Alone moves → Answered moves' →
      (∃ report, (edgeApply unifiedDiff desired keys moves turn { servers }).outcome = .Done report) →
      ∃ found, (edgeApiCheck (.new daemon) keys moves' turn'
          { servers := (edgeApply unifiedDiff desired keys moves turn { servers }).world.servers }).outcome =
            .Done found ∧ found.invariantOk = true := by
  intro h
  have hclaim := h labelled plainState plainState (fun _ => true) emptyServers quiet quiet
    0 0 (fun _ => rfl) segmentBases_plain ids_hidden alone_quiet answered_quiet applied_hidden
  obtain ⟨found, hdone, hok⟩ := hclaim
  obtain ⟨found', hdone', hiff⟩ := edge_check_reports (fun _ => rfl) segmentBases_plain ids_hidden
    alone_quiet answered_quiet applied_hidden
  obtain rfl : found = found' := Outcome.Done.inj (hdone.symm.trans hdone')
  have hagrees := (hiff.mp hok).applications hiddenApplication List.mem_cons_self
  unfold ApplicationAgrees at hagrees
  rw [if_pos rfl] at hagrees
  revert hagrees
  decide

end Mediaops.Arr
