import Mediaops.Arr.GrabApply.NamedRuns

namespace Mediaops.Arr

-- Custom formats, the scores of the quality profile and the delay profiles.

-- Objects under ids of their own, whose names, as far as there are any, are distinct too.
structure Numbered (items : List Json) : Prop where
  ids : ∀ item ∈ items, (idOf item).isSome
  distinct : (items.filterMap idOf).Nodup
  names : (items.filterMap Json.nameOf).Nodup

theorem object_of_id {item : Json} (h : (idOf item).isSome) : ∃ map, item = .Object map := by
  cases item with
  | Object map => exact ⟨map, rfl⟩
  | _ => cases h

-- The object of a name is that of no other, so that a change by name and one by id are one.
theorem map_named {front back : List Json} {item : Json} {name : Text} (f : Json → Json)
    (hnames : ((front ++ item :: back).filterMap Json.nameOf).Nodup) (hname : Json.nameOf item = some name) :
    (front ++ item :: back).map (fun other => if Json.nameOf other = some name then f other else other) =
      front ++ f item :: back := by
  rw [List.filterMap_append, List.filterMap_cons_some hname, List.nodup_append] at hnames
  obtain ⟨_, hback, hcross⟩ := hnames
  have hfront : ∀ other ∈ front, Json.nameOf other ≠ some name := fun other hother hsame =>
    hcross name (List.mem_filterMap.mpr ⟨other, hother, hsame⟩) name List.mem_cons_self rfl
  have hbehind : ∀ other ∈ back, Json.nameOf other ≠ some name := fun other hother hsame =>
    (List.nodup_cons.mp hback).1 (List.mem_filterMap.mpr ⟨other, hother, hsame⟩)
  rw [List.map_append, List.map_cons, if_pos hname]
  congr 1
  · rw [List.map_congr_left fun other hother => if_neg (hfront other hother), List.map_id']
  · rw [List.map_congr_left fun other hother => if_neg (hbehind other hother), List.map_id']

section Formats

variable {app : App} {others : App → Server} {still : Prop} {start : List Json} {names : List Text}

-- A new format, under some id.
def MadeFormat (name : Text) (item : Json) : Prop :=
  ∃ id, id < 2 ^ 63 ∧ item = Server.created id (formatMembers name)

-- All formats of the start, and behind them those of the names that were missing.
structure FormatsFrom (names : List Text) (start items : List Json) : Prop where
  numbered : Numbered items
  added : ∃ added : List (Text × Json), items = start ++ added.map Prod.snd ∧
    (added.map Prod.fst).Nodup ∧
      ∀ made ∈ added, made.1 ∈ names ∧ some made.1 ∉ start.map Json.nameOf ∧ MadeFormat made.1 made.2

def formatScene (app : App) (others : App → Server) (still : Prop) : Scene where
  app := app
  resource := .CustomFormat
  others := others
  still := still

theorem nameOf_format (id : Nat) (name : Text) :
    Json.nameOf (Server.created id (formatMembers name)) = some name := by
  rw [Json.nameOf, Server.created, Json.get_object, Json.lookup_assign, if_neg (by decide)]
  simp [formatMembers, Json.lookup_cons, Json.asStr]

theorem formatsFrom_refl (h : Numbered start) : FormatsFrom names start start :=
  ⟨h, [], by simp, List.nodup_nil, by simp⟩

theorem FormatsFrom.trans {middle items : List Json} (h : FormatsFrom names start middle)
    (h' : FormatsFrom names middle items) : FormatsFrom names start items := by
  obtain ⟨first, rfl, hfirst, hmade⟩ := h.added
  obtain ⟨second, rfl, hsecond, hmade'⟩ := h'.added
  have hname : ∀ made ∈ first, some made.1 ∈ (start ++ first.map Prod.snd).map Json.nameOf := by
    intro made hin
    obtain ⟨-, -, id, -, hitem⟩ := hmade made hin
    rw [List.map_append, List.map_map]
    refine List.mem_append_right _ (List.mem_map.mpr ⟨made, hin, ?_⟩)
    rw [Function.comp_apply, hitem, nameOf_format]
  refine ⟨h'.numbered, first ++ second, by simp, ?_, ?_⟩
  · rw [List.map_append]
    refine List.nodup_append.mpr ⟨hfirst, hsecond, ?_⟩
    intro a ha b hb hab
    obtain ⟨made, hin, rfl⟩ := List.mem_map.mp ha
    obtain ⟨made', hin', rfl⟩ := List.mem_map.mp hb
    exact (hmade' made' hin').2.1 (hab ▸ hname made hin)
  · intro made hin
    rcases List.mem_append.mp hin with hin | hin
    · exact hmade made hin
    · obtain ⟨hwanted, hnew, hform⟩ := hmade' made hin
      refine ⟨hwanted, fun hold => hnew ?_, hform⟩
      rw [List.map_append]
      exact List.mem_append_left _ hold

theorem FormatsFrom.add {items : List Json} {name : Text} {id : Nat} (h : FormatsFrom names start items)
    (hname : name ∈ names) (hnew : some name ∉ items.map Json.nameOf) (hfresh : Fresh items id) :
    FormatsFrom names start (items ++ [Server.created id (formatMembers name)]) := by
  have hid := idOf_created id hfresh.1 (formatMembers name)
  have hcalled := nameOf_format id name
  have hnumbered : Numbered (items ++ [Server.created id (formatMembers name)]) := by
    refine ⟨?_, ?_, ?_⟩
    · intro other hother
      rcases List.mem_append.mp hother with hother | hother
      · exact h.numbered.ids other hother
      · rw [List.mem_singleton.mp hother, hid]
        rfl
    · rw [List.filterMap_append, List.filterMap_cons_some hid, List.filterMap_nil]
      refine List.nodup_append.mpr ⟨h.numbered.distinct, List.nodup_singleton _, ?_⟩
      rintro a ha b hb rfl
      obtain ⟨other, hother, hsame⟩ := List.mem_filterMap.mp ha
      exact hfresh.2 (List.mem_map.mpr ⟨other, hother, hsame.trans (congrArg some (List.mem_singleton.mp hb))⟩)
    · rw [List.filterMap_append, List.filterMap_cons_some hcalled, List.filterMap_nil]
      refine List.nodup_append.mpr ⟨h.numbered.names, List.nodup_singleton _, ?_⟩
      rintro a ha b hb rfl
      obtain ⟨other, hother, hsame⟩ := List.mem_filterMap.mp ha
      exact hnew (List.mem_map.mpr ⟨other, hother, hsame.trans (congrArg some (List.mem_singleton.mp hb))⟩)
  refine h.trans ⟨hnumbered, [(name, _)], rfl, List.nodup_singleton _, ?_⟩
  intro made hmade
  rw [List.mem_singleton.mp hmade]
  exact ⟨hname, hnew, id, hfresh.1, rfl⟩

-- The list that is read on as known is the server's.
theorem scene_applyFormat (hstill : still → ∀ name ∈ names, some name ∈ start.map Json.nameOf)
    {name : Text} (hname : name ∈ names) {known : List Json} :
    (formatScene app others still).Runs
      (fun items => FormatsFrom names start items ∧ (still → items = start))
      (fun items => items = known ∧ FormatsFrom names start items ∧ (still → items = start))
      (applyFormat app known name)
      fun result items => items = result.2 ∧ FormatsFrom names start items ∧ (still → items = start) ∧
        some name ∈ items.map Json.nameOf ∧ ∀ other ∈ known, other ∈ items := by
  unfold applyFormat
  cases hnamed : named name known with
  | some live =>
      obtain ⟨hlive, hcalled⟩ := named_some hnamed
      apply scene_of_pre (p := (idOf live).isSome)
      · rintro items ⟨rfl, hfrom, -⟩
        exact hfrom.numbered.ids live hlive
      intro hsome
      obtain ⟨id, hid⟩ := Option.isSome_iff_exists.mp hsome
      have hset : Json.set Json.nameKey (.String name) live = some live := by
        apply Json.set_self
        rw [Json.nameOf] at hcalled
        obtain ⟨value, hvalue, htext⟩ := Option.bind_eq_some_iff.mp hcalled
        cases value with
        | String text => rw [hvalue, Option.some.inj htext]
        | _ => cases htext
      simp only [hid]
      apply scene_bind (scene_orPanic hset)
      intro body
      apply scene_of_pre fun _ h => h.1
      rintro rfl
      rw [if_neg (not_not.mpr rfl)]
      apply scene_pure
      rintro items ⟨-, rfl, hfrom, hsame⟩
      exact ⟨rfl, hfrom, hsame, List.mem_map.mpr ⟨_, hlive, hcalled⟩, fun _ h => h⟩
  | none =>
      have hnew := named_eq_none.mp hnamed
      apply scene_of_pre (p := ¬still)
      · rintro items ⟨rfl, -, hsame⟩ hs
        rw [hsame hs] at hnew
        exact hnew (hstill hs name hname)
      intro hopen
      apply scene_bind (A := fun created items => items = known ++ [created] ∧
        FormatsFrom names start items ∧ Json.nameOf created = some name)
      · apply Runs.mapError
        apply scene_postAll hopen (fun _ h => h.2)
        rintro items id ⟨rfl, hfrom, -⟩ hfresh
        have hafter := hfrom.add hname hnew hfresh
        exact ⟨⟨hafter, fun hs => absurd hs hopen⟩, rfl, hafter, nameOf_format id name⟩
      · intro created
        apply scene_pure
        rintro items ⟨rfl, hfrom, hcalled⟩
        refine ⟨rfl, hfrom, fun hs => absurd hs hopen, ?_, fun _ h => List.mem_append_left _ h⟩
        exact List.mem_map.mpr ⟨created, List.mem_append_right _ List.mem_cons_self, hcalled⟩

theorem scene_applyFormats (hstill : still → ∀ name ∈ names, some name ∈ start.map Json.nameOf)
    {todo : List Text} (htodo : ∀ name ∈ todo, name ∈ names) {known : List Json} :
    (formatScene app others still).Runs
      (fun items => FormatsFrom names start items ∧ (still → items = start))
      (fun items => items = known ∧ FormatsFrom names start items ∧ (still → items = start))
      (applyFormats app todo known)
      fun result items => items = result.2 ∧ FormatsFrom names start items ∧ (still → items = start) ∧
        (∀ name ∈ todo, some name ∈ items.map Json.nameOf) ∧ ∀ other ∈ known, other ∈ items := by
  induction todo generalizing known with
  | nil =>
      apply scene_pure
      rintro items ⟨rfl, hfrom, hsame⟩
      exact ⟨rfl, hfrom, hsame, fun _ h => absurd h List.not_mem_nil, fun _ h => h⟩
  | cons name rest ih =>
      apply scene_bind (scene_applyFormat hstill (htodo name List.mem_cons_self))
      rintro ⟨first, known'⟩
      apply scene_of_pre (p := some name ∈ known'.map Json.nameOf ∧ ∀ other ∈ known, other ∈ known')
      · rintro items ⟨rfl, -, -, hcalled, hkept⟩
        exact ⟨hcalled, hkept⟩
      rintro ⟨hcalled, hkept⟩
      apply scene_bind (scene_mono (ih fun other hother => htodo other (List.mem_cons_of_mem _ hother)) ?_
        fun _ _ h => h)
      · rintro ⟨more, known''⟩
        apply scene_pure
        rintro items ⟨rfl, hfrom, hsame, hall, hkept'⟩
        refine ⟨rfl, hfrom, hsame, ?_, fun other hother => hkept' other (hkept other hother)⟩
        intro other hother
        rcases List.mem_cons.mp hother with rfl | hother
        · obtain ⟨item, hitem, hitem'⟩ := List.mem_map.mp hcalled
          exact List.mem_map.mpr ⟨item, hkept' item hitem, hitem'⟩
        · exact hall other hother
      · rintro items ⟨hitems, hfrom, hsame, -⟩
        exact ⟨hitems, hfrom, hsame⟩

end Formats

section Profile

variable {app : App} {others : App → Server} {still : Prop} {start cfs : List Json} {profile : Text}

def profileScene (app : App) (others : App → Server) (still : Prop) : Scene where
  app := app
  resource := .QualityProfile
  others := others
  still := still

-- The profiles with these items in the named one.
def rescored (profile : Text) (items : List Json) (item : Json) : Json :=
  if Json.nameOf item = some profile then (Json.set formatItemsKey (.Array items) item).getD item else item

def formatId (cfs : List Json) (name : Text) : Int := ((named name cfs).bind idOf).getD 0

def scoreItems (packs : List CustomFormatPack) (cfs : List Json) : List Json :=
  (packScores packs).map fun score => formatItem (formatId cfs score.1) score.1 score.2

theorem scoreItems_ok {packs : List CustomFormatPack} (hids : ∀ item ∈ cfs, (idOf item).isSome)
    (hnames : ∀ name ∈ (packScores packs).map Prod.fst, some name ∈ cfs.map Json.nameOf) :
    (packScores packs).mapM (scoreItem cfs) = .ok (scoreItems packs cfs) := by
  apply mapM_ok
  intro score hscore
  have hname := hnames score.1 (List.mem_map_of_mem hscore)
  cases hnamed : named score.1 cfs with
  | none => exact absurd hname (named_eq_none.mp hnamed)
  | some cf =>
      obtain ⟨id, hid⟩ := Option.isSome_iff_exists.mp (hids cf (named_some hnamed).1)
      rw [scoreItem, formatId, hnamed, Option.bind_some, hid]
      rfl

theorem object_of_named {item : Json} {name : Text} (h : Json.nameOf item = some name) (value : Json) :
    Json.set formatItemsKey value item = some ((Json.set formatItemsKey value item).getD item) := by
  obtain ⟨map, rfl⟩ := object_of_name h
  rfl

-- The named profile has the scores in the end, and nothing else changes.
theorem scene_profile {packs : List CustomFormatPack} (hstart : Numbered start)
    (hprofile : some profile ∈ start.map Json.nameOf) (hids : ∀ item ∈ cfs, (idOf item).isSome)
    (hnames : ∀ name ∈ (packScores packs).map Prod.fst, some name ∈ cfs.map Json.nameOf)
    (hstill : still → start.map (rescored profile (scoreItems packs cfs)) = start) :
    (profileScene app others still).Runs
      (fun items => (items = start ∨ items = start.map (rescored profile (scoreItems packs cfs))) ∧
        (still → items = start))
      (· = start) (applyQualityProfileScores app profile packs cfs)
      fun _ items => items = start.map (rescored profile (scoreItems packs cfs)) ∧
        (still → items = start) := by
  unfold applyQualityProfileScores
  apply scene_bind (Runs.mapError (scene_getAll ?_))
  · intro value
    apply scene_of_pre (p := value = .Array start)
    · rintro items ⟨rfl, rfl⟩
      rfl
    rintro rfl
    cases hnamed : named profile start with
    | none => exact absurd hprofile (named_eq_none.mp hnamed)
    | some live =>
        obtain ⟨hlive, hcalled⟩ := named_some hnamed
        obtain ⟨id, hid⟩ := Option.isSome_iff_exists.mp (hstart.ids live hlive)
        obtain ⟨front, back, hsplit⟩ := List.append_of_mem hlive
        have hafter : start.map (rescored profile (scoreItems packs cfs)) =
            front ++ rescored profile (scoreItems packs cfs) live :: back := by
          rw [hsplit]
          rw [show rescored profile (scoreItems packs cfs) live =
            (Json.set formatItemsKey (.Array (scoreItems packs cfs)) live).getD live from if_pos hcalled]
          exact map_named _ (hsplit ▸ hstart.names) hcalled
        simp only [Json.asArray, hnamed, hid]
        apply scene_bind (scene_lift (scoreItems_ok hids hnames))
        intro formatItems
        apply scene_of_pre fun _ h => h.1
        rintro rfl
        apply scene_bind (scene_orPanic (object_of_named hcalled _))
        intro body
        apply scene_of_pre fun _ h => h.1
        rintro rfl
        have hrescored : (Json.set formatItemsKey (.Array (scoreItems packs cfs)) live).getD live =
            rescored profile (scoreItems packs cfs) live := (if_pos hcalled).symm
        rw [hrescored]
        apply runs_ite
        · intro hsame
          apply scene_pure
          rintro items ⟨-, -, -, rfl⟩
          rw [hafter, hsame, ← hsplit]
          exact ⟨rfl, fun _ => rfl⟩
        · intro hdiffers
          have hopen : ¬still := by
            intro hs
            have hfixed := hstill hs
            rw [hafter] at hfixed
            have hcut := List.append_cancel_left (hfixed.trans hsplit)
            exact hdiffers (List.cons.inj hcut).1
          apply scene_bind (A := fun _ items =>
            items = start.map (rescored profile (scoreItems packs cfs)) ∧ (still → items = start))
          · apply Runs.mapError
            apply scene_putOne hopen
            · rintro items ⟨-, -, -, rfl⟩
              exact ⟨Or.inl rfl, fun _ => rfl⟩
            · rintro items ⟨-, -, -, rfl⟩ -
              have hput : (items.map fun other => if idOf other = some id then
                  rescored profile (scoreItems packs cfs) live else other) =
                    items.map (rescored profile (scoreItems packs cfs)) := by
                rw [hafter, hsplit]
                exact map_replace (hsplit ▸ hstart.distinct) hid
              rw [hput]
              exact ⟨⟨Or.inr rfl, fun hs => absurd hs hopen⟩, rfl, fun hs => absurd hs hopen⟩
          · intro _
            exact scene_pure fun _ h => h
  · rintro items rfl
    exact ⟨Or.inl rfl, fun _ => rfl⟩

end Profile

section Delays

variable {app : App} {others : App → Server} {still : Prop} {start : List Json} {minutes : UInt32}

def delayScene (app : App) (others : App → Server) (still : Prop) : Scene where
  app := app
  resource := .DelayProfile
  others := others
  still := still

def delayed (minutes : UInt32) (item : Json) : Json := (delayBody minutes item).getD item

theorem delayBody_object (minutes : UInt32) {item : Json} (h : (idOf item).isSome) :
    delayBody minutes item = some (delayed minutes item) := by
  obtain ⟨map, rfl⟩ := object_of_id h
  obtain ⟨after, hafter⟩ := Json.setAll_object (delayMembers minutes) map
  have hsome : (delayBody minutes (.Object map)).isSome := by
    unfold delayBody
    rw [hafter]
    show (if (Json.get delayKey (.Object after)).isSome then Json.set delayKey _ (.Object after)
      else some (.Object after)).isSome
    split <;> rfl
  obtain ⟨body, hbody⟩ := Option.isSome_iff_exists.mp hsome
  rw [delayed, hbody]
  rfl

-- What the members are in the end.
theorem get_delayed {item : Json} (h : (idOf item).isSome) (key : Text) :
    (delayed minutes item).get key =
      if key = usenetDelayKey ∨ key = torrentDelayKey ∨ (key = delayKey ∧ (item.get delayKey).isSome) then
        some (Serde.ofU32 minutes) else item.get key := by
  have hbody := delayBody_object minutes h
  obtain ⟨middle, hset, hlast⟩ := Option.bind_eq_some_iff.mp hbody
  have hdistinct : (Json.keys (delayMembers minutes)).Nodup := by
    show [usenetDelayKey, torrentDelayKey].Nodup
    decide
  have hmiddle := fun other => Json.get_setAll hdistinct hset other
  have hlookup : ∀ other, Json.lookup other (delayMembers minutes) =
      if other = usenetDelayKey ∨ other = torrentDelayKey then some (Serde.ofU32 minutes) else none := by
    intro other
    rw [delayMembers, Json.lookup_cons, Json.lookup_cons, Json.lookup_nil]
    by_cases hone : other = usenetDelayKey
    · simp [hone]
    · by_cases htwo : other = torrentDelayKey
      · simp [htwo]
      · simp [Ne.symm hone, Ne.symm htwo, hone, htwo]
  have hdelay : middle.get delayKey = item.get delayKey := by
    rw [hmiddle, hlookup, if_neg (by decide)]
    rfl
  rw [hdelay] at hlast
  by_cases hpresent : (item.get delayKey).isSome
  · rw [if_pos hpresent] at hlast
    rw [Json.get_set hlast, hmiddle, hlookup]
    by_cases hkey : key = delayKey
    · subst hkey
      simp [hpresent]
    · rw [if_neg (Ne.symm hkey)]
      by_cases hset : key = usenetDelayKey ∨ key = torrentDelayKey
      · rw [if_pos hset, if_pos (by tauto)]
        rfl
      · rw [if_neg hset, if_neg (by tauto)]
        rfl
  · rw [if_neg hpresent] at hlast
    obtain rfl := Option.some.inj hlast
    rw [hmiddle, hlookup]
    by_cases hset : key = usenetDelayKey ∨ key = torrentDelayKey
    · rw [if_pos hset, if_pos (by tauto)]
      rfl
    · rw [if_neg hset, if_neg (by tauto)]
      rfl

theorem idOf_delayed {item : Json} (h : (idOf item).isSome) : idOf (delayed minutes item) = idOf item := by
  have hother : ¬(idKey = usenetDelayKey ∨ idKey = torrentDelayKey ∨
      (idKey = delayKey ∧ (item.get delayKey).isSome)) := by
    rw [not_or, not_or, not_and]
    exact ⟨by decide, by decide, fun hsame => absurd hsame (by decide)⟩
  rw [idOf, get_delayed h, if_neg hother, idOf]

-- A second time nothing changes.
theorem delayed_delayed {item : Json} (h : (idOf item).isSome) :
    delayed minutes (delayed minutes item) = delayed minutes item := by
  have hset : Json.setAll (delayMembers minutes) (delayed minutes item) = some (delayed minutes item) := by
    apply Json.setAll_self
    intro member hmember
    rw [get_delayed h]
    rcases List.mem_cons.mp hmember with rfl | hmember
    · exact if_pos (Or.inl rfl)
    · rw [List.mem_singleton.mp hmember]
      exact if_pos (Or.inr (Or.inl rfl))
  rw [delayed, delayBody, hset]
  show (if ((delayed minutes item).get delayKey).isSome then Json.set delayKey (Serde.ofU32 minutes)
    (delayed minutes item) else some (delayed minutes item)).getD _ = _
  by_cases hpresent : ((delayed minutes item).get delayKey).isSome
  · rw [if_pos hpresent]
    have hvalue : (delayed minutes item).get delayKey = some (Serde.ofU32 minutes) := by
      rw [get_delayed h] at hpresent ⊢
      by_cases hold : (item.get delayKey).isSome
      · exact if_pos (Or.inr (Or.inr ⟨rfl, hold⟩))
      · rw [if_neg (by simp [hold]; decide)] at hpresent
        exact absurd hpresent hold
    rw [Json.set_self hvalue]
    rfl
  · rw [if_neg hpresent]
    rfl

-- Each profile is as it was or has its delays.
def DelaysFrom (minutes : UInt32) (start items : List Json) : Prop :=
  List.Forall₂ (fun old item => item = old ∨ item = delayed minutes old) start items

theorem delaysFrom_split {done rest : List Json} :
    DelaysFrom minutes (done ++ rest) (done.map (delayed minutes) ++ rest) := by
  induction done with
  | nil =>
      induction rest with
      | nil => exact List.Forall₂.nil
      | cons item rest ih => exact List.Forall₂.cons (Or.inl rfl) ih
  | cons item done ih => exact List.Forall₂.cons (Or.inr rfl) ih

theorem delaysFrom_refl (start : List Json) : DelaysFrom minutes start start :=
  List.forall₂_same.mpr fun _ _ => Or.inl rfl

theorem DelaysFrom.ids {items : List Json} (h : DelaysFrom minutes start items)
    (hids : ∀ item ∈ start, (idOf item).isSome) : items.map idOf = start.map idOf := by
  induction h with
  | nil => rfl
  | @cons old item start items hitem _ ih =>
      rw [List.map_cons, List.map_cons, ih fun other hother => hids other (List.mem_cons_of_mem _ hother)]
      rcases hitem with rfl | rfl
      · rfl
      · rw [idOf_delayed (hids old List.mem_cons_self)]

theorem DelaysFrom.trans {middle items : List Json} (h : DelaysFrom minutes start middle)
    (h' : DelaysFrom minutes middle items) (hids : ∀ item ∈ start, (idOf item).isSome) :
    DelaysFrom minutes start items := by
  induction h generalizing items with
  | nil => exact h'
  | @cons old item start middle hitem _ ih =>
      cases h' with
      | @cons _ item' _ items hitem' hrest =>
          have hold := hids old List.mem_cons_self
          refine List.Forall₂.cons ?_ (ih hrest fun other hother => hids other (List.mem_cons_of_mem _ hother))
          rcases hitem with rfl | rfl
          · exact hitem'
          · rw [delayed_delayed hold, or_self] at hitem'
            exact Or.inr hitem'

-- However far it went, the last run leaves the same.
theorem DelaysFrom.map_delayed {items : List Json} (h : DelaysFrom minutes start items)
    (hids : ∀ item ∈ start, (idOf item).isSome) :
    items.map (delayed minutes) = start.map (delayed minutes) := by
  induction h with
  | nil => rfl
  | @cons old item start items hitem _ ih =>
      rw [List.map_cons, List.map_cons, ih fun other hother => hids other (List.mem_cons_of_mem _ hother)]
      rcases hitem with rfl | rfl
      · rfl
      · rw [delayed_delayed (hids old List.mem_cons_self)]

theorem scene_applyDelay (hids : ∀ item ∈ start, (idOf item).isSome)
    (hdistinct : (start.filterMap idOf).Nodup) (hstill : still → start.map (delayed minutes) = start)
    {done rest : List Json} {item : Json} (hdone : done ++ item :: rest = start) :
    (delayScene app others still).Runs
      (fun items => DelaysFrom minutes start items ∧ (still → items = start))
      (fun items => items = done.map (delayed minutes) ++ item :: rest ∧ (still → items = start))
      (applyDelay app minutes item)
      fun _ items => items = (done ++ [item]).map (delayed minutes) ++ rest ∧ (still → items = start) := by
  have hitem : item ∈ start := hdone ▸ List.mem_append_right _ List.mem_cons_self
  obtain ⟨id, hid⟩ := Option.isSome_iff_exists.mp (hids item hitem)
  have hnext : (done ++ [item]).map (delayed minutes) ++ rest =
      done.map (delayed minutes) ++ delayed minutes item :: rest := by
    simp
  unfold applyDelay
  simp only [hid]
  apply scene_bind (scene_orPanic (delayBody_object minutes (hids item hitem)))
  intro body
  apply scene_of_pre fun _ h => h.1
  rintro rfl
  apply runs_ite
  · intro hdiffers
    have hopen : ¬still := fun hs =>
      hdiffers (List.map_inj_left.mp ((hstill hs).trans (List.map_id start).symm) item hitem)
    apply scene_bind (A := fun _ items =>
      items = (done ++ [item]).map (delayed minutes) ++ rest ∧ (still → items = start))
    · apply Runs.mapError
      apply scene_putOne hopen
      · rintro items ⟨-, rfl, -⟩
        exact ⟨hdone ▸ delaysFrom_split, fun hs => absurd hs hopen⟩
      · rintro items ⟨-, rfl, -⟩ -
        have hkept : ((done.map (delayed minutes) ++ item :: rest).filterMap idOf).Nodup := by
          have hmapped : (done.map (delayed minutes)).filterMap idOf = done.filterMap idOf := by
            rw [List.filterMap_map]
            exact List.filterMap_congr fun other hother =>
              idOf_delayed (hids other (hdone ▸ List.mem_append_left _ hother))
          rw [List.filterMap_append, hmapped, ← List.filterMap_append, hdone]
          exact hdistinct
        rw [map_replace hkept hid, ← hnext]
        have hsplit : (done ++ [item]) ++ rest = start := by simpa using hdone
        exact ⟨⟨hsplit ▸ delaysFrom_split, fun hs => absurd hs hopen⟩, rfl, fun hs => absurd hs hopen⟩
    · intro _
      exact scene_pure fun _ h => h
  · intro hsame
    apply scene_pure
    rintro items ⟨-, rfl, hkept⟩
    rw [hnext, not_not.mp hsame]
    exact ⟨rfl, hkept⟩

theorem scene_applyDelays (hids : ∀ item ∈ start, (idOf item).isSome)
    (hdistinct : (start.filterMap idOf).Nodup) (hstill : still → start.map (delayed minutes) = start) :
    (delayScene app others still).Runs
      (fun items => DelaysFrom minutes start items ∧ (still → items = start)) (· = start)
      (forEach (applyDelay app minutes) start)
      fun _ items => items = start.map (delayed minutes) ∧ (still → items = start) := by
  refine scene_mono (scene_forEach (fun left items => ∃ done, done ++ left = start ∧
    items = done.map (delayed minutes) ++ left ∧ (still → items = start)) ?_ start) ?_ ?_
  · intro item rest
    apply scene_exists
    intro done
    apply scene_of_pre fun _ h => h.1
    intro hdone
    apply scene_mono (scene_applyDelay hids hdistinct hstill hdone) fun _ h => h.2
    exact fun _ items h => ⟨done ++ [item], by simpa using hdone, h⟩
  · rintro items rfl
    exact ⟨[], rfl, rfl, fun _ => rfl⟩
  · rintro _ items ⟨done, hdone, h⟩
    rw [List.append_nil] at hdone h
    exact hdone ▸ h

end Delays

end Mediaops.Arr
