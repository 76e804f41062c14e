import Mediaops.Arr.GrabApply.Named

namespace Mediaops.Arr

open Reconcile

-- What a run of `applyNamed` does to its list.

def identOf (item : Json) : Identity where
  id := idOf item
  name := (Json.nameOf item).getD []

section Identities

variable {items : List Json} {missing : Text}

theorem mapM_ok {α β ε : Type} {f : α → Except ε β} {g : α → β} {items : List α}
    (h : ∀ item ∈ items, f item = .ok (g item)) : items.mapM f = .ok (items.map g) := by
  induction items with
  | nil => rfl
  | cons item rest ih =>
      rw [List.mapM_cons, h item List.mem_cons_self,
        ih fun other hother => h other (List.mem_cons_of_mem _ hother)]
      rfl

theorem identities_listed (h : Listed items) :
    identitiesFromArray (identityFromValue missing) (.Array items) = .ok (items.map identOf) := by
  apply mapM_ok
  intro item hitem
  obtain ⟨name, hname⟩ := Option.isSome_iff_exists.mp (h.named item hitem)
  rw [identityFromValue, identOf, hname]
  rfl

theorem checkIdentities_listed {α : Type} (kind : Kind α) (app : App) {seen : List Text}
    (h : Listed items) (hseen : ∀ item ∈ items, (identOf item).name ∉ seen) :
    checkIdentities kind app seen (items.map identOf) = .ok () := by
  induction items generalizing seen with
  | nil => rfl
  | cons item rest ih =>
      obtain ⟨id, hid⟩ := Option.isSome_iff_exists.mp (h.ids item List.mem_cons_self)
      obtain ⟨name, hname⟩ := Option.isSome_iff_exists.mp (h.named item List.mem_cons_self)
      rw [List.map_cons, checkIdentities, if_neg (hseen item List.mem_cons_self),
        if_neg (by simp [identOf, hid])]
      apply ih h.tail
      intro other hother
      rw [List.mem_cons, not_or]
      refine ⟨fun hsame => ?_, hseen other (List.mem_cons_of_mem _ hother)⟩
      obtain ⟨name', hname'⟩ := Option.isSome_iff_exists.mp (h.named other (List.mem_cons_of_mem _ hother))
      rw [identOf, identOf, hname, hname'] at hsame
      obtain rfl : name' = name := hsame
      have hnames := h.names
      rw [List.map_cons, List.nodup_cons] at hnames
      exact hnames.1 (List.mem_map.mpr ⟨other, hother, hname'.trans hname.symm⟩)

theorem find_identOf (h : Listed items) (name : Text) :
    (items.map identOf).find? (fun idx => idx.name = name) = (named name items).map identOf := by
  induction items with
  | nil => rfl
  | cons item rest ih =>
      obtain ⟨other, hother⟩ := Option.isSome_iff_exists.mp (h.named item List.mem_cons_self)
      have hrest := ih h.tail
      unfold named at hrest ⊢
      rw [List.map_cons, List.find?_cons, List.find?_cons, hrest, identOf, hother]
      by_cases hname : other = name <;> simp [hname, identOf, hother]

theorem find_idOf (h : Listed items) {item : Json} {id : Int} (hitem : item ∈ items)
    (hid : idOf item = some id) : (items.find? fun other => idOf other = some id) = some item := by
  obtain ⟨front, back, rfl⟩ := List.append_of_mem hitem
  rw [List.find?_append, List.find?_eq_none.mpr]
  · simp [hid]
  · intro other hother
    have hne := (others_of_id h.distinct hid).1 other hother
    simpa using hne

end Identities

section Runs

variable {α : Type} {kind : Kind α} (lawful : kind.Lawful) {want : List α}
  (hdistinct : (want.map kind.name).Nodup) {app : App} {others : App → Server} {still : Prop}
  {start : List Json}

-- The list of a kind on one server.
abbrev Kind.scene (kind : Kind α) (app : App) (others : App → Server) (still : Prop) : Scene where
  app := app
  resource := kind.resource
  others := others
  still := still

-- What holds of the list all along.
structure Underway (still : Prop) (start items : List Json) : Prop where
  reaches : (plan lawful want hdistinct).Reaches start items
  listed : Listed items
  same : still → items = start

-- A new object is posted where none has its name.
def Kind.Posts (kind : Kind α) : Prop :=
  ∀ {app : App} {others : App → Server} {still : Prop} {I Q A : List Json → Prop}
    {map : List Json.Member} {name : Text}, Json.nameOf (.Object map) = some name → ¬still →
    (∀ items, Q items → I items ∧ Listed items ∧ some name ∉ items.map Json.nameOf) →
    (∀ items id, Q items → Fresh items id →
      I (items ++ [Server.created id map]) ∧ A (items ++ [Server.created id map])) →
    (kind.scene app others still).Runs I Q (kind.post app (.Object map)) fun _ => A

variable {lawful hdistinct}

theorem Underway.drop {front back : List Json} {item : Json}
    (h : Underway lawful hdistinct still start (front ++ item :: back)) (hstill : ¬still)
    (hunwanted : Json.nameOf item ∉ want.map fun spec => some (kind.name spec)) :
    Underway lawful hdistinct still start (front ++ back) :=
  ⟨h.reaches.tail (.drop front back item hunwanted), h.listed.remove, fun hs => absurd hs hstill⟩

theorem Underway.settle {front back : List Json} {item : Json} {spec : α}
    (h : Underway lawful hdistinct still start (front ++ item :: back)) (hstill : ¬still)
    (hspec : spec ∈ want) (hname : Json.nameOf item = some (kind.name spec)) :
    Underway lawful hdistinct still start (front ++ settle kind spec item :: back) := by
  refine ⟨h.reaches.tail (.settle front back item spec hspec hname), ?_, fun hs => absurd hs hstill⟩
  apply h.listed.replace (idOf_settle lawful hname)
  rw [hname]
  exact nameOf_carries lawful (settle_carries lawful hname)

theorem Underway.make {items : List Json} {spec : α} {map : List Json.Member} {id : Nat}
    (h : Underway lawful hdistinct still start items) (hstill : ¬still) (hspec : spec ∈ want)
    (hbody : kind.body spec none = some (.Object map)) (hfresh : Fresh items id)
    (hnew : some (kind.name spec) ∉ items.map Json.nameOf) :
    Underway lawful hdistinct still start (items ++ [Server.created id map]) := by
  have hmade : Made kind spec (Server.created id map) := ⟨map, id, hbody, hfresh.1, rfl⟩
  refine ⟨h.reaches.tail (.make items _ spec hspec hnew hmade), ?_, fun hs => absurd hs hstill⟩
  exact h.listed.add hfresh (idOf_created id hfresh.1 map) (nameOf_carries lawful (made_carries lawful hmade)) hnew

-- The names that are wanted.
def Wanted (kind : Kind α) (want : List α) (item : Json) : Prop :=
  Json.nameOf item ∈ want.map fun spec => some (kind.name spec)

theorem any_name_iff {item : Json} (h : (Json.nameOf item).isSome) :
    (want.any fun spec => kind.name spec = (identOf item).name) = true ↔ Wanted kind want item := by
  obtain ⟨name, hname⟩ := Option.isSome_iff_exists.mp h
  simp [Wanted, identOf, hname]

-- One object of the list at a time is kept or removed.
theorem scene_deleteOther (hstill : still → (plan lawful want hdistinct).Settled start)
    (hstart : Listed start) {done rest : List Json} {item : Json} (hdone : done ++ item :: rest = start) :
    (kind.scene app others still).Runs (Underway lawful hdistinct still start)
      (fun items => Underway lawful hdistinct still start items ∧
        ∃ kept, items = kept ++ item :: rest ∧ ∀ other, other ∈ kept ↔ other ∈ done ∧ Wanted kind want other)
      (deleteOther kind app want (identOf item))
      fun _ items => Underway lawful hdistinct still start items ∧
        ∃ kept, items = kept ++ rest ∧
          ∀ other, other ∈ kept ↔ other ∈ done ++ [item] ∧ Wanted kind want other := by
  have hitem : item ∈ start := hdone ▸ List.mem_append_right _ List.mem_cons_self
  obtain ⟨id, hid⟩ := Option.isSome_iff_exists.mp (hstart.ids item hitem)
  unfold deleteOther
  by_cases hwanted : Wanted kind want item
  · rw [if_pos ((any_name_iff (hstart.named item hitem)).mpr hwanted)]
    apply scene_pure
    rintro items ⟨hunderway, kept, rfl, hkept⟩
    refine ⟨hunderway, kept ++ [item], by simp, fun other => ?_⟩
    rw [List.mem_append, List.mem_append, hkept, List.mem_singleton, or_and_right]
    refine or_congr_right ⟨?_, And.left⟩
    rintro rfl
    exact ⟨rfl, hwanted⟩
  · rw [if_neg (fun h => hwanted ((any_name_iff (hstart.named item hitem)).mp h))]
    have hopen : ¬still := by
      intro hs
      obtain ⟨spec, hspec, hname, -⟩ := (hstill hs).wanted item hitem
      exact hwanted (List.mem_map.mpr ⟨spec, hspec, hname.symm⟩)
    apply scene_bind (scene_orPanic (a := id) hid)
    intro id'
    apply scene_of_pre fun _ h => h.1
    rintro rfl
    apply scene_bind (A := fun _ items => Underway lawful hdistinct still start items ∧
      ∃ kept, items = kept ++ rest ∧ ∀ other, other ∈ kept ↔ other ∈ done ++ [item] ∧ Wanted kind want other)
    · apply Runs.mapError
      apply scene_deleteOne hopen (fun _ h => h.2.1)
      rintro items ⟨-, hunderway, kept, rfl, hkept⟩ -
      rw [filter_remove hunderway.listed.distinct hid]
      have hafter := hunderway.drop hopen hwanted
      refine ⟨hafter, hafter, kept, rfl, fun other => ?_⟩
      rw [hkept, List.mem_append, List.mem_singleton, or_and_right]
      refine (or_iff_left ?_).symm
      rintro ⟨rfl, hother⟩
      exact hwanted hother
    · intro _
      exact scene_pure fun _ h => h

-- Then the wanted ones of the start are left.
theorem scene_deleteOthers (hstill : still → (plan lawful want hdistinct).Settled start)
    (hstart : Listed start) :
    (kind.scene app others still).Runs (Underway lawful hdistinct still start)
      (fun items => items = start ∧ Underway lawful hdistinct still start items)
      (forEach (deleteOther kind app want) (start.map identOf))
      fun _ items => Underway lawful hdistinct still start items ∧
        ∀ other, other ∈ items ↔ other ∈ start ∧ Wanted kind want other := by
  -- what was gone through, and what is still in the list unchanged
  refine scene_mono (scene_forEach (fun left items => ∃ done rest, (done ++ rest = start ∧
    left = rest.map identOf) ∧ Underway lawful hdistinct still start items ∧
      ∃ kept, items = kept ++ rest ∧ ∀ other, other ∈ kept ↔ other ∈ done ∧ Wanted kind want other)
    ?_ (start.map identOf)) ?_ ?_
  · intro idx left
    apply scene_exists
    intro done
    apply scene_exists
    intro rest
    apply scene_of_pre fun _ h => h.1
    rintro ⟨hdone, hleft⟩
    cases rest with
    | nil => cases hleft
    | cons item rest =>
        obtain ⟨rfl, rfl⟩ := List.cons.inj hleft
        apply scene_mono (scene_deleteOther hstill hstart hdone) fun _ h => h.2
        intro _ items h
        exact ⟨done ++ [item], rest, ⟨by simpa using hdone, rfl⟩, h⟩
  · rintro items ⟨rfl, hunderway⟩
    exact ⟨[], items, ⟨rfl, rfl⟩, hunderway, [], rfl, by simp⟩
  · rintro _ items ⟨done, rest, ⟨hdone, hleft⟩, hunderway, kept, hitems, hkept⟩
    obtain rfl : rest = [] := List.map_eq_nil_iff.mp hleft.symm
    rw [List.append_nil] at hdone hitems
    subst hdone hitems
    exact ⟨hunderway, hkept⟩

-- Of the wanted ones, `done` are settled, and `rest` are as they were at the start.
structure Midway (lawful : kind.Lawful) (hdistinct : (want.map kind.name).Nodup) (still : Prop)
    (start : List Json) (done rest : List α) (items : List Json) : Prop where
  underway : Underway lawful hdistinct still start items
  wanted : ∀ item ∈ items, Wanted kind want item
  settled : ∀ spec ∈ done, ∃ item ∈ items, Carries (lawful.members spec) (lawful.fields spec) item
  kept : ∀ spec ∈ rest, ∀ old ∈ start, Json.nameOf old = some (kind.name spec) → old ∈ items
  missing : ∀ spec ∈ rest, some (kind.name spec) ∉ start.map Json.nameOf →
    some (kind.name spec) ∉ items.map Json.nameOf

section Advance

variable {done rest : List α} {spec : α}

theorem name_ne (hwant : done ++ spec :: rest = want) (hdistinct : (want.map kind.name).Nodup) :
    (∀ other ∈ done, kind.name other ≠ kind.name spec) ∧ ∀ other ∈ rest, kind.name other ≠ kind.name spec := by
  rw [← hwant, List.map_append, List.map_cons, List.nodup_append] at hdistinct
  obtain ⟨-, hrest, hcross⟩ := hdistinct
  constructor
  · exact fun other hother => hcross _ (List.mem_map_of_mem hother) _ List.mem_cons_self
  · exact fun other hother hsame =>
      (List.nodup_cons.mp hrest).1 (hsame ▸ List.mem_map_of_mem hother)

theorem Midway.leave {items : List Json} {item : Json}
    (h : Midway lawful hdistinct still start done (spec :: rest) items) (hitem : item ∈ items)
    (hcarries : Carries (lawful.members spec) (lawful.fields spec) item) :
    Midway lawful hdistinct still start (done ++ [spec]) rest items := by
  refine ⟨h.underway, h.wanted, ?_, fun other hother => h.kept other (List.mem_cons_of_mem _ hother),
    fun other hother => h.missing other (List.mem_cons_of_mem _ hother)⟩
  intro other hother
  rcases List.mem_append.mp hother with hother | hother
  · exact h.settled other hother
  · rw [List.mem_singleton.mp hother]
    exact ⟨item, hitem, hcarries⟩

theorem Midway.replace {front back : List Json} {item : Json} (hwant : done ++ spec :: rest = want)
    (h : Midway lawful hdistinct still start done (spec :: rest) (front ++ item :: back)) (hstill : ¬still)
    (hname : Json.nameOf item = some (kind.name spec)) :
    Midway lawful hdistinct still start (done ++ [spec]) rest (front ++ settle kind spec item :: back) := by
  obtain ⟨hdone, hrest⟩ := name_ne hwant hdistinct
  have hspec : spec ∈ want := hwant ▸ List.mem_append_right _ List.mem_cons_self
  have hcarries : Carries (lawful.members spec) (lawful.fields spec) (settle kind spec item) :=
    settle_carries lawful hname
  have hsettled := nameOf_carries lawful hcarries
  -- an object of another name is in the list before and after
  have hmove : ∀ other, Json.nameOf other ≠ some (kind.name spec) →
      other ∈ front ++ item :: back → other ∈ front ++ settle kind spec item :: back := by
    intro other hother hmem
    rcases List.mem_append.mp hmem with hmem | hmem
    · exact List.mem_append_left _ hmem
    · rcases List.mem_cons.mp hmem with rfl | hmem
      · exact absurd hname hother
      · exact List.mem_append_right _ (List.mem_cons_of_mem _ hmem)
  refine ⟨h.underway.settle hstill hspec hname, ?_, ?_, ?_, ?_⟩
  · intro other hother
    rcases List.mem_append.mp hother with hother | hother
    · exact h.wanted other (List.mem_append_left _ hother)
    · rcases List.mem_cons.mp hother with rfl | hother
      · rw [Wanted, hsettled]
        exact List.mem_map.mpr ⟨spec, hspec, rfl⟩
      · exact h.wanted other (List.mem_append_right _ (List.mem_cons_of_mem _ hother))
  · intro other hother
    rcases List.mem_append.mp hother with hother | hother
    · obtain ⟨found, hfound, hcarried⟩ := h.settled other hother
      refine ⟨found, hmove found ?_ hfound, hcarried⟩
      rw [nameOf_carries lawful hcarried]
      exact fun hsame => hdone other hother (Option.some.inj hsame)
    · rw [List.mem_singleton.mp hother]
      exact ⟨_, List.mem_append_right _ List.mem_cons_self, hcarries⟩
  · intro other hother old hold hname'
    refine hmove old ?_ (h.kept other (List.mem_cons_of_mem _ hother) old hold hname')
    rw [hname']
    exact fun hsame => hrest other hother (Option.some.inj hsame)
  · intro other hother hnew
    have hmiss := h.missing other (List.mem_cons_of_mem _ hother) hnew
    simpa [hsettled, hname] using hmiss

theorem Midway.make {items : List Json} {map : List Json.Member} {id : Nat}
    (hwant : done ++ spec :: rest = want)
    (h : Midway lawful hdistinct still start done (spec :: rest) items) (hstill : ¬still)
    (hbody : kind.body spec none = some (.Object map)) (hfresh : Fresh items id)
    (hnew : some (kind.name spec) ∉ start.map Json.nameOf) :
    Midway lawful hdistinct still start (done ++ [spec]) rest (items ++ [Server.created id map]) := by
  have hspec : spec ∈ want := hwant ▸ List.mem_append_right _ List.mem_cons_self
  have hmade : Made kind spec (Server.created id map) := ⟨map, id, hbody, hfresh.1, rfl⟩
  have hcarries := made_carries lawful hmade
  have hname := nameOf_carries lawful hcarries
  refine ⟨h.underway.make hstill hspec hbody hfresh (h.missing spec List.mem_cons_self hnew), ?_, ?_, ?_, ?_⟩
  · intro other hother
    rcases List.mem_append.mp hother with hother | hother
    · exact h.wanted other hother
    · rw [List.mem_singleton.mp hother, Wanted, hname]
      exact List.mem_map.mpr ⟨spec, hspec, rfl⟩
  · intro other hother
    rcases List.mem_append.mp hother with hother | hother
    · obtain ⟨found, hfound, hcarried⟩ := h.settled other hother
      exact ⟨found, List.mem_append_left _ hfound, hcarried⟩
    · rw [List.mem_singleton.mp hother]
      exact ⟨_, List.mem_append_right _ List.mem_cons_self, hcarries⟩
  · intro other hother old hold hname'
    exact List.mem_append_left _ (h.kept other (List.mem_cons_of_mem _ hother) old hold hname')
  · intro other hother hnew'
    rw [List.map_append, List.map_singleton, hname, List.mem_append, List.mem_singleton, not_or]
    refine ⟨h.missing other (List.mem_cons_of_mem _ hother) hnew', fun hsame => ?_⟩
    exact (name_ne hwant hdistinct).2 other hother (Option.some.inj hsame)

end Advance

theorem Midway.settles {items : List Json} (h : Midway lawful hdistinct still start want [] items) :
    (plan lawful want hdistinct).Settled items := by
  constructor
  · intro item hitem
    obtain ⟨spec, hspec, hname⟩ := List.mem_map.mp (h.wanted item hitem)
    obtain ⟨found, hfound, hcarried⟩ := h.settled spec hspec
    have hsame : found = item := by
      refine List.inj_on_of_nodup_map h.underway.listed.names hfound hitem ?_
      rw [nameOf_carries lawful hcarried]
      exact hname
    exact ⟨spec, hspec, hname.symm, hsame ▸ settle_carried lawful hcarried⟩
  · intro spec hspec
    obtain ⟨found, hfound, hcarried⟩ := h.settled spec hspec
    exact List.mem_map.mpr ⟨found, hfound, nameOf_carries lawful hcarried⟩

theorem named_eq_none {name : Text} {items : List Json} :
    named name items = none ↔ some name ∉ items.map Json.nameOf := by
  simp [named, List.find?_eq_none]

theorem named_some {name : Text} {items : List Json} {item : Json} (h : named name items = some item) :
    item ∈ items ∧ Json.nameOf item = some name :=
  ⟨List.mem_of_find?_eq_some h, by simpa using List.find?_some h⟩

-- One wanted object after the other is settled, or made where there is none.
theorem scene_applySpec (hposts : kind.Posts) (hstill : still → (plan lawful want hdistinct).Settled start)
    (hstart : Listed start) {done rest : List α} {spec : α} (hwant : done ++ spec :: rest = want) :
    (kind.scene app others still).Runs (Underway lawful hdistinct still start)
      (Midway lawful hdistinct still start done (spec :: rest))
      (applySpec kind app (start.map identOf) spec)
      fun _ => Midway lawful hdistinct still start (done ++ [spec]) rest := by
  have hspec : spec ∈ want := hwant ▸ List.mem_append_right _ List.mem_cons_self
  unfold applySpec
  rw [find_identOf hstart]
  cases hnamed : named (kind.name spec) start with
  | none =>
      have hnew := named_eq_none.mp hnamed
      have hopen : ¬still := fun hs => hnew ((hstill hs).present spec hspec)
      obtain ⟨map, hbody⟩ := body_none lawful spec
      have hname : Json.nameOf (.Object map) = some (kind.name spec) := by
        have hmade : mergedResource (lawful.members spec) (lawful.fields spec) (some (.Object [])) =
            some (.Object map) := by
          rw [← mergedResource_none, ← lawful.body_eq, hbody]
        exact nameOf_carries lawful (mergedResource_carries (lawful.nodup spec) (lawful.noFields spec) hmade)
      apply scene_bind (scene_orPanic hbody)
      intro body
      apply scene_of_pre fun _ h => h.1
      rintro rfl
      apply scene_bind (A := fun _ => Midway lawful hdistinct still start (done ++ [spec]) rest)
      · apply Runs.mapError
        apply hposts hname hopen
        · rintro items ⟨-, h⟩
          exact ⟨h.underway, h.underway.listed, h.missing spec List.mem_cons_self hnew⟩
        · rintro items id ⟨-, h⟩ hfresh
          have hafter := h.make hwant hopen hbody hfresh hnew
          exact ⟨hafter.underway, hafter⟩
      · intro _
        exact scene_pure fun _ h => h
  | some old =>
      obtain ⟨hold, hname⟩ := named_some hnamed
      obtain ⟨id, hid⟩ := Option.isSome_iff_exists.mp (hstart.ids old hold)
      have hmerged := body_settle lawful spec hname
      apply scene_bind (scene_orPanic (a := id) hid)
      intro id'
      apply scene_of_pre fun _ h => h.1
      rintro rfl
      apply scene_bind (Runs.mapError (scene_getOne fun _ h => h.2.underway))
      intro value
      apply scene_of_pre (p := value = old)
      · rintro items ⟨hfind, -, h⟩
        rw [find_idOf h.underway.listed (h.kept spec List.mem_cons_self old hold hname) hid] at hfind
        exact (Option.some.inj hfind).symm
      rintro rfl
      apply scene_bind (scene_orPanic hmerged)
      intro merged
      apply scene_of_pre fun _ h => h.1
      rintro rfl
      apply runs_ite
      · intro hdiffers
        have hopen : ¬still := by
          intro hs
          obtain ⟨other, hother, hsame, hfixed⟩ := (hstill hs).wanted value hold
          obtain rfl : other = spec :=
            List.inj_on_of_nodup_map hdistinct hother hspec (Option.some.inj (hsame.symm.trans hname))
          exact hdiffers hfixed.symm
        apply scene_bind (A := fun _ => Midway lawful hdistinct still start (done ++ [spec]) rest)
        · apply Runs.mapError
          apply scene_putOne hopen (fun _ h => h.2.2.2.underway)
          rintro items ⟨-, -, -, h⟩ -
          obtain ⟨front, back, rfl⟩ := List.append_of_mem (h.kept spec List.mem_cons_self value hold hname)
          rw [map_replace h.underway.listed.distinct hid]
          have hafter := h.replace hwant hopen hname
          exact ⟨hafter.underway, hafter⟩
        · intro _
          exact scene_pure fun _ h => h
      · intro hsame
        apply scene_pure
        rintro items ⟨-, -, -, h⟩
        have hcarries : Carries (lawful.members spec) (lawful.fields spec) (settle kind spec value) :=
          settle_carries lawful hname
        rw [← not_not.mp hsame] at hcarries
        exact h.leave (h.kept spec List.mem_cons_self value hold hname) hcarries

theorem scene_applySpecs (hposts : kind.Posts) (hstill : still → (plan lawful want hdistinct).Settled start)
    (hstart : Listed start) :
    (kind.scene app others still).Runs (Underway lawful hdistinct still start)
      (Midway lawful hdistinct still start [] want) (forEach (applySpec kind app (start.map identOf)) want)
      fun _ => Midway lawful hdistinct still start want [] := by
  refine scene_mono (scene_forEach (fun left items => ∃ done, done ++ left = want ∧
    Midway lawful hdistinct still start done left items) ?_ want) ?_ ?_
  · intro spec rest
    apply scene_exists
    intro done
    apply scene_of_pre fun _ h => h.1
    intro hwant
    apply scene_mono (scene_applySpec hposts hstill hstart hwant) fun _ h => h.2
    exact fun _ items h => ⟨done ++ [spec], by simpa using hwant, h⟩
  · exact fun items h => ⟨[], rfl, h⟩
  · rintro _ items ⟨done, hdone, h⟩
    rw [List.append_nil] at hdone
    exact hdone ▸ h

theorem midway_start {items : List Json} (hunderway : Underway lawful hdistinct still start items)
    (hitems : ∀ other, other ∈ items ↔ other ∈ start ∧ Wanted kind want other) :
    Midway lawful hdistinct still start [] want items := by
  refine ⟨hunderway, fun item hitem => ((hitems item).mp hitem).2, ?_, ?_, ?_⟩
  · exact fun spec hspec => absurd hspec List.not_mem_nil
  · intro spec hspec old hold hname
    refine (hitems old).mpr ⟨hold, ?_⟩
    rw [Wanted, hname]
    exact List.mem_map.mpr ⟨spec, hspec, rfl⟩
  · intro spec _ hnew hmem
    obtain ⟨item, hitem, hname⟩ := List.mem_map.mp hmem
    exact hnew (List.mem_map.mpr ⟨item, ((hitems item).mp hitem).1, hname⟩)

-- A list that something is wanted of is settled in the end; another is left as it is.
theorem scene_applyNamed (hposts : kind.Posts)
    (hstill : still → want ≠ [] → (plan lawful want hdistinct).Settled start) (hstart : Listed start) :
    (kind.scene app others still).Runs
      (fun items => (want = [] → items = start) ∧ Underway lawful hdistinct still start items)
      (· = start) (applyNamed kind app want)
      fun _ items => (want = [] → items = start) ∧ Underway lawful hdistinct still start items ∧
        (want ≠ [] → (plan lawful want hdistinct).Settled items) := by
  have hunderway : Underway lawful hdistinct still start start :=
    ⟨Relation.ReflTransGen.refl, hstart, fun _ => rfl⟩
  unfold applyNamed identities
  rw [lawful.fromValue_eq]
  apply scene_bind (A := fun live items => live = start.map identOf ∧ items = start)
  · apply Runs.mapError
    apply scene_bind (scene_getAll ?_)
    · intro value
      apply scene_of_pre (p := value = .Array start)
      · rintro items ⟨rfl, rfl⟩
        rfl
      rintro rfl
      apply scene_mono (scene_lift (identities_listed hstart)) (fun _ h => h.2)
      exact fun _ _ h => h
    · rintro items rfl
      exact ⟨fun _ => rfl, hunderway⟩
  intro live
  apply scene_of_pre fun _ h => h.1
  rintro rfl
  apply scene_bind (scene_lift (checkIdentities_listed kind app hstart fun _ _ => List.not_mem_nil))
  intro _
  by_cases hwant : want = []
  · subst hwant
    apply scene_pure
    rintro items ⟨-, -, rfl⟩
    exact ⟨fun _ => rfl, hunderway, fun hne => absurd rfl hne⟩
  · rw [if_neg (by simpa using hwant)]
    have hweaken : ∀ {ε β : Type} {m : Prog Net ε β} {Q : List Json → Prop} {A : β → List Json → Prop},
        (kind.scene app others still).Runs (Underway lawful hdistinct still start) Q m A →
        (kind.scene app others still).Runs
          (fun items => (want = [] → items = start) ∧ Underway lawful hdistinct still start items) Q m A := by
      intro ε β m Q A h
      apply h.mono (fun _ h => h) (fun _ _ h => h)
      rintro net ⟨⟨items, hnet, hi, hlog⟩, hrefused⟩
      exact ⟨⟨items, hnet, ⟨fun hnil => absurd hnil hwant, hi⟩, hlog⟩, hrefused⟩
    have hsettled := fun hs => hstill hs hwant
    apply scene_bind (scene_mono (hweaken (scene_deleteOthers hsettled hstart)) ?_ fun _ _ h => h)
    · intro removed
      apply scene_bind (scene_mono (hweaken (scene_applySpecs hposts hsettled hstart)) ?_ fun _ _ h => h)
      · intro changed
        apply scene_pure
        exact fun items h => ⟨fun hnil => absurd hnil hwant, h.underway, fun _ => h.settles⟩
      · rintro items ⟨h, hitems⟩
        exact midway_start h hitems
    · rintro items ⟨-, -, rfl⟩
      exact ⟨rfl, hunderway⟩

end Runs

end Mediaops.Arr
