import Mediaops.Arr.GrabApply.Resources
import Mediaops.Arr.Lists
import Mediaops.Library.Reconcile

namespace Mediaops.Arr

open Reconcile

-- The lists of indexers and of download clients on their way to what is wanted of them.

-- A list of named objects under ids of their own.
structure Listed (items : List Json) : Prop where
  ids : ∀ item ∈ items, (idOf item).isSome
  distinct : (items.filterMap idOf).Nodup
  named : ∀ item ∈ items, (Json.nameOf item).isSome
  names : (items.map Json.nameOf).Nodup

-- What the objects of a kind are made of.
structure Kind.Lawful {α : Type} (kind : Kind α) where
  members : α → List Json.Member
  fields : α → TextMap Text
  missing : Text
  body_eq : ∀ spec live, kind.body spec live = mergedResource (members spec) (fields spec) live
  fromValue_eq : kind.fromValue = identityFromValue missing
  nodup : ∀ spec, (Json.keys (members spec)).Nodup
  named : ∀ spec, (Json.nameKey, .String (kind.name spec)) ∈ members spec
  noId : ∀ spec, idKey ∉ Json.keys (members spec)
  noFields : ∀ spec, fieldsKey ∉ Json.keys (members spec)

section Entries

variable {α : Type} {kind : Kind α} (lawful : kind.Lawful)

def settle (kind : Kind α) (spec : α) (item : Json) : Json := (kind.body spec (some item)).getD item

-- A new object, under some id.
def Made (kind : Kind α) (spec : α) (item : Json) : Prop :=
  ∃ map id, kind.body spec none = some (.Object map) ∧ id < 2 ^ 63 ∧ item = Server.created id map

theorem object_of_name {item : Json} {name : Text} (h : Json.nameOf item = some name) :
    ∃ map, item = .Object map := by
  cases item with
  | Object map => exact ⟨map, rfl⟩
  | _ => cases h

include lawful

theorem body_settle (spec : α) {item : Json} {name : Text} (h : Json.nameOf item = some name) :
    kind.body spec (some item) = some (settle kind spec item) := by
  obtain ⟨map, rfl⟩ := object_of_name h
  obtain ⟨after, hafter⟩ := mergedResource_some (lawful.members spec) (lawful.fields spec) map
  rw [settle, lawful.body_eq, hafter]
  rfl

theorem settle_carries {spec : α} {item : Json} {name : Text} (h : Json.nameOf item = some name) :
    Carries (lawful.members spec) (lawful.fields spec) (settle kind spec item) := by
  have hbody := body_settle lawful spec h
  rw [lawful.body_eq] at hbody
  exact mergedResource_carries (lawful.nodup spec) (lawful.noFields spec) hbody

theorem settle_keepsRest {spec : α} {item : Json} {name : Text} (h : Json.nameOf item = some name) :
    KeepsRest (lawful.members spec) (lawful.fields spec) item (settle kind spec item) := by
  have hbody := body_settle lawful spec h
  rw [lawful.body_eq] at hbody
  exact mergedResource_keepsRest (lawful.nodup spec) (lawful.noFields spec) hbody

theorem nameOf_carries {spec : α} {item : Json}
    (h : Carries (lawful.members spec) (lawful.fields spec) item) :
    Json.nameOf item = some (kind.name spec) := by
  rw [Json.nameOf, h.members _ (lawful.named spec)]
  rfl

theorem settle_carried {spec : α} {item : Json}
    (h : Carries (lawful.members spec) (lawful.fields spec) item) : settle kind spec item = item := by
  rw [settle, lawful.body_eq, mergedResource_self h]
  rfl

theorem idOf_settle {spec : α} {item : Json} {name : Text} (h : Json.nameOf item = some name) :
    idOf (settle kind spec item) = idOf item := by
  rw [idOf, (settle_keepsRest lawful h).members idKey (lawful.noId spec) (Or.inl (by decide)), idOf]

theorem made_carries {spec : α} {item : Json} (h : Made kind spec item) :
    Carries (lawful.members spec) (lawful.fields spec) item := by
  obtain ⟨map, id, hbody, -, rfl⟩ := h
  rw [lawful.body_eq, mergedResource_none] at hbody
  have hcarries := mergedResource_carries (lawful.nodup spec) (lawful.noFields spec) hbody
  exact hcarries.created (lawful.noId spec) rfl

theorem body_none (spec : α) : ∃ map, kind.body spec none = some (.Object map) := by
  obtain ⟨map, hmap⟩ := mergedResource_some (lawful.members spec) (lawful.fields spec) []
  exact ⟨map, by rw [lawful.body_eq, mergedResource_none, hmap]⟩

-- The wanted objects as a plan for the list.
def plan (want : List α) (hdistinct : (want.map kind.name).Nodup) : Plan Json α (Option Text) where
  want := want
  nameOf := Json.nameOf
  name spec := some (kind.name spec)
  settle := settle kind
  Made := Made kind
  distinct := by
    have hsome := hdistinct.map fun _ _ h => Option.some.inj h
    rwa [List.map_map] at hsome
  nameOf_settle _ _ h := nameOf_carries lawful (settle_carries lawful h)
  settle_settle _ _ h := settle_carried lawful (settle_carries lawful h)
  nameOf_made _ _ h := nameOf_carries lawful (made_carries lawful h)
  settle_made _ _ h := settle_carried lawful (made_carries lawful h)

end Entries

section Listed

variable {items front back : List Json} {item body : Json}

theorem Listed.remove (h : Listed (front ++ item :: back)) : Listed (front ++ back) := by
  have hsub : (front ++ back).Sublist (front ++ item :: back) :=
    (List.Sublist.refl _).append (List.sublist_cons_self _ _)
  exact ⟨fun other hother => h.ids other (hsub.subset hother), h.distinct.sublist (hsub.filterMap idOf),
    fun other hother => h.named other (hsub.subset hother), h.names.sublist (hsub.map Json.nameOf)⟩

theorem Listed.tail (h : Listed (item :: back)) : Listed back := by
  have hfront : Listed ([] ++ item :: back) := h
  exact hfront.remove

theorem Listed.map_idOf (h : Listed items) : items.map idOf = (items.filterMap idOf).map some := by
  induction items with
  | nil => rfl
  | cons item rest ih =>
      obtain ⟨id, hid⟩ := Option.isSome_iff_exists.mp (h.ids item List.mem_cons_self)
      rw [List.map_cons, ih h.tail, List.filterMap_cons_some hid, List.map_cons, hid]

theorem Listed.replace (h : Listed (front ++ item :: back)) (hid : idOf body = idOf item)
    (hname : Json.nameOf body = Json.nameOf item) : Listed (front ++ body :: back) := by
  have hmem : ∀ other ∈ front ++ body :: back, other = body ∨ other ∈ front ++ item :: back := by
    intro other hother
    rcases List.mem_append.mp hother with hother | hother
    · exact Or.inr (List.mem_append_left _ hother)
    · rcases List.mem_cons.mp hother with rfl | hother
      · exact Or.inl rfl
      · exact Or.inr (List.mem_append_right _ (List.mem_cons_of_mem _ hother))
  have hitem : item ∈ front ++ item :: back := List.mem_append_right _ List.mem_cons_self
  refine ⟨?_, ?_, ?_, ?_⟩
  · intro other hother
    rcases hmem other hother with rfl | hother
    · exact hid ▸ h.ids item hitem
    · exact h.ids other hother
  · have hsame : (front ++ body :: back).filterMap idOf = (front ++ item :: back).filterMap idOf := by
      simp [List.filterMap_append, List.filterMap_cons, hid]
    exact hsame ▸ h.distinct
  · intro other hother
    rcases hmem other hother with rfl | hother
    · exact hname ▸ h.named item hitem
    · exact h.named other hother
  · have hsame : (front ++ body :: back).map Json.nameOf = (front ++ item :: back).map Json.nameOf := by
      simp [hname]
    exact hsame ▸ h.names

theorem Listed.add {id : Nat} {name : Text} (h : Listed items) (hfresh : Fresh items id)
    (hid : idOf body = some (id : Int)) (hname : Json.nameOf body = some name)
    (hnew : some name ∉ items.map Json.nameOf) : Listed (items ++ [body]) := by
  have hmem : ∀ other ∈ items ++ [body], other ∈ items ∨ other = body := by
    intro other hother
    simpa using hother
  refine ⟨?_, ?_, ?_, ?_⟩
  · intro other hother
    rcases hmem other hother with hother | rfl
    · exact h.ids other hother
    · rw [hid]
      rfl
  · rw [List.filterMap_append, List.filterMap_cons_some hid, List.filterMap_nil]
    refine List.nodup_append.mpr ⟨h.distinct, List.nodup_singleton _, ?_⟩
    rintro a ha b hb rfl
    rw [List.mem_singleton.mp hb] at ha
    apply hfresh.2
    rw [h.map_idOf]
    exact List.mem_map_of_mem ha
  · intro other hother
    rcases hmem other hother with hother | rfl
    · exact h.named other hother
    · rw [hname]
      rfl
  · rw [List.map_append, List.map_singleton, hname]
    refine List.nodup_append.mpr ⟨h.names, List.nodup_singleton _, ?_⟩
    rintro a ha b hb rfl
    rw [List.mem_singleton.mp hb] at ha
    exact hnew ha

end Listed

end Mediaops.Arr
