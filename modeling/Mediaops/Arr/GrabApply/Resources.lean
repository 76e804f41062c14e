import Mediaops.Arr.GrabApply

namespace Mediaops.Arr

-- What is in an object that was made or merged.

-- The object has the scalar members, and in the first field entry of each name the value.
structure Carries (members : List Json.Member) (fields : TextMap Text) (body : Json) : Prop where
  members : ∀ member ∈ members, body.get member.1 = some member.2
  fields : ∀ entry ∈ fields.entries, ∃ list, fieldsOf body = some list ∧
    Json.entryValue entry.1 list = some (.String entry.2)

-- Everything else is as it was: the other members, and the field entries of other names.
structure KeepsRest (members : List Json.Member) (fields : TextMap Text) (live body : Json) : Prop where
  members : ∀ key, key ∉ Json.keys members → key ≠ fieldsKey ∨ fields.entries = [] →
    body.get key = live.get key
  fields : ∀ other, other ∉ fields.keys →
    ((fieldsOf body).getD []).find? (fun field => Json.nameOf field = some other) =
      ((fieldsOf live).getD []).find? fun field => Json.nameOf field = some other

def fieldEntries (fields : TextMap Text) : List Json.Member :=
  fields.entries.map fun entry => (entry.1, .String entry.2)

section Fields

variable {fields : TextMap Text} {body live : Json}

theorem keys_fieldEntries (fields : TextMap Text) : Json.keys (fieldEntries fields) = fields.keys := by
  rw [Json.keys, fieldEntries, List.map_map]
  rfl

theorem nodup_fieldEntries (fields : TextMap Text) : (Json.keys (fieldEntries fields)).Nodup := by
  rw [keys_fieldEntries]
  exact fields.keys_nodup

theorem find_putEntry {name other : Text} (h : name ≠ other) (value : Json) (list : List Json) :
    (Json.putEntry name value list).find? (fun field => Json.nameOf field = some other) =
      list.find? fun field => Json.nameOf field = some other := by
  induction list with
  | nil => simp [Json.putEntry, Json.nameOf_entry, h]
  | cons field rest ih =>
      rw [Json.putEntry]
      by_cases hname : Json.nameOf field = some name
      · rw [if_pos hname, List.find?_cons, List.find?_cons, Json.nameOf_revalue, hname]
        simp [h]
      · rw [if_neg hname, List.find?_cons, List.find?_cons, ih]

theorem find_putEntries {other : Text} {entries : List Json.Member} (h : other ∉ Json.keys entries)
    (list : List Json) :
    (Json.putEntries entries list).find? (fun field => Json.nameOf field = some other) =
      list.find? fun field => Json.nameOf field = some other := by
  induction entries generalizing list with
  | nil => rfl
  | cons entry rest ih =>
      rw [Json.keys, List.map_cons, List.mem_cons, not_or] at h
      rw [Json.putEntries, List.foldl_cons]
      exact (ih h.2 _).trans (find_putEntry (Ne.symm h.1) _ _)

theorem mergeFields_eq (hne : fields.entries ≠ []) (body : Json) :
    mergeFields fields body =
      Json.set fieldsKey (.Array (Json.putEntries (fieldEntries fields) ((fieldsOf body).getD []))) body :=
  if_neg hne

theorem get_mergeFields (h : mergeFields fields live = some body) {key : Text}
    (hkey : key ≠ fieldsKey ∨ fields.entries = []) : body.get key = live.get key := by
  by_cases hnil : fields.entries = []
  · rw [mergeFields, if_pos hnil] at h
    obtain rfl := Option.some.inj h
    rfl
  · rw [mergeFields_eq hnil] at h
    rw [Json.get_set h, if_neg]
    exact fun hsame => hkey.elim (fun hne => hne hsame.symm) hnil

theorem fields_mergeFields (h : mergeFields fields live = some body) :
    ∀ entry ∈ fields.entries, ∃ list, fieldsOf body = some list ∧
      Json.entryValue entry.1 list = some (.String entry.2) := by
  intro entry hentry
  have hne : fields.entries ≠ [] := List.ne_nil_of_mem hentry
  rw [mergeFields_eq hne] at h
  refine ⟨_, fieldsOf_set h, ?_⟩
  rw [Json.entryValue_putEntries (nodup_fieldEntries fields)]
  have hmem : (entry.1, Json.String entry.2) ∈ fieldEntries fields := List.mem_map.mpr ⟨entry, hentry, rfl⟩
  rw [Json.lookup_of_mem (nodup_fieldEntries fields) hmem]
  rfl

theorem rest_mergeFields (h : mergeFields fields live = some body) {other : Text}
    (hother : other ∉ fields.keys) :
    ((fieldsOf body).getD []).find? (fun field => Json.nameOf field = some other) =
      ((fieldsOf live).getD []).find? fun field => Json.nameOf field = some other := by
  by_cases hnil : fields.entries = []
  · rw [mergeFields, if_pos hnil] at h
    obtain rfl := Option.some.inj h
    rfl
  · rw [mergeFields_eq hnil] at h
    rw [fieldsOf_set h, Option.getD_some]
    exact find_putEntries (keys_fieldEntries fields ▸ hother) _

-- What carries the fields is left as it is.
theorem mergeFields_self (h : ∀ entry ∈ fields.entries, ∃ list, fieldsOf body = some list ∧
    Json.entryValue entry.1 list = some (.String entry.2)) : mergeFields fields body = some body := by
  by_cases hnil : fields.entries = []
  · exact if_pos hnil
  · obtain ⟨entry, hentry⟩ := List.exists_mem_of_ne_nil _ hnil
    obtain ⟨list, hlist, -⟩ := h entry hentry
    have hget : body.get fieldsKey = some (.Array list) := by
      rw [fieldsOf] at hlist
      obtain ⟨value, hvalue, harray⟩ := Option.bind_eq_some_iff.mp hlist
      cases value with
      | Array items => rw [hvalue, Option.some.inj harray]
      | _ => cases harray
    rw [mergeFields_eq hnil, hlist, Option.getD_some, Json.putEntries_self]
    · exact Json.set_self hget
    · intro member hmember
      obtain ⟨entry, hentry, rfl⟩ := List.mem_map.mp hmember
      obtain ⟨list', hlist', hvalue⟩ := h entry hentry
      rw [hlist] at hlist'
      rwa [← Option.some.inj hlist'] at hvalue

end Fields

section Resource

variable {members : List Json.Member} {fields : TextMap Text} {live body : Json}

theorem mergedResource_some (members : List Json.Member) (fields : TextMap Text) (map : List Json.Member) :
    ∃ after, mergedResource members fields (some (.Object map)) = some (.Object after) := by
  obtain ⟨middle, hmiddle⟩ := Json.setAll_object members map
  unfold mergedResource
  rw [Option.getD_some, hmiddle]
  show ∃ after, mergeFields fields (.Object middle) = some (.Object after)
  by_cases hnil : fields.entries = []
  · exact ⟨middle, if_pos hnil⟩
  · exact ⟨_, mergeFields_eq hnil _⟩

theorem mergedResource_none (members : List Json.Member) (fields : TextMap Text) :
    mergedResource members fields none = mergedResource members fields (some (.Object [])) := rfl

theorem mergedResource_steps (h : mergedResource members fields (some live) = some body) :
    ∃ middle, Json.setAll members live = some middle ∧ mergeFields fields middle = some body :=
  Option.bind_eq_some_iff.mp h

theorem mergedResource_carries (hdistinct : (Json.keys members).Nodup) (hfields : fieldsKey ∉ Json.keys members)
    (h : mergedResource members fields (some live) = some body) : Carries members fields body := by
  obtain ⟨middle, hset, hmerge⟩ := mergedResource_steps h
  refine ⟨fun member hmember => ?_, fields_mergeFields hmerge⟩
  have hkey : member.1 ∈ Json.keys members := List.mem_map_of_mem hmember
  rw [get_mergeFields hmerge (Or.inl fun hsame => hfields (hsame ▸ hkey)), Json.get_setAll hdistinct hset,
    Json.lookup_of_mem hdistinct hmember]
  rfl

theorem mergedResource_keepsRest (hdistinct : (Json.keys members).Nodup) (hfields : fieldsKey ∉ Json.keys members)
    (h : mergedResource members fields (some live) = some body) : KeepsRest members fields live body := by
  obtain ⟨middle, hset, hmerge⟩ := mergedResource_steps h
  have hother : ∀ key, key ∉ Json.keys members → middle.get key = live.get key := by
    intro key hkey
    rw [Json.get_setAll hdistinct hset, Json.lookup_eq_none.mpr hkey]
    rfl
  have hlist : fieldsOf middle = fieldsOf live := by rw [fieldsOf, hother _ hfields, fieldsOf]
  refine ⟨fun key hkey hfree => ?_, fun other hfree => ?_⟩
  · rw [get_mergeFields hmerge hfree, hother key hkey]
  · rw [rest_mergeFields hmerge hfree, hlist]

-- An object that carries all of it is not written.
theorem mergedResource_self (h : Carries members fields body) : mergedResource members fields (some body) = some body := by
  unfold mergedResource
  rw [Option.getD_some, Json.setAll_self h.members]
  exact mergeFields_self h.fields

theorem Carries.created (h : Carries members fields body) (hid : idKey ∉ Json.keys members) {id : Nat}
    {map : List Json.Member} (hbody : body = .Object map) : Carries members fields (Server.created id map) := by
  subst hbody
  have hget : ∀ key, key ≠ idKey → (Server.created id map).get key = (Json.Object map).get key := by
    intro key hkey
    rw [Server.created, Json.get_object, Json.lookup_assign, if_neg (Ne.symm hkey), Json.get_object]
  refine ⟨fun member hmember => ?_, fun entry hentry => ?_⟩
  · rw [hget _ fun hsame => hid (hsame ▸ List.mem_map_of_mem hmember)]
    exact h.members member hmember
  · obtain ⟨list, hlist, hvalue⟩ := h.fields entry hentry
    refine ⟨list, ?_, hvalue⟩
    rw [fieldsOf, hget _ (by decide), ← hlist, fieldsOf]

theorem idOf_created (id : Nat) (h : id < 2 ^ 63) (map : List Json.Member) :
    idOf (Server.created id map) = some (id : Int) := by
  have hsmall : (UInt64.ofNat id).toNat = id := by
    rw [UInt64.toNat_ofNat']
    omega
  rw [idOf, Server.created, Json.get_object, Json.lookup_assign, if_pos rfl, Option.bind_some, Serde.ofNat,
    Serde.ofU64, Serde.readI64, hsmall, if_pos h]

end Resource

end Mediaops.Arr
