import Mediaops.Library.Json.Maps

namespace Mediaops.JsonEq

-- Equality of documents is decided member by member.

mutual

-- `PartialEq`
def same : Json → Json → Bool
  | .Null, .Null => true
  | .Bool a, .Bool b => a == b
  | .Number a, .Number b => a == b
  | .String a, .String b => a == b
  | .Array a, .Array b => sameItems a b
  | .Object a, .Object b => sameMembers a b
  | _, _ => false

def sameItems : List Json → List Json → Bool
  | [], [] => true
  | a :: as, b :: bs => same a b && sameItems as bs
  | _, _ => false

def sameMembers : List (Text × Json) → List (Text × Json) → Bool
  | [], [] => true
  | (key, a) :: as, (other, b) :: bs => key == other && same a b && sameMembers as bs
  | _, _ => false

end

mutual

theorem same_iff (a b : Json) : same a b = true ↔ a = b := by
  cases a <;> cases b <;> simp only [same, reduceCtorEq, Bool.false_eq_true, beq_iff_eq, Json.Bool.injEq,
    Json.Number.injEq, Json.String.injEq, Json.Array.injEq, Json.Object.injEq]
  · exact sameItems_iff _ _
  · exact sameMembers_iff _ _

theorem sameItems_iff (as bs : List Json) : sameItems as bs = true ↔ as = bs := by
  cases as with
  | nil => cases bs <;> simp [sameItems]
  | cons a as =>
      cases bs with
      | nil => simp [sameItems]
      | cons b bs => rw [sameItems, Bool.and_eq_true, same_iff a b, sameItems_iff as bs, List.cons.injEq]

theorem sameMembers_iff (as bs : List (Text × Json)) : sameMembers as bs = true ↔ as = bs := by
  cases as with
  | nil => cases bs <;> simp [sameMembers]
  | cons a as =>
      cases bs with
      | nil => simp [sameMembers]
      | cons b bs =>
          rw [sameMembers, Bool.and_eq_true, Bool.and_eq_true, beq_iff_eq, same_iff a.2 b.2,
            sameMembers_iff as bs, List.cons.injEq, Prod.ext_iff]

end

instance : DecidableEq Json := fun a b => decidable_of_iff _ (same_iff a b)

end Mediaops.JsonEq

namespace Mediaops.Json

-- Assignments to the members of a document, and to lists of `name`/`value` entries.

def replace (key : Text) (value : Json) : List Member → List Member
  | [] => []
  | member :: rest =>
      if member.1 = key then (key, value) :: rest else member :: replace key value rest

-- `IndexMut`: the member of that key, put in where there is none, takes the value.
def assign (key : Text) (value : Json) (map : List Member) : List Member :=
  if key ∈ keys map then replace key value map else insert key value map

-- `body[key] = value`: a null becomes an object, and what is no object panics.
def set (key : Text) (value : Json) : Json → Option Json
  | .Null => some (.Object (assign key value []))
  | .Object map => some (.Object (assign key value map))
  | _ => none

def setAll (members : List Member) (body : Json) : Option Json :=
  members.foldlM (fun body member => set member.1 member.2 body) body

def nameKey : Text := "name"

def valueKey : Text := "value"

def nameOf (body : Json) : Option Text := (body.get nameKey).bind asStr

-- `json!({"name": name, "value": value})`
def entry (name : Text) (value : Json) : Json :=
  .Object (ofList [(nameKey, .String name), (valueKey, value)])

-- What has a name is an object, so that this assignment does not panic.
def revalue (value : Json) : Json → Json
  | .Object map => .Object (assign valueKey value map)
  | other => other

-- The first entry of that name takes the value; without one it is put behind the others.
def putEntry (name : Text) (value : Json) : List Json → List Json
  | [] => [entry name value]
  | field :: rest =>
      if nameOf field = some name then revalue value field :: rest
      else field :: putEntry name value rest

-- One entry after the other.
def putEntries (entries : List Member) (fields : List Json) : List Json :=
  entries.foldl (fun fields entry => putEntry entry.1 entry.2 fields) fields

-- The value of the first entry of that name.
def entryValue (name : Text) (fields : List Json) : Option Json :=
  (fields.find? fun field => nameOf field = some name).bind (get valueKey)

-- The document but for the members of that key.
def without (key : Text) : Json → Json
  | .Object map => .Object (map.filter fun member => member.1 ≠ key)
  | other => other

section Assign

theorem lookup_replace {key : Text} {map : List Member} (h : key ∈ keys map) (other : Text) (value : Json) :
    lookup other (replace key value map) = if key = other then some value else lookup other map := by
  induction map with
  | nil => simp [keys] at h
  | cons member rest ih =>
      rw [replace]
      by_cases hkey : member.1 = key
      · rw [if_pos hkey, lookup_cons, lookup_cons, hkey]
        split <;> rfl
      · rw [if_neg hkey, lookup_cons, lookup_cons]
        have hrest : key ∈ keys rest := by
          rw [keys, List.map_cons, List.mem_cons] at h
          exact h.resolve_left (Ne.symm hkey)
        rw [ih hrest]
        by_cases hother : key = other
        · rw [if_neg (fun hsame => hkey (hsame.trans hother.symm)), if_pos hother, if_pos hother]
        · rw [if_neg hother, if_neg hother]

@[simp] theorem lookup_assign (key other : Text) (value : Json) (map : List Member) :
    lookup other (assign key value map) = if key = other then some value else lookup other map := by
  unfold assign
  split
  · rename_i h
    exact lookup_replace h other value
  · exact lookup_insert other key value map

theorem replace_self {key : Text} {value : Json} {map : List Member} (h : lookup key map = some value) :
    replace key value map = map := by
  induction map with
  | nil => rfl
  | cons member rest ih =>
      rw [lookup_cons] at h
      rw [replace]
      by_cases hkey : member.1 = key
      · rw [if_pos hkey] at h ⊢
        obtain rfl := Option.some.inj h
        rw [← hkey]
      · rw [if_neg hkey] at h ⊢
        rw [ih h]

-- An assignment of what is there changes nothing.
theorem assign_self {key : Text} {value : Json} {map : List Member} (h : lookup key map = some value) :
    assign key value map = map := by
  have hmem : key ∈ keys map := by
    by_contra hnone
    rw [lookup_eq_none.mpr hnone] at h
    cases h
  rw [assign, if_pos hmem, replace_self h]

theorem replace_replace (key : Text) (value value' : Json) (map : List Member) :
    replace key value' (replace key value map) = replace key value' map := by
  induction map with
  | nil => rfl
  | cons member rest ih =>
      by_cases hkey : member.1 = key
      · simp [replace, hkey]
      · simp [replace, hkey, ih]

theorem replace_insert {key : Text} {map : List Member} (h : key ∉ keys map) (value value' : Json) :
    replace key value' (insert key value map) = insert key value' map := by
  induction map with
  | nil => simp [insert, replace]
  | cons member rest ih =>
      rw [keys, List.map_cons, List.mem_cons, not_or] at h
      rw [insert, insert, if_neg h.1, if_neg h.1]
      split
      · simp [replace]
      · rw [replace, if_neg (Ne.symm h.1), ih h.2]

-- The last assignment to a key is the one that counts.
theorem assign_assign (key : Text) (value value' : Json) (map : List Member) :
    assign key value' (assign key value map) = assign key value' map := by
  have hmem : key ∈ keys (assign key value map) := by
    by_contra hnone
    have hlookup := lookup_assign key key value map
    rw [lookup_eq_none.mpr hnone, if_pos rfl] at hlookup
    cases hlookup
  rw [assign, if_pos hmem]
  by_cases h : key ∈ keys map
  · rw [assign, if_pos h, replace_replace, assign, if_pos h]
  · rw [assign, if_neg h, replace_insert h, assign, if_neg h]

theorem filter_replace (key : Text) (value : Json) (map : List Member) :
    (replace key value map).filter (fun member => member.1 ≠ key) = map.filter fun member => member.1 ≠ key := by
  induction map with
  | nil => rfl
  | cons member rest ih =>
      rw [replace]
      by_cases hkey : member.1 = key
      · simp [hkey]
      · rw [if_neg hkey, List.filter_cons, List.filter_cons, ih]

theorem filter_insert (key : Text) (value : Json) (map : List Member) :
    (insert key value map).filter (fun member => member.1 ≠ key) = map.filter fun member => member.1 ≠ key := by
  induction map with
  | nil => simp [insert]
  | cons member rest ih =>
      rw [insert]
      by_cases hkey : key = member.1
      · simp [hkey]
      · rw [if_neg hkey]
        split
        · simp
        · rw [List.filter_cons, List.filter_cons, ih]

-- Whatever was assigned to the key is gone.
theorem without_assign (key : Text) (value : Json) (map : List Member) :
    without key (.Object (assign key value map)) = without key (.Object map) := by
  rw [without, without, Json.Object.injEq]
  unfold assign
  split
  · exact filter_replace key value map
  · exact filter_insert key value map

theorem get_set {key : Text} {value body after : Json} (h : set key value body = some after) (other : Text) :
    get other after = if key = other then some value else get other body := by
  cases body with
  | Null =>
      obtain rfl := Option.some.inj h
      rw [get_object, lookup_assign]
      rfl
  | Object map =>
      obtain rfl := Option.some.inj h
      rw [get_object, lookup_assign, get_object]
  | _ => cases h

theorem set_self {key : Text} {value body : Json} (h : get key body = some value) :
    set key value body = some body := by
  cases body with
  | Object map => rw [set, assign_self h]
  | _ => cases h

theorem setAll_self {members : List Member} {body : Json}
    (h : ∀ member ∈ members, get member.1 body = some member.2) : setAll members body = some body := by
  induction members with
  | nil => rfl
  | cons member rest ih =>
      rw [setAll, List.foldlM_cons, set_self (h member List.mem_cons_self)]
      exact ih fun other hother => h other (List.mem_cons_of_mem _ hother)

theorem setAll_object (members : List Member) (map : List Member) :
    ∃ after, setAll members (.Object map) = some (.Object after) := by
  induction members generalizing map with
  | nil => exact ⟨map, rfl⟩
  | cons member rest ih => exact ih (assign member.1 member.2 map)

-- A member that is not assigned stays, and one that is has its value.
theorem get_setAll {members : List Member} {body after : Json} (hdistinct : (keys members).Nodup)
    (h : setAll members body = some after) (other : Text) :
    get other after = (lookup other members).or (get other body) := by
  induction members generalizing body with
  | nil =>
      obtain rfl := Option.some.inj h
      rfl
  | cons member rest ih =>
      rw [setAll, List.foldlM_cons] at h
      obtain ⟨middle, hset, hrest⟩ := Option.bind_eq_some_iff.mp h
      obtain ⟨hfirst, hdistinct⟩ := List.nodup_cons.mp hdistinct
      rw [ih hdistinct hrest, get_set hset, lookup_cons]
      by_cases hkey : member.1 = other
      · subst hkey
        rw [lookup_eq_none.mpr hfirst, if_pos rfl, if_pos rfl]
        rfl
      · rw [if_neg hkey, if_neg hkey]

end Assign

section Entries

variable {name other : Text} {value : Json}

theorem nameOf_revalue {field : Json} : nameOf (revalue value field) = nameOf field := by
  cases field with
  | Object map =>
      rw [revalue, nameOf, nameOf, get_object, get_object, lookup_assign, if_neg (by decide)]
  | _ => rfl

theorem nodup_entryKeys (name : Text) (value : Json) :
    (keys [(nameKey, .String name), (valueKey, value)]).Nodup := by
  show [nameKey, valueKey].Nodup
  decide

theorem nameOf_entry (name : Text) (value : Json) : nameOf (entry name value) = some name := by
  rw [nameOf, entry, get_object, lookup_ofList (nodup_entryKeys name value)]
  rfl

theorem value_entry (name : Text) (value : Json) : get valueKey (entry name value) = some value := by
  rw [entry, get_object, lookup_ofList (nodup_entryKeys name value)]
  rfl

theorem value_revalue {field : Json} (h : (nameOf field).isSome) :
    get valueKey (revalue value field) = some value := by
  cases field with
  | Object map => rw [revalue, get_object, lookup_assign, if_pos rfl]
  | _ => cases h

theorem revalue_self {field : Json} (h : get valueKey field = some value) : revalue value field = field := by
  cases field with
  | Object map => rw [revalue, assign_self h]
  | _ => rfl

theorem entryValue_putEntry (name other : Text) (value : Json) (fields : List Json) :
    entryValue other (putEntry name value fields) =
      if name = other then some value else entryValue other fields := by
  induction fields with
  | nil =>
      rw [putEntry, entryValue, List.find?_cons, nameOf_entry]
      by_cases h : name = other
      · simp [h, value_entry]
      · simp [h, entryValue]
  | cons field rest ih =>
      rw [putEntry]
      by_cases hname : nameOf field = some name
      · rw [if_pos hname, entryValue, entryValue, List.find?_cons, List.find?_cons, nameOf_revalue, hname]
        by_cases h : name = other
        · simp [h, value_revalue (hname ▸ rfl : (nameOf field).isSome)]
        · simp [h]
      · rw [if_neg hname, entryValue, List.find?_cons]
        by_cases hother : nameOf field = some other
        · have hne : name ≠ other := fun h => hname (h ▸ hother)
          simp [hother, hne, entryValue]
        · have hrest := ih
          unfold entryValue at hrest ⊢
          simpa [hother] using hrest

theorem putEntry_self {fields : List Json} (h : entryValue name fields = some value) :
    putEntry name value fields = fields := by
  induction fields with
  | nil => cases h
  | cons field rest ih =>
      rw [entryValue, List.find?_cons] at h
      rw [putEntry]
      by_cases hname : nameOf field = some name
      · rw [if_pos hname]
        simp only [hname, decide_true, Option.bind_some] at h
        rw [revalue_self h]
      · rw [if_neg hname, ih]
        simpa [hname, entryValue] using h

theorem entryValue_putEntries {entries : List Member} (hdistinct : (keys entries).Nodup) (other : Text)
    (fields : List Json) :
    entryValue other (putEntries entries fields) =
      (lookup other entries).or (entryValue other fields) := by
  induction entries generalizing fields with
  | nil => rfl
  | cons entry rest ih =>
      obtain ⟨hfirst, hrest⟩ := List.nodup_cons.mp hdistinct
      rw [putEntries, List.foldl_cons]
      refine (ih hrest _).trans ?_
      rw [entryValue_putEntry, lookup_cons]
      by_cases hname : entry.1 = other
      · subst hname
        rw [lookup_eq_none.mpr hfirst, if_pos rfl, if_pos rfl]
        rfl
      · rw [if_neg hname, if_neg hname]

theorem putEntries_self {entries : List Member} {fields : List Json}
    (h : ∀ entry ∈ entries, entryValue entry.1 fields = some entry.2) :
    putEntries entries fields = fields := by
  induction entries with
  | nil => rfl
  | cons entry rest ih =>
      rw [putEntries, List.foldl_cons, putEntry_self (h entry List.mem_cons_self)]
      exact ih fun other hother => h other (List.mem_cons_of_mem _ hother)

end Entries

end Mediaops.Json
