import Mathlib.Algebra.Group.Int.Defs
import Mediaops.Library.Codec
import Mediaops.Library.Json.Maps

namespace Mediaops.Serde

-- Structs and enumerations as JSON, the way they are written and read by derived code.

open Json (Member keys lookup ofList)

mutual

-- The document without the members that are null.
def withoutNulls : Json → Json
  | .Array items => .Array (itemsWithoutNulls items)
  | .Object map => .Object (membersWithoutNulls map)
  | other => other

def itemsWithoutNulls : List Json → List Json
  | [] => []
  | item :: rest => withoutNulls item :: itemsWithoutNulls rest

def membersWithoutNulls : List Member → List Member
  | [] => []
  | (_, .Null) :: rest => membersWithoutNulls rest
  | (key, value) :: rest => (key, withoutNulls value) :: membersWithoutNulls rest

end

mutual

-- Every key at every depth through `f`; of two that meet the later one stays.
def renameKeys (f : Text → Text) : Json → Json
  | .Array items => .Array (renameItems f items)
  | .Object map => .Object (ofList (renameMembers f map))
  | other => other

def renameItems (f : Text → Text) : List Json → List Json
  | [] => []
  | item :: rest => renameKeys f item :: renameItems f rest

def renameMembers (f : Text → Text) : List Member → List Member
  | [] => []
  | (key, value) :: rest => (f key, renameKeys f value) :: renameMembers f rest

end

section Values

variable {α : Type}

def ofU64 (n : UInt64) : Json := .Number (.Unsigned n)

def ofU32 (n : UInt32) : Json := ofU64 n.toUInt64

def ofNat (n : Nat) : Json := ofU64 (UInt64.ofNat n)

def ofI64 (n : Int) : Json := if n < 0 then .Number (.Negative n) else ofNat n.toNat

def ofList (write : α → Json) (items : List α) : Json := .Array (items.map write)

def readText : Json → Option Text := Json.asStr

def readBool : Json → Option Bool
  | .Bool b => some b
  | _ => none

def readU64 : Json → Option UInt64 := Json.asU64

-- An unsigned number below a bound.
def readBelow (bound : Nat) (value : Json) : Option Nat :=
  (readU64 value).bind fun n => if n.toNat < bound then some n.toNat else none

def readU32 (value : Json) : Option UInt32 := (readBelow (2 ^ 32) value).map UInt32.ofNat

def readI64 : Json → Option Int
  | .Number (.Unsigned n) => if n.toNat < 2 ^ 63 then some n.toNat else none
  | .Number (.Negative n) => some n
  | _ => none

def readList (read : Json → Option α) : Json → Option (List α)
  | .Array items => items.mapM read
  | _ => none

-- The name of a variant without content, alone or as the only key of an object.
def variantName : Json → Option Text
  | .String name => some name
  | .Object [(name, .Null)] => some name
  | _ => none

def readVariant (all : List α) (name : α → Text) (value : Json) : Option α :=
  (variantName value).bind (Codec.word all name)

end Values

section Structs

variable {α : Type}

def members (names : List Text) (values : List (Option Json)) : List Member :=
  (names.zip values).filterMap fun (name, value) => value.map (name, ·)

-- A struct with the values of its members; a member without one is skipped.
def record (names : List Text) (values : List (Option Json)) : Json :=
  .Object (Json.ofList (members names values))

def unlessSkipped (skip : Bool) (value : Json) : Option Json := if skip then none else some value

-- The items of an array are the members in order, as far as they go.
def positional (names : List Text) (items : List Json) : Option (List (Option Json)) :=
  if items.length ≤ names.length then
    some (items.map some ++ List.replicate (names.length - items.length) none)
  else none

-- The members of a struct by their names, unknown ones denied.
def fields (names : List Text) : Json → Option (List (Option Json))
  | .Object map =>
      if ∀ key ∈ keys map, key ∈ names then some (names.map (lookup · map)) else none
  | .Array items => positional names items
  | _ => none

-- The members of a variant by their names, unknown ones ignored, behind its tag.
def taggedFields (tag : Text) (names : List Text) : Json → Option (List (Option Json))
  | .Object map => some (names.map fun name => lookup name (map.filter (·.1 ≠ tag)))
  | .Array (_ :: items) => positional names items
  | _ => none

def tagOf (tag : Text) : Json → Option Text
  | .Object map => (lookup tag map).bind Json.asStr
  | .Array (first :: _) => first.asStr
  | _ => none

def required (read : Json → Option α) (field : Option Json) : Option α := field.bind read

def defaulted (value : α) (read : Json → Option α) : Option Json → Option α
  | none => some value
  | some field => read field

def optional (read : Json → Option α) : Option Json → Option (Option α)
  | none | some .Null => some none
  | some field => (read field).map some

end Structs

section Members

theorem keys_members (names : List Text) (values : List (Option Json)) :
    (keys (members names values)).Sublist names := by
  induction names generalizing values with
  | nil => simp [members, keys]
  | cons name names ih =>
      cases values with
      | nil => simp [members, keys]
      | cons value values =>
          have hrest := ih values
          cases value with
          | none => exact hrest.cons name
          | some value => exact hrest.cons_cons name

theorem nodup_members {names : List Text} (h : names.Nodup) (values : List (Option Json)) :
    (keys (members names values)).Nodup := h.sublist (keys_members names values)

theorem members_cons (name : Text) (names : List Text) (value : Option Json)
    (values : List (Option Json)) :
    members (name :: names) (value :: values) = (value.map (name, ·)).toList ++ members names values := by
  cases value <;> rfl

theorem lookup_members_of_notMem {name : Text} {names : List Text} (h : name ∉ names)
    (values : List (Option Json)) : lookup name (members names values) = none := by
  rw [Json.lookup_eq_none]
  exact fun hmem => h ((keys_members names values).subset hmem)

-- A member is found by its name.
theorem lookup_members {names : List Text} {values : List (Option Json)} {i : Nat} {name : Text}
    {value : Option Json} (hdistinct : names.Nodup) (hname : names[i]? = some name)
    (hvalue : values[i]? = some value) : lookup name (members names values) = value := by
  induction names generalizing values i with
  | nil => simp at hname
  | cons first names ih =>
      cases values with
      | nil => simp at hvalue
      | cons head values =>
          obtain ⟨hfirst, hrest⟩ := List.nodup_cons.mp hdistinct
          rw [members_cons]
          cases i with
          | zero =>
              simp only [List.getElem?_cons_zero, Option.some.injEq] at hname hvalue
              subst hname hvalue
              cases head with
              | none => exact lookup_members_of_notMem hfirst values
              | some head => simp [Json.lookup_cons]
          | succ i =>
              simp only [List.getElem?_cons_succ] at hname hvalue
              have hne : first ≠ name := fun heq => hfirst (heq ▸ List.mem_of_getElem? hname)
              have hlookup := ih hrest hname hvalue
              cases head with
              | none => exact hlookup
              | some head => simpa [Json.lookup_cons, hne] using hlookup

theorem map_lookup_members {names : List Text} {values : List (Option Json)}
    (hdistinct : names.Nodup) (hlength : names.length = values.length) :
    names.map (lookup · (members names values)) = values := by
  refine List.ext_getElem? fun i => ?_
  rw [List.getElem?_map]
  cases hname : names[i]? with
  | none =>
      have hlong := List.getElem?_eq_none_iff.mp hname
      exact (List.getElem?_eq_none_iff.mpr (by omega)).symm
  | some name =>
      have hshort := (List.getElem?_eq_some_iff.mp hname).1
      have hlength' : i < values.length := by omega
      have hvalue : values[i]? = some values[i] := List.getElem?_eq_getElem hlength'
      rw [hvalue, Option.map_some, lookup_members hdistinct hname hvalue]

end Members

section Records

theorem keys_record {names : List Text} (hdistinct : names.Nodup) (values : List (Option Json)) :
    ∀ key ∈ keys (Json.ofList (members names values)), key ∈ names := by
  intro key hkey
  have hperm := Json.ofList_perm (nodup_members hdistinct values)
  exact (keys_members names values).subset ((hperm.map Prod.fst).mem_iff.mp hkey)

-- What is written as a struct is read back by its names.
theorem fields_record {names : List Text} {values : List (Option Json)}
    (hdistinct : names.Nodup) (hlength : names.length = values.length) :
    fields names (record names values) = some values := by
  have hlookup : names.map (lookup · (Json.ofList (members names values))) =
      names.map (lookup · (members names values)) :=
    List.map_congr_left fun name _ => Json.lookup_ofList (nodup_members hdistinct values) name
  rw [record, fields, if_pos (keys_record hdistinct values), hlookup, map_lookup_members hdistinct hlength]

-- The value of a member in the document without nulls.
def dropNull : Option Json → Option Json
  | none | some .Null => none
  | some value => some (withoutNulls value)

theorem membersWithoutNulls_eq (map : List Member) :
    membersWithoutNulls map = map.filterMap fun member => (dropNull (some member.2)).map (member.1, ·) := by
  induction map with
  | nil => rfl
  | cons member rest ih =>
      obtain ⟨key, value⟩ := member
      cases value with
      | Null => simpa [membersWithoutNulls, dropNull] using ih
      | _ => simpa [membersWithoutNulls, dropNull] using ih

theorem membersWithoutNulls_members (names : List Text) (values : List (Option Json)) :
    membersWithoutNulls (members names values) = members names (values.map dropNull) := by
  rw [membersWithoutNulls_eq]
  induction names generalizing values with
  | nil => rfl
  | cons name names ih =>
      cases values with
      | nil => rfl
      | cons value values =>
          rw [members_cons, List.filterMap_append, ih, List.map_cons, members_cons]
          congr 1
          cases value with
          | none => rfl
          | some value => cases value <;> rfl

theorem sorted_membersWithoutNulls {map : List Member} (h : Json.Sorted map) :
    Json.Sorted (membersWithoutNulls map) := by
  rw [membersWithoutNulls_eq, Json.Sorted, List.pairwise_filterMap]
  refine h.imp fun hlt a ha b hb => ?_
  obtain ⟨-, -, rfl⟩ := Option.map_eq_some_iff.mp ha
  obtain ⟨-, -, rfl⟩ := Option.map_eq_some_iff.mp hb
  exact hlt

theorem withoutNulls_record {names : List Text} (hdistinct : names.Nodup)
    (values : List (Option Json)) :
    withoutNulls (record names values) = record names (values.map dropNull) := by
  have hperm : (membersWithoutNulls (Json.ofList (members names values))).Perm
      (members names (values.map dropNull)) := by
    rw [← membersWithoutNulls_members, membersWithoutNulls_eq, membersWithoutNulls_eq]
    exact (Json.ofList_perm (nodup_members hdistinct values)).filterMap _
  have hsorted := sorted_membersWithoutNulls (Json.sorted_ofList (members names values))
  rw [record, withoutNulls, record, ← Json.ofList_sorted hsorted,
    Json.ofList_congr hsorted.nodup hperm]

theorem renameMembers_eq (f : Text → Text) (map : List Member) :
    renameMembers f map = map.map fun member => (f member.1, renameKeys f member.2) := by
  induction map with
  | nil => rfl
  | cons member rest ih => rw [renameMembers, ih, List.map_cons]

theorem renameMembers_members (f : Text → Text) (names : List Text) (values : List (Option Json)) :
    renameMembers f (members names values) =
      members (names.map f) (values.map (Option.map (renameKeys f))) := by
  rw [renameMembers_eq]
  induction names generalizing values with
  | nil => rfl
  | cons name names ih =>
      cases values with
      | nil => rfl
      | cons value values =>
          rw [members_cons, List.map_append, ih, List.map_cons, List.map_cons, members_cons]
          congr 1
          cases value <;> rfl

-- Renaming goes through a struct when no two of its names meet.
theorem renameKeys_record {f : Text → Text} {names : List Text} (hdistinct : names.Nodup)
    (hrenamed : (names.map f).Nodup) (values : List (Option Json)) :
    renameKeys f (record names values) =
      record (names.map f) (values.map (Option.map (renameKeys f))) := by
  have hperm : (renameMembers f (Json.ofList (members names values))).Perm
      (members (names.map f) (values.map (Option.map (renameKeys f)))) := by
    rw [← renameMembers_members, renameMembers_eq, renameMembers_eq]
    exact (Json.ofList_perm (nodup_members hdistinct values)).map _
  have hkeys : (keys (renameMembers f (Json.ofList (members names values)))).Nodup :=
    (hperm.map Prod.fst).nodup_iff.mpr (nodup_members hrenamed _)
  rw [record, renameKeys, record, Json.ofList_congr hkeys hperm]

theorem lookup_filter {name tag : Text} (h : name ≠ tag) (map : List Member) :
    lookup name (map.filter (·.1 ≠ tag)) = lookup name map := by
  induction map with
  | nil => rfl
  | cons member rest ih =>
      by_cases htag : member.1 = tag
      · rw [List.filter_cons_of_neg (by simpa using htag), ih, Json.lookup_cons,
          if_neg (fun hname => h (hname.symm.trans htag))]
      · rw [List.filter_cons_of_pos (by simpa using htag), Json.lookup_cons, Json.lookup_cons, ih]

-- The members of a variant that was written under other names.
theorem taggedFields_lookup {tag : Text} {names others : List Text} (hothers : (tag :: others).Nodup)
    (htag : tag ∉ names) (first : Option Json) (values : List (Option Json)) :
    taggedFields tag names (record (tag :: others) (first :: values)) =
      some (names.map (lookup · (members others values))) := by
  rw [record, taggedFields]
  congr 1
  refine List.map_congr_left fun name hname => ?_
  have hne : name ≠ tag := fun heq => htag (heq ▸ hname)
  rw [lookup_filter hne, Json.lookup_ofList (nodup_members hothers _), members_cons]
  cases first with
  | none => rfl
  | some first => simp [Json.lookup_cons, Ne.symm hne]

theorem taggedFields_record {tag : Text} {names : List Text} {values : List (Option Json)}
    (hdistinct : (tag :: names).Nodup) (hlength : names.length = values.length)
    (first : Option Json) :
    taggedFields tag names (record (tag :: names) (first :: values)) = some values := by
  have hrest := List.nodup_cons.mp hdistinct
  rw [taggedFields_lookup hdistinct hrest.1, map_lookup_members hrest.2 hlength]

theorem tagOf_record {tag : Text} {names : List Text} (hdistinct : (tag :: names).Nodup)
    (first : Text) (values : List (Option Json)) :
    tagOf tag (record (tag :: names) (some (.String first) :: values)) = some first := by
  rw [record, tagOf, Json.lookup_ofList (nodup_members hdistinct _), members_cons]
  simp [Json.lookup_cons, Json.asStr]

theorem get_record {names : List Text} {values : List (Option Json)} {i : Nat} {name : Text}
    {value : Option Json} (hdistinct : names.Nodup) (hname : names[i]? = some name)
    (hvalue : values[i]? = some value) : (record names values).get name = value := by
  rw [record, Json.get_object, Json.lookup_ofList (nodup_members hdistinct values),
    lookup_members hdistinct hname hvalue]

end Records

section Scalars

variable {α : Type}

@[simp] theorem dropNull_none : dropNull none = none := rfl

@[simp] theorem dropNull_string (text : Text) : dropNull (some (.String text)) = some (.String text) :=
  rfl

@[simp] theorem dropNull_bool (b : Bool) : dropNull (some (.Bool b)) = some (.Bool b) := rfl

@[simp] theorem dropNull_u64 (n : UInt64) : dropNull (some (ofU64 n)) = some (ofU64 n) := rfl

@[simp] theorem dropNull_u32 (n : UInt32) : dropNull (some (ofU32 n)) = some (ofU32 n) := rfl

@[simp] theorem dropNull_nat (n : Nat) : dropNull (some (ofNat n)) = some (ofNat n) := rfl

@[simp] theorem dropNull_i64 (n : Int) : dropNull (some (ofI64 n)) = some (ofI64 n) := by
  unfold ofI64
  split <;> rfl

@[simp] theorem dropNull_list (write : α → Json) (items : List α) :
    dropNull (some (ofList write items)) = some (ofList (fun item => withoutNulls (write item)) items) := by
  have hitems : ∀ items : List Json, itemsWithoutNulls items = items.map withoutNulls := by
    intro items
    induction items with
    | nil => rfl
    | cons item rest ih => rw [itemsWithoutNulls, ih, List.map_cons]
  simp [dropNull, ofList, withoutNulls, hitems, Function.comp_def]

@[simp] theorem dropNull_record (names : List Text) (values : List (Option Json)) :
    dropNull (some (record names values)) = some (withoutNulls (record names values)) := rfl

@[simp] theorem readText_string (text : Text) : readText (.String text) = some text := rfl

@[simp] theorem readBool_bool (b : Bool) : readBool (.Bool b) = some b := rfl

@[simp] theorem readU64_u64 (n : UInt64) : readU64 (ofU64 n) = some n := rfl

theorem readBelow_nat {bound n : Nat} (hn : n < bound) (hbound : bound ≤ 2 ^ 64) :
    readBelow bound (ofNat n) = some n := by
  have hword : (UInt64.ofNat n).toNat = n := by
    rw [UInt64.toNat_ofNat']
    exact Nat.mod_eq_of_lt (by omega)
  simp [readBelow, ofNat, hword, hn]

@[simp] theorem readU32_u32 (n : UInt32) : readU32 (ofU32 n) = some n := by
  have hlt := n.toNat_lt
  simp [readU32, readBelow, ofU32, hlt]

theorem readI64_i64 {n : Int} (h : n < 2 ^ 63) : readI64 (ofI64 n) = some n := by
  unfold ofI64
  split
  · rfl
  · have hword : (UInt64.ofNat n.toNat).toNat = n.toNat := by
      rw [UInt64.toNat_ofNat']
      exact Nat.mod_eq_of_lt (by omega)
    have hlt : n.toNat < 2 ^ 63 := by omega
    simp only [ofNat, ofU64, readI64, hword, if_pos hlt]
    congr 1
    omega

theorem readVariant_string {all : List α} {name : α → Text} (hspell : (all.map name).Nodup) {a : α}
    (ha : a ∈ all) : readVariant all name (.String (name a)) = some a :=
  Codec.word_spell hspell ha

theorem readList_map {β : Type} {read : Json → Option β} {write : α → Json} {g : α → β}
    {items : List α} (h : ∀ item ∈ items, read (write item) = some (g item)) :
    readList read (ofList write items) = some (items.map g) := by
  simp only [readList, ofList]
  induction items with
  | nil => rfl
  | cons item items ih =>
      have hhead := h item List.mem_cons_self
      have hrest := ih fun other hother => h other (List.mem_cons_of_mem _ hother)
      rw [List.map_cons, List.mapM_cons, hhead, hrest]
      rfl

@[simp] theorem required_some (read : Json → Option α) (value : Json) :
    required read (some value) = read value := rfl

@[simp] theorem defaulted_some (missing : α) (read : Json → Option α) (value : Json) :
    defaulted missing read (some value) = read value := rfl

@[simp] theorem defaulted_none (missing : α) (read : Json → Option α) :
    defaulted missing read none = some missing := rfl

@[simp] theorem optional_none (read : Json → Option α) : optional read none = some none := rfl

-- A value that is read is not null, unless null is read.
theorem optional_some {read : Json → Option α} {value : Json} {a : α} (hnull : read .Null = none)
    (h : read value = some a) : optional read (some value) = some (some a) := by
  unfold optional
  split
  · rename_i heq
    cases heq
  · rename_i heq
    rw [Option.some.inj heq, hnull] at h
    cases h
  · rename_i heq
    rw [← Option.some.inj heq, h]
    rfl

theorem optional_map {read : Json → Option α} {write : α → Json} {field : Option α}
    (hnull : read .Null = none) (h : ∀ a ∈ field, read (write a) = some a) :
    optional read (field.map write) = some field := by
  cases field with
  | none => rfl
  | some a => exact optional_some hnull (h a rfl)

end Scalars

section Fixed

variable {f : Text → Text}

-- Neither a list nor an object.
def isFlat : Json → Bool
  | .Array _ | .Object _ => false
  | _ => true

theorem renameKeys_flat {value : Json} (h : isFlat value = true) : renameKeys f value = value := by
  cases value with
  | Array items => cases h
  | Object map => cases h
  | _ => rfl

theorem renameItems_eq (f : Text → Text) (items : List Json) :
    renameItems f items = items.map (renameKeys f) := by
  induction items with
  | nil => rfl
  | cons item rest ih => rw [renameItems, ih, List.map_cons]

theorem renameKeys_record_fixed {names : List Text} (hdistinct : names.Nodup)
    (hnames : ∀ name ∈ names, f name = name) (values : List (Option Json)) :
    renameKeys f (record names values) = record names (values.map (Option.map (renameKeys f))) := by
  have hsame : names.map f = names := by
    rw [List.map_congr_left hnames]
    exact List.map_id _
  rw [renameKeys_record hdistinct (by rwa [hsame]), hsame]

end Fixed

end Mediaops.Serde
