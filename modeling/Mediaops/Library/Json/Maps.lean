import Mathlib.Data.List.Nodup
import Mathlib.Data.List.Pairwise
import Mathlib.Order.Basic
import Mediaops.Library.Json

namespace Mediaops.Json

-- The members of an object as a map in the order of its keys.

abbrev Member := Text × Json

def keys (map : List Member) : List Text := map.map Prod.fst

def lookup (key : Text) (map : List Member) : Option Json :=
  (map.find? fun field => field.1 = key).map Prod.snd

-- `Map::insert`
def insert (key : Text) (value : Json) : List Member → List Member
  | [] => [(key, value)]
  | member :: rest =>
      if key = member.1 then (key, value) :: rest
      else if key < member.1 then (key, value) :: member :: rest
      else member :: insert key value rest

def ofList (members : List Member) : List Member :=
  members.foldl (fun map member => insert member.1 member.2 map) []

def Sorted (map : List Member) : Prop := map.Pairwise fun a b => a.1 < b.1

section Insert

@[simp] theorem get_object (key : Text) (map : List Member) :
    get key (.Object map) = lookup key map := rfl

@[simp] theorem lookup_nil (key : Text) : lookup key [] = none := rfl

theorem lookup_cons (key : Text) (member : Member) (rest : List Member) :
    lookup key (member :: rest) = if member.1 = key then some member.2 else lookup key rest := by
  unfold lookup
  rw [List.find?_cons]
  by_cases h : member.1 = key <;> simp [h]

theorem lookup_eq_none {key : Text} {map : List Member} : lookup key map = none ↔ key ∉ keys map := by
  induction map with
  | nil => simp [keys]
  | cons member rest ih =>
      rw [lookup_cons]
      by_cases h : member.1 = key
      · simp [keys, h]
      · rw [if_neg h, ih]
        simp [keys, Ne.symm h]

theorem mem_of_lookup {key : Text} {value : Json} {map : List Member}
    (h : lookup key map = some value) : (key, value) ∈ map := by
  induction map with
  | nil => cases h
  | cons member rest ih =>
      rw [lookup_cons] at h
      split at h
      · rename_i hkey
        obtain rfl := Option.some.inj h
        rw [← hkey]
        exact List.mem_cons_self
      · exact List.mem_cons_of_mem _ (ih h)

theorem lookup_of_mem {key : Text} {value : Json} {map : List Member} (hdistinct : (keys map).Nodup)
    (h : (key, value) ∈ map) : lookup key map = some value := by
  induction map with
  | nil => cases h
  | cons member rest ih =>
      have hrest := List.nodup_cons.mp hdistinct
      rw [lookup_cons]
      rcases List.mem_cons.mp h with rfl | h
      · exact if_pos rfl
      · rw [if_neg, ih hrest.2 h]
        rintro rfl
        exact hrest.1 (List.mem_map.mpr ⟨_, h, rfl⟩)

theorem lookup_insert (key other : Text) (value : Json) (map : List Member) :
    lookup key (insert other value map) = if other = key then some value else lookup key map := by
  induction map with
  | nil => rw [insert, lookup_cons]
  | cons member rest ih =>
      rw [insert]
      split
      · rename_i hsame
        rw [lookup_cons, lookup_cons]
        by_cases h : other = key
        · simp [h]
        · rw [if_neg h, if_neg h, if_neg (fun hkey => h (hsame.trans hkey))]
      · split
        · rw [lookup_cons]
        · rename_i hne _
          rw [lookup_cons, lookup_cons, ih]
          by_cases h : member.1 = key
          · rw [if_pos h, if_neg (fun hother => hne (hother.trans h.symm)), if_pos h]
          · rw [if_neg h, if_neg h]

theorem insert_perm {key : Text} {map : List Member} (value : Json) (h : key ∉ keys map) :
    (insert key value map).Perm ((key, value) :: map) := by
  induction map with
  | nil => exact List.Perm.refl _
  | cons member rest ih =>
      simp only [keys, List.map_cons, List.mem_cons, not_or] at h
      rw [insert, if_neg h.1]
      split
      · exact List.Perm.refl _
      · exact ((ih h.2).cons member).trans (List.Perm.swap _ _ _)

theorem mem_keys_insert {key other : Text} {value : Json} {map : List Member} :
    key ∈ keys (insert other value map) ↔ key = other ∨ key ∈ keys map := by
  rw [← not_iff_not, ← lookup_eq_none, lookup_insert, not_or, ← lookup_eq_none]
  by_cases h : other = key
  · simp [h]
  · simp [h, Ne.symm h]

theorem sorted_insert {map : List Member} (key : Text) (value : Json) (h : Sorted map) :
    Sorted (insert key value map) := by
  induction map with
  | nil => exact List.pairwise_singleton _ _
  | cons member rest ih =>
      obtain ⟨hhead, hrest⟩ := List.pairwise_cons.mp h
      rw [insert]
      split
      · rename_i hsame
        exact List.pairwise_cons.mpr ⟨fun a ha => hsame ▸ hhead a ha, hrest⟩
      · split
        · rename_i hlt
          refine List.pairwise_cons.mpr ⟨fun a ha => ?_, h⟩
          rcases List.mem_cons.mp ha with rfl | ha
          · exact hlt
          · exact lt_trans (α := Text) hlt (hhead a ha)
        · rename_i hne hle
          refine List.pairwise_cons.mpr ⟨fun a ha => ?_, ih hrest⟩
          have hkey : a.1 ∈ keys (insert key value rest) := List.mem_map_of_mem (f := Prod.fst) ha
          rcases mem_keys_insert.mp hkey with hkey | hkey
          · rw [hkey]
            exact lt_of_le_of_ne (α := Text) (not_lt.mp hle) (Ne.symm hne)
          · obtain ⟨b, hb, hba⟩ := List.mem_map.mp hkey
            rw [← hba]
            exact hhead b hb

end Insert

section Lists

theorem foldl_insert_sorted (members map : List Member) (h : Sorted map) :
    Sorted (members.foldl (fun map member => insert member.1 member.2 map) map) := by
  induction members generalizing map with
  | nil => exact h
  | cons member rest ih => exact ih _ (sorted_insert _ _ h)

theorem sorted_ofList (members : List Member) : Sorted (ofList members) :=
  foldl_insert_sorted members [] List.Pairwise.nil

theorem foldl_insert_perm (members map : List Member) (h : (keys (members ++ map)).Nodup) :
    (members.foldl (fun map member => insert member.1 member.2 map) map).Perm (members ++ map) := by
  induction members generalizing map with
  | nil => exact List.Perm.refl _
  | cons member rest ih =>
      simp only [keys, List.cons_append, List.map_cons, List.nodup_cons, List.map_append,
        List.mem_append, not_or] at h
      have hperm := insert_perm member.2 h.1.2
      have hmiddle : (rest ++ insert member.1 member.2 map).Perm (member :: (rest ++ map)) :=
        (hperm.append_left rest).trans List.perm_middle
      refine (ih _ ?_).trans hmiddle
      rw [keys, (hmiddle.map Prod.fst).nodup_iff]
      rw [List.map_cons, List.nodup_cons, List.map_append, List.mem_append, not_or]
      exact h

theorem ofList_perm {members : List Member} (h : (keys members).Nodup) :
    (ofList members).Perm members := by
  simpa [ofList] using foldl_insert_perm members [] (by simpa using h)

theorem Sorted.nodup {map : List Member} (h : Sorted map) : (keys map).Nodup := by
  rw [keys, List.Nodup, List.pairwise_map]
  exact h.imp fun hlt => ne_of_lt (α := Text) hlt

-- Two maps of the same members are one.
theorem Sorted.ext {left right : List Member} (hleft : Sorted left) (hright : Sorted right)
    (h : left.Perm right) : left = right := by
  have hleft : left.Pairwise fun a b => a.1 < b.1 := hleft
  refine h.eq_of_pairwise ?_ hleft hright
  intro a b _ _ hab hba
  exact absurd (lt_trans (α := Text) hab hba) (lt_irrefl (α := Text) _)

theorem ofList_congr {left right : List Member} (hdistinct : (keys left).Nodup)
    (h : left.Perm right) : ofList left = ofList right := by
  have hother : (keys right).Nodup := (h.map Prod.fst).nodup_iff.mp hdistinct
  refine (sorted_ofList left).ext (sorted_ofList right) ?_
  exact (ofList_perm hdistinct).trans (h.trans (ofList_perm hother).symm)

theorem ofList_sorted {map : List Member} (h : Sorted map) : ofList map = map :=
  (sorted_ofList map).ext h (ofList_perm h.nodup)

theorem lookup_ofList {members : List Member} (h : (keys members).Nodup) (key : Text) :
    lookup key (ofList members) = lookup key members := by
  have hperm := ofList_perm h
  have hsorted := (sorted_ofList members).nodup
  cases hkey : lookup key members with
  | none =>
      rw [lookup_eq_none] at hkey ⊢
      rwa [keys, (hperm.map Prod.fst).mem_iff]
  | some value =>
      exact lookup_of_mem hsorted (hperm.mem_iff.mpr (mem_of_lookup hkey))

end Lists

end Mediaops.Json
