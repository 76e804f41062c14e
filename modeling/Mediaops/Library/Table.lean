import Mathlib.Data.List.Nodup
import Mathlib.Data.List.Perm.Basic
import Mathlib.Tactic.Common

namespace Mediaops.Table

-- A keyed table is the list of its rows. No two rows of a well-formed table
-- have one key.

section Keys

variable {κ α : Type} (key : α → κ)

def Keyed (rows : List α) : Prop := (rows.map key).Nodup

variable {key}

theorem eq_of_key_eq {rows : List α} (hk : Keyed key rows) {a b : α} (ha : a ∈ rows)
    (hb : b ∈ rows) (h : key a = key b) : a = b :=
  List.inj_on_of_nodup_map hk ha hb h

theorem Keyed.perm {rows rows' : List α} (hk : Keyed key rows) (hp : rows.Perm rows') :
    Keyed key rows' := (hp.map key).nodup_iff.mp hk

end Keys

variable {κ α : Type} [DecidableEq κ] (key : α → κ)

def lookup (k : κ) (rows : List α) : Option α := rows.find? fun row => key row = k

-- Replace the row with the new row's key, or append the new row.
def upsert (new : α) : List α → List α
  | [] => [new]
  | row :: rows => if key row = key new then new :: rows else row :: upsert new rows

def erase (k : κ) (rows : List α) : List α := rows.filter fun row => key row ≠ k

variable {key}

@[simp] theorem lookup_nil (k : κ) : lookup key k [] = none := rfl

theorem lookup_cons (k : κ) (row : α) (rows : List α) :
    lookup key k (row :: rows) = if key row = k then some row else lookup key k rows := by
  unfold lookup
  by_cases h : key row = k
  · rw [List.find?_cons_of_pos (by simpa using h), if_pos h]
  · rw [List.find?_cons_of_neg (by simpa using h), if_neg h]

@[simp] theorem upsert_nil (new : α) : upsert key new [] = [new] := rfl

theorem upsert_cons (new row : α) (rows : List α) :
    upsert key new (row :: rows) =
      if key row = key new then new :: rows else row :: upsert key new rows := rfl

theorem lookup_some {rows : List α} {k : κ} {a : α} (h : lookup key k rows = some a) :
    a ∈ rows ∧ key a = k :=
  ⟨List.mem_of_find?_eq_some h, by simpa using List.find?_some h⟩

theorem lookup_none {rows : List α} {k : κ} (h : lookup key k rows = none) {a : α}
    (ha : a ∈ rows) : key a ≠ k := by
  have hn := List.find?_eq_none.mp h a ha
  simpa using hn

theorem lookup_of_mem {rows : List α} (hk : Keyed key rows) {a : α} (ha : a ∈ rows) :
    lookup key (key a) rows = some a := by
  cases h : lookup key (key a) rows with
  | none => exact absurd rfl (lookup_none h ha)
  | some b =>
      obtain ⟨hb, hab⟩ := lookup_some h
      rw [eq_of_key_eq hk hb ha hab]

theorem map_key_upsert (new : α) (rows : List α) :
    (upsert key new rows).map key =
      if key new ∈ rows.map key then rows.map key else rows.map key ++ [key new] := by
  induction rows with
  | nil => simp
  | cons row rows ih =>
      by_cases h : key row = key new
      · simp [upsert_cons, h]
      · have hne : key new ≠ key row := fun e => h e.symm
        simp only [upsert_cons, if_neg h, List.map_cons, ih, List.mem_cons, hne, false_or]
        split <;> rfl

theorem Keyed.upsert {rows : List α} (hk : Keyed key rows) (new : α) :
    Keyed key (upsert key new rows) := by
  unfold Keyed at hk ⊢
  rw [map_key_upsert]
  split
  · exact hk
  · next hn => exact List.Nodup.append hk (List.nodup_singleton _) (by simpa using hn)

theorem Keyed.erase {rows : List α} (hk : Keyed key rows) (k : κ) : Keyed key (erase key k rows) :=
  List.Nodup.sublist (List.Sublist.map key List.filter_sublist) hk

theorem mem_upsert_self (new : α) (rows : List α) : new ∈ upsert key new rows := by
  induction rows with
  | nil => simp
  | cons row rows ih =>
      rw [upsert_cons]
      split
      · exact List.mem_cons_self
      · exact List.mem_cons_of_mem _ ih

theorem mem_of_mem_upsert {rows : List α} {new a : α} (h : a ∈ upsert key new rows) :
    a = new ∨ a ∈ rows := by
  induction rows with
  | nil => exact .inl (List.mem_singleton.mp h)
  | cons row rows ih =>
      rw [upsert_cons] at h
      split_ifs at h with hkey
      · exact (List.mem_cons.mp h).imp id (List.mem_cons_of_mem _)
      · rcases List.mem_cons.mp h with rfl | h
        · exact .inr List.mem_cons_self
        · exact (ih h).imp id (List.mem_cons_of_mem _)

-- With distinct keys an upsert replaces exactly the row with its key.
theorem mem_upsert {rows : List α} (hk : Keyed key rows) {new a : α} :
    a ∈ upsert key new rows ↔ a = new ∨ (a ∈ rows ∧ key a ≠ key new) := by
  induction rows with
  | nil => simp
  | cons row rows ih =>
      have hnd := List.nodup_cons.mp hk
      have ih := ih hnd.2
      by_cases h : key row = key new
      · have hout : ∀ b ∈ rows, key b ≠ key new := by
          intro b hb e
          exact hnd.1 (List.mem_map.mpr ⟨b, hb, e.trans h.symm⟩)
        simp only [upsert_cons, if_pos h, List.mem_cons]
        constructor
        · rintro (rfl | hb)
          · exact .inl rfl
          · exact .inr ⟨.inr hb, hout a hb⟩
        · rintro (rfl | ⟨rfl | hb, hne⟩)
          · exact .inl rfl
          · exact absurd h hne
          · exact .inr hb
      · simp only [upsert_cons, if_neg h, List.mem_cons, ih]
        constructor
        · rintro (rfl | rfl | ⟨hb, hne⟩)
          · exact .inr ⟨.inl rfl, h⟩
          · exact .inl rfl
          · exact .inr ⟨.inr hb, hne⟩
        · rintro (rfl | ⟨rfl | hb, hne⟩)
          · exact .inr (.inl rfl)
          · exact .inl rfl
          · exact .inr (.inr ⟨hb, hne⟩)

theorem lookup_upsert_self (new : α) (rows : List α) :
    lookup key (key new) (upsert key new rows) = some new := by
  induction rows with
  | nil => simp [lookup_cons]
  | cons row rows ih =>
      by_cases h : key row = key new
      · simp [upsert_cons, lookup_cons, h]
      · rw [upsert_cons, if_neg h, lookup_cons, if_neg h, ih]

theorem lookup_upsert_of_ne {k : κ} {new : α} (hne : key new ≠ k) (rows : List α) :
    lookup key k (upsert key new rows) = lookup key k rows := by
  induction rows with
  | nil => simp [lookup_cons, hne]
  | cons row rows ih =>
      by_cases h : key row = key new
      · have hrow : key row ≠ k := fun e => hne (h.symm.trans e)
        rw [upsert_cons, if_pos h, lookup_cons, lookup_cons, if_neg hne, if_neg hrow]
      · rw [upsert_cons, if_neg h, lookup_cons, lookup_cons, ih]

theorem lookup_erase_self (k : κ) (rows : List α) : lookup key k (erase key k rows) = none := by
  rw [lookup, List.find?_eq_none]
  intro a ha
  simpa using (List.mem_filter.mp ha).2

theorem lookup_erase_of_ne {k k' : κ} (hne : k' ≠ k) (rows : List α) :
    lookup key k (erase key k' rows) = lookup key k rows := by
  induction rows with
  | nil => rfl
  | cons row rows ih =>
      simp only [erase, lookup] at ih ⊢
      by_cases h : key row = k'
      · have hrow : key row ≠ k := fun e => hne (h.symm.trans e)
        rw [List.filter_cons_of_neg (by simpa using h), List.find?_cons_of_neg (by simpa using hrow),
          ih]
      · rw [List.filter_cons_of_pos (by simpa using h), List.find?_cons, List.find?_cons, ih]

theorem mem_erase {rows : List α} {k : κ} {a : α} :
    a ∈ erase key k rows ↔ a ∈ rows ∧ key a ≠ k := by
  simp [erase]

-- The order in which rows are kept does not matter.
theorem perm_upsert {rows rows' : List α} (hp : rows.Perm rows') (hk : Keyed key rows) (new : α) :
    (upsert key new rows).Perm (upsert key new rows') := by
  have hk' := hk.perm hp
  rw [List.perm_ext_iff_of_nodup (List.Nodup.of_map _ (hk.upsert new))
    (List.Nodup.of_map _ (hk'.upsert new))]
  intro a
  rw [mem_upsert hk, mem_upsert hk', hp.mem_iff]

theorem perm_erase {rows rows' : List α} (hp : rows.Perm rows') (k : κ) :
    (erase key k rows).Perm (erase key k rows') := hp.filter _

-- Keeping part of a table by a test on keys commutes with every update of a
-- row the test keeps, and forgets every update of a row it does not keep.
theorem filter_upsert (keep : α → Bool) (hkeep : ∀ a b, key a = key b → keep a = keep b)
    (new : α) (rows : List α) :
    (upsert key new rows).filter keep =
      if keep new then upsert key new (rows.filter keep) else rows.filter keep := by
  induction rows with
  | nil => by_cases h : keep new <;> simp [h]
  | cons row rows ih =>
      by_cases h : key row = key new
      · have hb := hkeep row new h
        by_cases hn : keep new <;> simp [upsert_cons, h, hb, hn]
      · by_cases hr : keep row <;> by_cases hn : keep new <;>
          simp [upsert_cons, h, hr, hn, ih]

theorem filter_erase (keep : α → Bool) (k : κ) (rows : List α) :
    (erase key k rows).filter keep = erase key k (rows.filter keep) := by
  simp only [erase, List.filter_filter, Bool.and_comm]

theorem erase_eq_self {rows : List α} {k : κ} (h : ∀ a ∈ rows, key a ≠ k) :
    erase key k rows = rows :=
  List.filter_eq_self.mpr fun a ha => by simpa using h a ha

-- A table apart from one of its rows, before and after that row is replaced.
theorem perm_cons_erase {rows : List α} (hk : Keyed key rows) {a : α} (ha : a ∈ rows) :
    rows.Perm (a :: erase key (key a) rows) := by
  have hrest : (a :: erase key (key a) rows).Nodup := by
    refine List.nodup_cons.mpr ⟨fun hmem => (mem_erase.mp hmem).2 rfl, ?_⟩
    exact List.Nodup.of_map _ (hk.erase (key a))
  refine (List.perm_ext_iff_of_nodup (List.Nodup.of_map _ hk) hrest).mpr fun b => ?_
  rw [List.mem_cons, mem_erase]
  constructor
  · intro hb
    by_cases hab : key b = key a
    · exact .inl (eq_of_key_eq hk hb ha hab)
    · exact .inr ⟨hb, hab⟩
  · rintro (rfl | ⟨hb, -⟩)
    · exact ha
    · exact hb

theorem perm_upsert_cons {rows : List α} (hk : Keyed key rows) (new : α) :
    (upsert key new rows).Perm (new :: erase key (key new) rows) := by
  refine (perm_cons_erase (hk.upsert new) (mem_upsert_self new rows)).trans (.cons new ?_)
  refine (List.perm_ext_iff_of_nodup (List.Nodup.of_map _ ((hk.upsert new).erase _))
    (List.Nodup.of_map _ (hk.erase _))).mpr fun b => ?_
  rw [mem_erase, mem_erase, mem_upsert hk]
  constructor
  · rintro ⟨rfl | ⟨hb, hne⟩, hne'⟩
    · exact absurd rfl hne'
    · exact ⟨hb, hne⟩
  · rintro ⟨hb, hne⟩
    exact ⟨.inr ⟨hb, hne⟩, hne⟩

end Mediaops.Table
