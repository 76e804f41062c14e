import Mathlib.Data.List.Nodup
import Mathlib.Data.List.Perm.Basic
import Mathlib.Tactic.Common

namespace Mediaops.Rows

-- The rows of a table under a partial unique index: `key` is what the index keeps
-- of a row, if it keeps the row at all.

section

variable {α κ : Type} (key : α → Option κ)

def Unique (rows : List α) : Prop := (rows.filterMap key).Nodup

theorem Unique.perm {key : α → Option κ} {rows rows' : List α} (h : Unique key rows)
    (hperm : rows.Perm rows') : Unique key rows' := (hperm.filterMap key).nodup_iff.mp h

end

variable {α κ : Type} [DecidableEq κ] (key : α → Option κ)

def admits (new : α) (others : List α) : Bool :=
  match key new with
  | none => true
  | some k => decide (k ∉ others.filterMap key)

def insert (new : α) (rows : List α) : Option (List α) :=
  if admits key new rows then some (rows ++ [new]) else none

-- The rows an update selects and what it makes of them. It goes from row to row,
-- and each new row is checked against all the others as they are by then.
def updateFrom (change : α → Option α) (done : List α) : List α → Option (List α)
  | [] => some done
  | row :: rest =>
      match change row with
      | none => updateFrom change (done ++ [row]) rest
      | some new =>
          if admits key new (done ++ rest) then updateFrom change (done ++ [new]) rest else none

def update (change : α → Option α) (rows : List α) : Option (List α) :=
  updateFrom key change [] rows

def selected (change : α → Option α) (rows : List α) : List α :=
  rows.filter fun row => (change row).isSome

def rewritten (change : α → Option α) (row : α) : α := (change row).getD row

variable {key}

theorem admits_iff {new : α} {others : List α} :
    admits key new others = true ↔ ∀ k, key new = some k → k ∉ others.filterMap key := by
  unfold admits
  cases key new <;> simp

theorem unique_cons {row : α} {others : List α} :
    Unique key (row :: others) ↔ admits key row others = true ∧ Unique key others := by
  rw [admits_iff]
  unfold Unique
  cases hkey : key row with
  | none => simp [hkey]
  | some k => simp [hkey]

theorem unique_middle {before after : List α} {row : α} :
    Unique key (before ++ row :: after) ↔
      admits key row (before ++ after) = true ∧ Unique key (before ++ after) := by
  rw [← unique_cons]
  exact ⟨fun h => h.perm List.perm_middle, fun h => h.perm List.perm_middle.symm⟩

theorem eq_of_key {rows : List α} (h : Unique key rows) {a b : α} {k : κ} (ha : a ∈ rows)
    (hb : b ∈ rows) (hka : key a = some k) (hkb : key b = some k) : a = b := by
  obtain ⟨before, after, rfl⟩ := List.append_of_mem ha
  obtain ⟨hadmits, -⟩ := unique_middle.mp h
  have hother : ∀ c ∈ before ++ after, key c ≠ some k := by
    intro c hc hkc
    exact admits_iff.mp hadmits k hka (List.mem_filterMap.mpr ⟨c, hc, hkc⟩)
  rcases List.mem_append.mp hb with hb | hb
  · exact absurd hkb (hother b (List.mem_append_left _ hb))
  · rcases List.mem_cons.mp hb with rfl | hb
    · rfl
    · exact absurd hkb (hother b (List.mem_append_right _ hb))

theorem insert_some {new : α} {rows rows' : List α} (h : insert key new rows = some rows') :
    rows' = rows ++ [new] ∧ (Unique key rows → Unique key rows') := by
  unfold insert at h
  by_cases hadmits : admits key new rows = true
  · rw [if_pos hadmits] at h
    cases h
    refine ⟨rfl, fun hunique => unique_middle.mpr ?_⟩
    rw [List.append_nil]
    exact ⟨hadmits, hunique⟩
  · rw [if_neg hadmits] at h
    cases h

-- An update that goes through changes the selected rows and keeps the index. The
-- induction is on the rows still to come, over any rows already visited.
theorem updateFrom_some {change : α → Option α} {rest : List α} :
    ∀ {done rows' : List α}, updateFrom key change done rest = some rows' →
      rows' = done ++ rest.map (rewritten change) ∧
        (Unique key (done ++ rest) → Unique key rows') := by
  induction rest with
  | nil =>
      intro done rows' h
      cases h
      simp
  | cons row rest ih =>
      intro done rows' h
      unfold updateFrom at h
      cases hchange : change row with
      | none =>
          rw [hchange] at h
          obtain ⟨hrows, hunique⟩ := ih h
          rw [List.append_assoc, List.singleton_append] at hrows hunique
          refine ⟨?_, hunique⟩
          rw [hrows, List.map_cons, rewritten, hchange]
          rfl
      | some new =>
          rw [hchange] at h
          by_cases hadmits : admits key new (done ++ rest) = true
          · simp only [if_pos hadmits] at h
            obtain ⟨hrows, hunique⟩ := ih h
            rw [List.append_assoc, List.singleton_append] at hrows hunique
            refine ⟨?_, fun hall => hunique (unique_middle.mpr ⟨hadmits, ?_⟩)⟩
            · rw [hrows, List.map_cons, rewritten, hchange]
              rfl
            · exact (unique_middle.mp hall).2
          · simp only [if_neg hadmits] at h
            cases h

theorem update_some {change : α → Option α} {rows rows' : List α}
    (h : update key change rows = some rows') :
    rows' = rows.map (rewritten change) ∧ (Unique key rows → Unique key rows') := by
  simpa using updateFrom_some h

-- An update of no row always goes through.
theorem updateFrom_none {change : α → Option α} {rest : List α}
    (h : ∀ row ∈ rest, change row = none) :
    ∀ done, updateFrom key change done rest = some (done ++ rest) := by
  induction rest with
  | nil => simp [updateFrom]
  | cons row rest ih =>
      intro done
      unfold updateFrom
      rw [h row List.mem_cons_self]
      dsimp only
      rw [ih fun other hother => h other (List.mem_cons_of_mem _ hother), List.append_assoc,
        List.singleton_append]

theorem update_none {change : α → Option α} {rows : List α}
    (h : ∀ row ∈ rows, change row = none) : update key change rows = some rows :=
  updateFrom_none h []

-- An update that selects one row goes through if and only if the other rows let
-- the new one in.
theorem updateFrom_one {change : α → Option α} {row new : α} {after : List α}
    (hrow : change row = some new) (hafter : ∀ other ∈ after, change other = none) :
    ∀ {before done : List α}, (∀ other ∈ before, change other = none) →
      updateFrom key change done (before ++ row :: after) =
        if admits key new (done ++ before ++ after) then some (done ++ before ++ new :: after)
        else none := by
  intro before
  induction before with
  | nil =>
      intro done _
      simp only [List.nil_append, List.append_nil, updateFrom, hrow, updateFrom_none hafter,
        List.append_assoc, List.singleton_append]
  | cons other before ih =>
      intro done hbefore
      rw [List.cons_append, updateFrom, hbefore other List.mem_cons_self]
      dsimp only
      rw [ih fun o ho => hbefore o (List.mem_cons_of_mem _ ho)]
      simp only [List.append_assoc, List.singleton_append]

theorem update_one {change : α → Option α} {before after : List α} {row new : α}
    (hrow : change row = some new) (hothers : ∀ other ∈ before ++ after, change other = none) :
    update key change (before ++ row :: after) =
      if admits key new (before ++ after) then some (before ++ new :: after) else none := by
  have hbefore : ∀ other ∈ before, change other = none :=
    fun other h => hothers other (List.mem_append_left _ h)
  have hafter : ∀ other ∈ after, change other = none :=
    fun other h => hothers other (List.mem_append_right _ h)
  rw [update, updateFrom_one hrow hafter hbefore, List.nil_append]

-- The one row that an update with a single row selects.
theorem selected_one {change : α → Option α} {rows : List α}
    (h : (selected change rows).length = 1) :
    ∃ before row after new, rows = before ++ row :: after ∧ change row = some new ∧
      ∀ other ∈ before ++ after, change other = none := by
  obtain ⟨row, hone⟩ := List.length_eq_one_iff.mp h
  obtain ⟨before, after, rfl, hbefore, hrow, hafter⟩ := List.filter_eq_cons_iff.mp hone
  obtain ⟨new, hnew⟩ := Option.isSome_iff_exists.mp hrow
  refine ⟨before, row, after, new, rfl, hnew, fun other hother => ?_⟩
  rcases List.mem_append.mp hother with hother | hother
  · simpa using hbefore other hother
  · simpa using List.filter_eq_nil_iff.mp hafter other hother

-- Rows that an update gives one and the same key are at most one.
theorem selected_le_one {change : α → Option α} {rows rows' : List α} {k : κ}
    (h : update key change rows = some rows') (hunique : Unique key rows)
    (hkey : ∀ row new, change row = some new → key new = some k) :
    (selected change rows).length ≤ 1 := by
  obtain ⟨rfl, hkept⟩ := update_some h
  have hcount : ((rows.map (rewritten change)).filterMap key).count k ≤ 1 :=
    List.nodup_iff_count_le_one.mp (hkept hunique) k
  refine Nat.le_trans ?_ hcount
  rw [selected, ← List.countP_eq_length_filter, List.count_eq_countP, List.countP_filterMap,
    List.countP_map]
  refine List.countP_mono_left fun row _ hrow => ?_
  obtain ⟨new, hnew⟩ := Option.isSome_iff_exists.mp hrow
  simp [rewritten, hnew, hkey row new hnew]

end Mediaops.Rows
