import Mathlib.Data.List.Sort
import Mathlib.Order.Basic
import Mediaops.Library.Table

namespace Mediaops.Journal

-- A journal records every change of a keyed table under consecutive revisions,
-- keeps only its newest part and serves it in pages.

section Changes

variable {κ α : Type} [DecidableEq κ] (key : α → κ)

inductive Change (α : Type) where
  | Put (row : α)
  | Remove (row : α)

def Change.row : Change α → α
  | Put row | Remove row => row

def applyChange (rows : List α) : Change α → List α
  | .Put row => Table.upsert key row rows
  | .Remove row => Table.erase key (key row) rows

def replay (rows : List α) (changes : List (Change α)) : List α :=
  changes.foldl (applyChange key) rows

variable {key}

theorem keyed_applyChange {rows : List α} (hk : Table.Keyed key rows) (change : Change α) :
    Table.Keyed key (applyChange key rows change) := by
  cases change with
  | Put row => exact hk.upsert row
  | Remove row => exact hk.erase (key row)

theorem keyed_replay {rows : List α} (hk : Table.Keyed key rows) (changes : List (Change α)) :
    Table.Keyed key (replay key rows changes) := by
  induction changes generalizing rows with
  | nil => exact hk
  | cons change changes ih => exact ih (keyed_applyChange hk change)

theorem replay_append (rows : List α) (xs ys : List (Change α)) :
    replay key rows (xs ++ ys) = replay key (replay key rows xs) ys := List.foldl_append

theorem perm_replay {rows rows' : List α} (hp : rows.Perm rows') (hk : Table.Keyed key rows)
    (changes : List (Change α)) :
    (replay key rows changes).Perm (replay key rows' changes) := by
  induction changes generalizing rows rows' with
  | nil => exact hp
  | cons change changes ih =>
      refine ih ?_ (keyed_applyChange hk change)
      cases change with
      | Put row => exact Table.perm_upsert hp hk row
      | Remove row => exact Table.perm_erase hp (key row)

-- A reader that keeps part of the keys may drop the changes of all others.
theorem filter_replay (keep : α → Bool) (hkeep : ∀ a b, key a = key b → keep a = keep b)
    (rows : List α) (changes : List (Change α)) :
    (replay key rows changes).filter keep =
      replay key (rows.filter keep) (changes.filter fun change => keep change.row) := by
  induction changes generalizing rows with
  | nil => rfl
  | cons change changes ih =>
      have hstep : (replay key rows (change :: changes)).filter keep =
          replay key ((applyChange key rows change).filter keep)
            (changes.filter fun change => keep change.row) := ih _
      rw [hstep]
      cases change with
      | Put row =>
          by_cases h : keep row
          · simp [applyChange, Change.row, Table.filter_upsert keep hkeep, h, replay]
          · simp [applyChange, Change.row, Table.filter_upsert keep hkeep, h]
      | Remove row =>
          by_cases h : keep row
          · simp [applyChange, Change.row, Table.filter_erase, h, replay]
          · have hout : ∀ a ∈ rows.filter keep, key a ≠ key row := by
              intro a ha e
              exact h ((hkeep a row e) ▸ (List.mem_filter.mp ha).2)
            simp [applyChange, Change.row, Table.filter_erase, h, Table.erase_eq_self hout]

end Changes

section Numbered

variable {β : Type} (revision : β → Int)

-- The revisions are `base + 1`, `base + 2` and so on, with no gap.
def NumberedFrom (base : Int) : List β → Prop
  | [] => True
  | event :: events => revision event = base + 1 ∧ NumberedFrom (base + 1) events

variable {revision}

theorem numberedFrom_append {base : Int} {xs ys : List β} :
    NumberedFrom revision base (xs ++ ys) ↔
      NumberedFrom revision base xs ∧ NumberedFrom revision (base + xs.length) ys := by
  induction xs generalizing base with
  | nil => simp [NumberedFrom]
  | cons x xs ih =>
      have hlen : base + 1 + (xs.length : Int) = base + ((x :: xs).length : Int) := by
        simp only [List.length_cons]; omega
      simp only [List.cons_append, NumberedFrom, ih, hlen, and_assoc]

theorem NumberedFrom.bounds {base : Int} {events : List β}
    (h : NumberedFrom revision base events) {event : β} (he : event ∈ events) :
    base < revision event ∧ revision event ≤ base + events.length := by
  induction events generalizing base with
  | nil => cases he
  | cons first events ih =>
      simp only [List.length_cons]
      rcases List.mem_cons.mp he with rfl | he
      · have := h.1; omega
      · have := ih h.2 he; omega

theorem NumberedFrom.pairwise {base : Int} {events : List β}
    (h : NumberedFrom revision base events) :
    events.Pairwise fun a b => revision a < revision b := by
  induction events generalizing base with
  | nil => exact List.Pairwise.nil
  | cons first events ih =>
      refine List.pairwise_cons.mpr ⟨fun event he => ?_, ih h.2⟩
      have := h.1
      have := (h.2.bounds he).1
      omega

theorem NumberedFrom.drop {base : Int} {events : List β} (h : NumberedFrom revision base events)
    {n : Nat} (hn : n ≤ events.length) : NumberedFrom revision (base + n) (events.drop n) := by
  rw [← List.take_append_drop n events, numberedFrom_append] at h
  simpa [List.length_take, Nat.min_eq_left hn] using h.2

-- What lies after a revision is a suffix.
theorem NumberedFrom.filter_eq_drop {base : Int} {events : List β}
    (h : NumberedFrom revision base events) (n : Nat) :
    events.filter (fun event => base + n < revision event) = events.drop n := by
  induction events generalizing base n with
  | nil => simp
  | cons first events ih =>
      have hrev := h.1
      cases n with
      | zero =>
          rw [List.drop_zero, List.filter_eq_self]
          intro event he
          simpa using (h.bounds he).1
      | succ n =>
          have hout : ¬(base + ((n + 1 : Nat) : Int) < revision first) := by omega
          have hih := ih h.2 n
          have hshift : base + ((n + 1 : Nat) : Int) = base + 1 + (n : Int) := by omega
          rw [List.filter_cons_of_neg (by simpa using hout), List.drop_succ_cons, hshift, hih]

theorem NumberedFrom.getLast {base : Int} {events : List β}
    (h : NumberedFrom revision base events) (hne : events ≠ []) :
    revision (events.getLast hne) = base + events.length := by
  induction events generalizing base with
  | nil => exact absurd rfl hne
  | cons first events ih =>
      cases events with
      | nil => simpa using h.1
      | cons second events =>
          rw [List.getLast_cons (List.cons_ne_nil _ _), ih h.2]
          simp only [List.length_cons]
          omega

end Numbered

section Paging

variable {β ε : Type} (revision : β → Int)

-- The oldest `limit` events after a revision, oldest first.
def page (limit : Nat) (history : List β) (after : Int) : List β :=
  ((history.filter fun event => after < revision event).insertionSort
    fun a b => revision a ≤ revision b).take limit

-- Fetch pages from a cursor until one is empty, within a number of calls.
def drain (fetch : Int → Except ε (List β)) : Nat → Int → Option (Except ε (List β))
  | 0, _ => none
  | calls + 1, after =>
      match fetch after with
      | .error e => some (.error e)
      | .ok [] => some (.ok [])
      | .ok (event :: events) =>
          let last := (event :: events).getLast (List.cons_ne_nil _ _)
          (drain fetch calls (revision last)).map
            fun rest => rest.map fun later => event :: events ++ later

variable {revision}

theorem page_numbered {base : Int} {history : List β}
    (h : NumberedFrom revision base history) (limit n : Nat) :
    page revision limit history (base + n) = (history.drop n).take limit := by
  have hsorted : ((history.drop n).Pairwise fun a b => revision a ≤ revision b) :=
    (h.pairwise.sublist (List.drop_sublist n history)).imp fun hab => le_of_lt hab
  rw [page, h.filter_eq_drop, hsorted.insertionSort_eq]

-- Draining a numbered history returns exactly what lies after the cursor.
theorem drain_numbered {base : Int} {history : List β}
    (h : NumberedFrom revision base history) {limit : Nat} (hlimit : 0 < limit)
    {fetch : Int → Except ε (List β)}
    (hfetch : ∀ n : Nat, fetch (base + n) = .ok (page revision limit history (base + n)))
    (calls n : Nat) (hn : n ≤ history.length) (hcalls : history.length - n < calls) :
    drain revision fetch calls (base + n) = some (.ok (history.drop n)) := by
  induction calls generalizing n with
  | zero => omega
  | succ calls ih =>
      have hpage := (hfetch n).trans (congrArg Except.ok (page_numbered h limit n))
      by_cases hend : n = history.length
      · subst hend
        rw [List.drop_length, List.take_nil] at hpage
        simp [drain, hpage]
      · have hlt : n < history.length := by omega
        set got := (history.drop n).take limit with hgot
        have hlen : got.length = min limit (history.length - n) := by simp [hgot]
        have hpos : 0 < got.length := by omega
        have hnumbered : NumberedFrom revision (base + n) got := by
          have hd := h.drop hn
          rw [← List.take_append_drop limit (history.drop n), numberedFrom_append] at hd
          exact hd.1
        have hrest := ih (n + got.length) (by omega) (by omega)
        have hsplit : got ++ history.drop (n + got.length) = history.drop n := by
          have hcut : (history.drop n).drop got.length = (history.drop n).drop limit := by
            by_cases hl : limit ≤ history.length - n
            · rw [hlen, Nat.min_eq_left hl]
            · rw [List.drop_of_length_le (by simp; omega), List.drop_of_length_le (by simp; omega)]
          rw [← List.drop_drop, hcut, hgot, List.take_append_drop]
        obtain ⟨first, rest, hcons⟩ := List.exists_cons_of_length_pos hpos
        rw [hcons] at hpage
        have hlast : revision ((first :: rest).getLast (List.cons_ne_nil _ _)) =
            base + ((n + got.length : Nat) : Int) := by
          rw [hcons] at hnumbered
          rw [hnumbered.getLast (List.cons_ne_nil _ _), hcons]
          omega
        simp only [drain, hpage, hlast, hrest, Option.map_some, Except.map]
        rw [← hcons, hsplit]

end Paging

end Mediaops.Journal
