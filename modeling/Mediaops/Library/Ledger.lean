import Mathlib.Data.List.Forall2
import Mathlib.Logic.Relation
import Mathlib.Tactic.Common

namespace Mediaops.Ledger

-- Rows that stay where they are, change by the steps of a relation, and are only ever
-- added to.

open Relation

variable {α β : Type} {R : α → α → Prop}

def Grows (R : α → α → Prop) (rows rows' : List α) : Prop :=
  ∃ moved added, rows' = moved ++ added ∧ List.Forall₂ (ReflTransGen R) rows moved

theorem grows_refl (rows : List α) : Grows R rows rows :=
  ⟨rows, [], (List.append_nil _).symm, List.forall₂_same.mpr fun _ _ => .refl⟩

theorem grows_add (rows added : List α) : Grows R rows (rows ++ added) :=
  ⟨rows, added, rfl, List.forall₂_same.mpr fun _ _ => .refl⟩

theorem grows_step {before after : List α} {row row' : α} (h : R row row') :
    Grows R (before ++ row :: after) (before ++ row' :: after) := by
  refine ⟨before ++ row' :: after, [], (List.append_nil _).symm, ?_⟩
  refine List.rel_append (List.forall₂_same.mpr fun _ _ => .refl) (.cons (.single h) ?_)
  exact List.forall₂_same.mpr fun _ _ => .refl

-- The induction is on the rows there were at first.
theorem forall₂_trans {rows moved again : List α} (h : List.Forall₂ (ReflTransGen R) rows moved)
    (h' : List.Forall₂ (ReflTransGen R) moved again) : List.Forall₂ (ReflTransGen R) rows again := by
  induction h generalizing again with
  | nil => exact h'
  | cons hrow _ ih =>
      cases h' with
      | cons hrow' hrest' => exact .cons (hrow.trans hrow') (ih hrest')

theorem Grows.trans {rows rows' rows'' : List α} (h : Grows R rows rows')
    (h' : Grows R rows' rows'') : Grows R rows rows'' := by
  obtain ⟨moved, added, rfl, hmoved⟩ := h
  obtain ⟨again, more, rfl, hagain⟩ := h'
  have hlength := hagain.length_eq
  rw [List.length_append] at hlength
  obtain ⟨front, back, rfl, hfront⟩ : ∃ front back, again = front ++ back ∧
      front.length = moved.length :=
    ⟨again.take moved.length, again.drop moved.length, (List.take_append_drop _ _).symm,
      by rw [List.length_take]; omega⟩
  refine ⟨front, back ++ more, List.append_assoc _ _ _, forall₂_trans hmoved ?_⟩
  have htake := List.forall₂_take moved.length hagain
  rwa [List.take_left, List.take_left' hfront] at htake

-- Each row there was is still there, where it was.
theorem Grows.at {rows rows' : List α} (h : Grows R rows rows') {n : Nat} {row : α}
    (hrow : rows[n]? = some row) : ∃ row', rows'[n]? = some row' ∧ ReflTransGen R row row' := by
  obtain ⟨moved, added, rfl, hmoved⟩ := h
  induction hmoved generalizing n with
  | nil => cases hrow
  | cons hfirst _ ih =>
      cases n with
      | zero =>
          cases hrow
          exact ⟨_, rfl, hfirst⟩
      | succ n => exact ih hrow

theorem kept_reach (f : α → β) (hf : ∀ a b, R a b → f b = f a) {a b : α} (h : ReflTransGen R a b) :
    f b = f a := by
  induction h with
  | refl => rfl
  | tail _ hlast ih => exact (hf _ _ hlast).trans ih

-- A row that no step leaves is as it was.
theorem still_reach {a b : α} (hstill : ∀ c, ¬R a c) (h : ReflTransGen R a b) : b = a := by
  induction h with
  | refl => rfl
  | tail _ hlast ih =>
      subst ih
      exact absurd hlast (hstill _)

theorem rank_reach (rank : α → Nat) (hrank : ∀ a b, R a b → rank a < rank b) {a b : α}
    (h : ReflTransGen R a b) : b = a ∨ rank a < rank b := by
  induction h with
  | refl => exact .inl rfl
  | tail _ hlast ih =>
      have hlt := hrank _ _ hlast
      rcases ih with rfl | ih
      · exact .inr hlt
      · exact .inr (Nat.lt_trans ih hlt)

end Mediaops.Ledger
