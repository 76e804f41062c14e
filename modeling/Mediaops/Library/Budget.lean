import Mathlib.Algebra.GroupWithZero.Nat
import Mathlib.Algebra.Order.BigOperators.Group.List
import Mathlib.Algebra.Order.Group.Nat
import Mathlib.Data.List.Perm.Basic
import Mathlib.Tactic.Common

namespace Mediaops.Budget

-- Shares of a common budget, newest first. Each share has a cost and a limit of
-- its own; it was admitted when the shares below it and its own cost were within
-- that limit. A limit of zero is none.

variable {α : Type} (cost limit : α → Nat)

def total (shares : List α) : Nat := (shares.map cost).sum

def Within : List α → Prop
  | [] => True
  | share :: rest =>
      (0 < limit share → cost share + total cost rest ≤ limit share) ∧ Within rest

variable {cost limit}

theorem total_cons (share : α) (rest : List α) :
    total cost (share :: rest) = cost share + total cost rest := by
  simp [total]

theorem total_perm {shares shares' : List α} (h : shares.Perm shares') :
    total cost shares = total cost shares' := (h.map cost).sum_eq

theorem total_sublist {shares shares' : List α} (h : shares.Sublist shares') :
    total cost shares ≤ total cost shares' := (h.map cost).sum_le_sum fun _ _ => Nat.zero_le _

theorem total_le_total {cost' : α → Nat} {shares : List α}
    (h : ∀ share ∈ shares, cost share ≤ cost' share) : total cost shares ≤ total cost' shares := by
  induction shares with
  | nil => exact le_refl _
  | cons share rest ih =>
      have hshare := h share List.mem_cons_self
      have hrest := ih fun other hother => h other (List.mem_cons_of_mem _ hother)
      rw [total_cons, total_cons]
      omega

-- A share that is given back leaves the others within their limits.
theorem Within.sublist {shares shares' : List α} (h : Within cost limit shares)
    (hsub : shares'.Sublist shares) : Within cost limit shares' := by
  induction hsub with
  | slnil => exact h
  | cons share _ ih => exact ih h.2
  | @cons_cons rest' rest share hsub ih =>
      refine ⟨fun hpos => ?_, ih h.2⟩
      exact le_trans (Nat.add_le_add_left (total_sublist hsub) _) (h.1 hpos)

-- Under one limit for all, the newest share bounds the total.
theorem Within.total_le {shares : List α} (h : Within cost limit shares) {bound : Nat}
    (hpos : 0 < bound) (hlimit : ∀ share ∈ shares, limit share = bound) :
    total cost shares ≤ bound := by
  cases shares with
  | nil => exact Nat.zero_le _
  | cons share rest =>
      have hshare := hlimit share List.mem_cons_self
      have hhead := h.1 (by omega)
      rw [total_cons]
      omega

-- A set of shares admitted in some order.
def Admitted (cost limit : α → Nat) (held : List α) : Prop :=
  ∃ shares, shares.Perm held ∧ Within cost limit shares

theorem Admitted.perm {held held' : List α} (h : Admitted cost limit held)
    (hp : held.Perm held') : Admitted cost limit held' := by
  obtain ⟨shares, hshares, hwithin⟩ := h
  exact ⟨shares, hshares.trans hp, hwithin⟩

theorem Admitted.grant {held : List α} (h : Admitted cost limit held) {share : α}
    (hfits : 0 < limit share → cost share + total cost held ≤ limit share) :
    Admitted cost limit (share :: held) := by
  obtain ⟨shares, hshares, hwithin⟩ := h
  refine ⟨share :: shares, hshares.cons share, fun hpos => ?_, hwithin⟩
  rw [total_perm hshares]
  exact hfits hpos

theorem Admitted.release [DecidableEq α] {held : List α} {share : α} (h : Admitted cost limit (share :: held)) :
    Admitted cost limit held := by
  obtain ⟨shares, hshares, hwithin⟩ := h
  have herase := hshares.erase share
  rw [List.erase_cons_head] at herase
  exact ⟨shares.erase share, herase, hwithin.sublist List.erase_sublist⟩

theorem Admitted.total_le {held : List α} (h : Admitted cost limit held) {bound : Nat}
    (hpos : 0 < bound) (hlimit : ∀ share ∈ held, limit share = bound) :
    total cost held ≤ bound := by
  obtain ⟨shares, hshares, hwithin⟩ := h
  rw [← total_perm hshares]
  exact hwithin.total_le hpos fun share hmem => hlimit share (hshares.mem_iff.mp hmem)

end Mediaops.Budget
