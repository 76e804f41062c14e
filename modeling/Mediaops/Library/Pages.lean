import Mediaops.Library.Faults
import Mathlib.Data.List.Basic

namespace Mediaops.Pages

-- A listing that is asked for page by page, up to a limit, until a page ends it.

-- An answer is the whole listing, or one page of it with the total if that is known.
inductive Batch (α : Type) where
  | Whole (records : List α)
  | Part (records : List α) (total : Option Nat)

-- What came back: the first answer if that was whole, or what the answers add up to.
inductive Listing (α : Type) where
  | Bare (records : List α)
  | Gathered (records : List α)

def Listing.records {α : Type} : Listing α → List α
  | Bare records => records
  | Gathered records => records

section Definitions

variable {α : Type} (size : Nat) (found : List α → Bool)

-- Nothing is asked for after an empty page or one that has what was looked for, nor once
-- the total is reached. Without a total a short page is the last.
def ends (records all : List α) (total : Option Nat) : Bool :=
  records.isEmpty || found records ||
    match total with
    | some total => total ≤ all.length
    | none => records.length < size

-- `left` more pages may be asked for.
def gather {σ ε : Type} (fetch : Nat → Prog σ ε (Batch α)) (exceeded : ε) :
    Nat → Nat → List α → Option Nat → Prog σ ε (Listing α)
  | 0, _, _, _ => throw exceeded
  | left + 1, page, all, total => do
      match ← fetch page with
      | .Whole records =>
          pure (if page = 1 ∧ all = [] then .Bare records else .Gathered (all ++ records))
      | .Part records counted =>
          if ends size found records (all ++ records) (counted.or total) then
            pure (.Gathered (all ++ records))
          else gather fetch exceeded left (page + 1) (all ++ records) (counted.or total)

-- The same from pages that are there to be read.
def collect (source : Nat → Batch α) : Nat → Nat → List α → Option Nat → Option (Listing α)
  | 0, _, _, _ => none
  | left + 1, page, all, total =>
      match source page with
      | .Whole records =>
          some (if page = 1 ∧ all = [] then .Bare records else .Gathered (all ++ records))
      | .Part records counted =>
          if ends size found records (all ++ records) (counted.or total) then
            some (.Gathered (all ++ records))
          else collect source left (page + 1) (all ++ records) (counted.or total)

end Definitions

section Rules

variable {α : Type} {size : Nat} {found : List α → Bool}

-- The induction is on the pages that are left.
theorem runs_gather {σ X ε : Type} {view : List (σ × σ) → σ → X} {T : Terms σ} {P H : X → Prop}
    {fetch : Nat → Prog σ ε (Batch α)} {exceeded : ε} {source : Nat → Batch α}
    (hfetch : ∀ page, Runs view T P (fetch page) (fun batch x => batch = source page ∧ P x) H)
    (left page : Nat) (all : List α) (total : Option Nat)
    (hexceeded : collect size found source left page all total = none → ∀ x, P x → H x) :
    Runs view T P (gather size found fetch exceeded left page all total)
      (fun listing x => collect size found source left page all total = some listing ∧ P x) H := by
  induction left generalizing page all total with
  | zero => exact runs_throw (hexceeded rfl)
  | succ left ih =>
      apply (hfetch page).bind
      intro batch
      apply Runs.of_pre (fun _ hx => hx.1)
      intro hbatch
      rw [collect, ← hbatch] at hexceeded ⊢
      cases batch with
      | Whole records => exact runs_pure fun _ hx => ⟨rfl, hx.2⟩
      | Part records counted =>
          dsimp only
          by_cases hends : ends size found records (all ++ records) (counted.or total) = true
          · rw [if_pos hends, if_pos hends]
            exact runs_pure fun _ hx => ⟨rfl, hx.2⟩
          · dsimp only at hexceeded
            rw [if_neg hends] at hexceeded ⊢
            rw [if_neg hends]
            exact (ih _ _ _ hexceeded).mono (fun _ hx => hx.2) (fun _ _ hx => hx) fun _ hx => hx

theorem throws_gather {σ ε : Type} {errors : ε → Prop} {fetch : Nat → Prog σ ε (Batch α)}
    {exceeded : ε} (hfetch : ∀ page, Throws errors (fetch page)) (hexceeded : errors exceeded)
    (left page : Nat) (all : List α) (total : Option Nat) :
    Throws errors (gather size found fetch exceeded left page all total) := by
  induction left generalizing page all total with
  | zero => exact throws_throw hexceeded
  | succ left ih =>
      apply (hfetch page).bind
      intro batch
      cases batch with
      | Whole records => exact throws_pure _
      | Part records counted => exact throws_ite (throws_pure _) (ih _ _ _)

end Rules

section Slices

variable {α : Type} (size : Nat) (items : List α)

def slice (page : Nat) : List α := (items.drop ((page - 1) * size)).take size

-- The pages of a fixed list.
def paged (counted : Bool) (page : Nat) : Batch α :=
  .Part (slice size items page) (if counted then some items.length else none)

-- The page after which nothing is asked for.
def Stops (found : List α → Bool) (counted : Bool) (page : Nat) : Bool :=
  found (slice size items page) ||
    if counted then items.length ≤ page * size else items.length < page * size

variable {size items} {found : List α → Bool} {counted : Bool}

theorem take_slice (page : Nat) :
    items.take (page * size) ++ slice size items (page + 1) = items.take ((page + 1) * size) := by
  rw [slice, Nat.add_sub_cancel, Nat.add_mul, Nat.one_mul, ← List.take_add]

theorem length_slice (size : Nat) (items : List α) (page : Nat) :
    (slice size items (page + 1)).length = min size (items.length - page * size) := by
  rw [slice, Nat.add_sub_cancel, List.length_take, List.length_drop]

theorem ends_slice (hsize : 0 < size) (page : Nat) :
    ends size found (slice size items (page + 1)) (items.take ((page + 1) * size))
        (if counted then some items.length else none) = Stops size items found counted (page + 1) := by
  have hmul : (page + 1) * size = page * size + size := by rw [Nat.add_mul, Nat.one_mul]
  have hlength := length_slice size items page
  have hempty : (slice size items (page + 1)).isEmpty = true ↔ items.length ≤ page * size := by
    rw [List.isEmpty_iff_length_eq_zero, hlength]
    omega
  unfold ends Stops
  rw [Bool.eq_iff_iff]
  cases counted with
  | true =>
      simp only [Bool.or_eq_true, hempty, if_true, decide_eq_true_eq, List.length_take]
      constructor
      · rintro ((hnone | hfound) | htotal)
        · exact .inr (by omega)
        · exact .inl hfound
        · exact .inr (by omega)
      · rintro (hfound | htotal)
        · exact .inl (.inr hfound)
        · exact .inr (by omega)
  | false =>
      simp only [Bool.or_eq_true, hempty, Bool.false_eq_true, if_false, decide_eq_true_eq, hlength]
      constructor
      · rintro ((hnone | hfound) | hshort)
        · exact .inr (by omega)
        · exact .inl hfound
        · exact .inr (by omega)
      · rintro (hfound | hshort)
        · exact .inl (.inr hfound)
        · exact .inr (by omega)

-- From a fixed list comes all of it up to the first page that stops the listing.
theorem collect_paged (items : List α) (found : List α → Bool) (counted : Bool) (hsize : 0 < size)
    (left page : Nat) :
    ∀ total, total = none ∨ (counted = true ∧ total = some items.length) →
    collect size found (paged size items counted) left (page + 1) (items.take (page * size)) total =
      ((List.range' (page + 1) left).find? (Stops size items found counted)).map fun last =>
        .Gathered (items.take (last * size)) := by
  induction left generalizing page with
  | zero => intro _ _; rfl
  | succ left ih =>
      intro total htotal
      have hcounted : (if counted then some items.length else none).or total =
          if counted then some items.length else none := by
        rcases htotal with rfl | ⟨rfl, rfl⟩
        · exact Option.or_none
        · rfl
      rw [collect, paged]
      dsimp only
      rw [hcounted, take_slice, ends_slice hsize, List.range'_succ, List.find?_cons]
      cases hstops : Stops size items found counted (page + 1) with
      | true => simp
      | false =>
          rw [if_neg Bool.false_ne_true]
          refine ih (page + 1) _ ?_
          cases counted with
          | true => exact .inr ⟨rfl, rfl⟩
          | false => exact .inl rfl

-- What a listing is after is found on the pages that come back, if it is anywhere.
theorem find_take {p : α → Bool} {last : Nat} (hpos : 0 < last)
    (h : Stops size items (fun records => records.any p) counted last = true) :
    (items.take (last * size)).find? p = items.find? p := by
  conv_rhs => rw [← List.take_append_drop (last * size) items, List.find?_append]
  obtain ⟨page, rfl⟩ : ∃ page, last = page + 1 := ⟨last - 1, by omega⟩
  unfold Stops at h
  rw [Bool.or_eq_true] at h
  rcases h with hfound | hall
  · obtain ⟨record, hrecord, hp⟩ := List.any_eq_true.mp hfound
    have hmem : record ∈ items.take ((page + 1) * size) := by
      rw [← take_slice]
      exact List.mem_append_right _ hrecord
    obtain ⟨first, hfirst⟩ := Option.isSome_iff_exists.mp (List.find?_isSome.mpr ⟨record, hmem, hp⟩)
    rw [hfirst, Option.some_or]
  · have hlength : items.length ≤ (page + 1) * size := by
      cases counted with
      | true => simpa using hall
      | false => exact Nat.le_of_lt (by simpa using hall)
    rw [List.drop_of_length_le hlength, List.find?_nil, Option.or_none]

end Slices

end Mediaops.Pages
