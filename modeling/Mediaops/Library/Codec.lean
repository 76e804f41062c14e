import Mathlib.Data.List.Nodup
import Mathlib.Tactic.Common

namespace Mediaops.Codec

-- A value that is sent in another form and read back.

variable {α ω ε : Type}

-- What was sent comes back as it was.
def Returns (toWire : α → ω) (fromWire : ω → Except ε α) (a : α) : Prop :=
  fromWire (toWire a) = .ok a

section Parts

variable {toWire : α → ω} {fromWire : ω → Except ε α}

theorem returns_list {items : List α} (h : ∀ a ∈ items, Returns toWire fromWire a) :
    Returns (List.map toWire) (List.mapM fromWire) items := by
  induction items with
  | nil => rfl
  | cons a items ih =>
      have hhead : fromWire (toWire a) = .ok a := h a List.mem_cons_self
      have hrest : (items.map toWire).mapM fromWire = .ok items :=
        ih fun b hb => h b (List.mem_cons_of_mem _ hb)
      unfold Returns
      rw [List.map_cons, List.mapM_cons, hhead, hrest]
      rfl

theorem returns_option {value : Option α} (h : ∀ a ∈ value, Returns toWire fromWire a) :
    Returns (Option.map toWire) (Option.mapM fromWire) value := by
  cases value with
  | none => rfl
  | some a =>
      have hvalue : fromWire (toWire a) = .ok a := h a rfl
      unfold Returns
      rw [Option.map_some, Option.mapM_some, hvalue]
      rfl

end Parts

section Absence

variable [DecidableEq ω] (zero : ω) (toWire : α → ω) (fromWire : ω → Except ε α)

-- One form stands for no value.
def sendOr (value : Option α) : ω := (value.map toWire).getD zero

def readOr (raw : ω) : Except ε (Option α) :=
  if raw = zero then pure none else (fromWire raw).map some

variable {zero toWire fromWire}

theorem returns_absent {value : Option α} (h : ∀ a ∈ value, Returns toWire fromWire a)
    (hzero : ∀ a ∈ value, toWire a ≠ zero) :
    Returns (sendOr zero toWire) (readOr zero fromWire) value := by
  unfold Returns sendOr readOr
  cases value with
  | none =>
      rw [Option.map_none, Option.getD_none, if_pos rfl]
      rfl
  | some a =>
      have hvalue : fromWire (toWire a) = .ok a := h a rfl
      rw [Option.map_some, Option.getD_some, if_neg (hzero a rfl), hvalue]
      rfl

end Absence

section Words

variable [DecidableEq ω] (all : List α) (spell : α → ω)

def word (raw : ω) : Option α := all.find? fun a => raw = spell a

variable {all spell}

theorem word_spell (hspell : (all.map spell).Nodup) {a : α} (ha : a ∈ all) :
    word all spell (spell a) = some a := by
  unfold word
  cases hfind : all.find? fun b => spell a = spell b with
  | none =>
      have hout := List.find?_eq_none.mp hfind a ha
      simp at hout
  | some b =>
      have hsame : spell a = spell b := by simpa using List.find?_some hfind
      rw [List.inj_on_of_nodup_map hspell ha (List.mem_of_find?_eq_some hfind) hsame]

end Words

end Mediaops.Codec
