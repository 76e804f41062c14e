import Mathlib.Data.Set.Basic

namespace Mediaops.Handover

-- A value at each place, and a record of it kept elsewhere. A new value is noted before it
-- takes the place of the old one; the record follows, and then the note goes. What is
-- recorded is at every moment the value that is there, or noted together with it.

structure State (K V : Type) where
  recorded : K → Set V
  actual : K → Option V
  noted : K → Set (V × V)

variable {K V : Type}

def CoveredAt (s : State K V) (k : K) (v : V) : Prop :=
  s.actual k = some v ∨ ∃ next, (v, next) ∈ s.noted k ∧ s.actual k = some next

def Covered (s : State K V) : Prop := ∀ k, ∀ v ∈ s.recorded k, CoveredAt s k v

variable {s s' : State K V}

-- Nothing is recorded anew, nothing is moved, and no note goes.
theorem Covered.idle (h : Covered s) (hrecorded : ∀ k, s'.recorded k ⊆ s.recorded k)
    (hactual : ∀ k v, v ∈ s'.recorded k → s'.actual k = s.actual k)
    (hnoted : ∀ k, s.noted k ⊆ s'.noted k) : Covered s' := by
  intro k v hv
  rcases h k v (hrecorded k hv) with hsame | ⟨next, hnext, hsame⟩
  · exact .inl ((hactual k v hv).trans hsame)
  · exact .inr ⟨next, hnoted k hnext, (hactual k v hv).trans hsame⟩

-- The noted value takes its place.
theorem Covered.replace {k : K} {next : V} (h : Covered s)
    (hrecorded : ∀ j, s'.recorded j ⊆ s.recorded j)
    (hready : ∀ v ∈ s.recorded k, (v, next) ∈ s.noted k) (hactual : s'.actual k = some next)
    (hothers : ∀ j v, v ∈ s'.recorded j → j ≠ k → s'.actual j = s.actual j)
    (hnoted : ∀ j, s.noted j ⊆ s'.noted j) : Covered s' := by
  intro j v hv
  by_cases hj : j = k
  · subst hj
    exact .inr ⟨next, hnoted j (hready v (hrecorded j hv)), hactual⟩
  · rcases h j v (hrecorded j hv) with hsame | ⟨next, hnext, hsame⟩
    · exact .inl ((hothers j v hv hj).trans hsame)
    · exact .inr ⟨next, hnoted j hnext, (hothers j v hv hj).trans hsame⟩

-- The record follows the value.
theorem Covered.record {k : K} {v : V} (h : Covered s) (hthere : s.actual k = some v)
    (hrecorded : ∀ j, ∀ w ∈ s'.recorded j, (j = k ∧ w = v) ∨ w ∈ s.recorded j)
    (hactual : s'.actual = s.actual) (hnoted : ∀ j, s.noted j ⊆ s'.noted j) : Covered s' := by
  intro j w hw
  rcases hrecorded j w hw with ⟨rfl, rfl⟩ | hold
  · exact .inl (hactual ▸ hthere)
  · rcases h j w hold with hsame | ⟨next, hnext, hsame⟩
    · exact .inl (hactual ▸ hsame)
    · exact .inr ⟨next, hnoted j hnext, hactual ▸ hsame⟩

-- A note goes once its place holds the old value or the recorded one.
theorem Covered.forget (h : Covered s) (hrecorded : ∀ k, s'.recorded k ⊆ s.recorded k)
    (hactual : s'.actual = s.actual)
    (hnoted : ∀ k, ∀ entry ∈ s.noted k, entry ∈ s'.noted k ∨ s.actual k = some entry.1 ∨
      ∀ v ∈ s.recorded k, s.actual k = some v) : Covered s' := by
  intro k v hv
  rcases h k v (hrecorded k hv) with hsame | ⟨next, hnext, hsame⟩
  · exact .inl (hactual ▸ hsame)
  · rcases hnoted k (v, next) hnext with hkept | hold | hnew
    · exact .inr ⟨next, hkept, hactual ▸ hsame⟩
    · exact .inl (hactual ▸ hold)
    · exact .inl (hactual ▸ hnew v (hrecorded k hv))

end Mediaops.Handover
