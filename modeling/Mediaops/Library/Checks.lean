import Mathlib.Tactic.Common

namespace Mediaops.Checks

-- A sequence of checks is a program that raises an error or goes on. Each lemma
-- takes one step off the front of a sequence that went through.

variable {ε ε' α β : Type}

theorem bind_ok {x : Except ε α} {f : α → Except ε β} {b : β} (h : x >>= f = .ok b) :
    ∃ a, x = .ok a ∧ f a = .ok b := by
  cases x with
  | error e => cases h
  | ok a => exact ⟨a, rfl, h⟩

theorem seq_ok {x : Except ε Unit} {f : Unit → Except ε β} {b : β} (h : x >>= f = .ok b) :
    x = .ok () ∧ f () = .ok b := by
  obtain ⟨⟨⟩, hx, hf⟩ := bind_ok h
  exact ⟨hx, hf⟩

theorem guard_ok {c : Prop} [Decidable c] {e : ε} {f : Unit → Except ε β} {b : β}
    (h : (if c then throw e >>= f else f ()) = .ok b) : ¬c ∧ f () = .ok b := by
  by_cases hc : c
  · rw [if_pos hc] at h
    cases h
  · rw [if_neg hc] at h
    exact ⟨hc, h⟩

-- A check made only under a condition.
theorem when_ok {c : Prop} [Decidable c] {x : Except ε Unit} {f : Unit → Except ε β} {b : β}
    (h : (if c then x >>= f else f ()) = .ok b) : (c → x = .ok ()) ∧ f () = .ok b := by
  by_cases hc : c
  · rw [if_pos hc] at h
    obtain ⟨hx, hf⟩ := seq_ok h
    exact ⟨fun _ => hx, hf⟩
  · rw [if_neg hc] at h
    exact ⟨fun hc' => absurd hc' hc, h⟩

theorem ite_ok {c : Prop} [Decidable c] {e : ε} {x : Except ε β} {b : β}
    (h : (if c then throw e else x) = .ok b) : ¬c ∧ x = .ok b := by
  by_cases hc : c
  · rw [if_pos hc] at h
    cases h
  · rw [if_neg hc] at h
    exact ⟨hc, h⟩

theorem map_ok {x : Except ε α} {f : α → β} {b : β} (h : x.map f = .ok b) : ∃ a, x = .ok a ∧ f a = b := by
  cases x with
  | error e => cases h
  | ok a =>
      cases h
      exact ⟨a, rfl, rfl⟩

theorem mapError_ok {x : Except ε α} {f : ε → ε'} {a : α} (h : x.mapError f = .ok a) :
    x = .ok a := by
  cases x with
  | error e => cases h
  | ok a' => cases h; rfl

theorem mapError_ok_iff {x : Except ε α} {f : ε → ε'} {a : α} :
    x.mapError f = .ok a ↔ x = .ok a := by
  cases x <;> simp [Except.mapError]

-- Every error the program can raise is of a certain kind.
def Raises (allowed : ε → Prop) (x : Except ε α) : Prop := ∀ e, x = .error e → allowed e

section Raises

variable {allowed : ε → Prop}

theorem Raises.pure {a : α} : Raises allowed (pure a : Except ε α) := by
  intro e h
  cases h

theorem Raises.throw {e : ε} (h : allowed e) : Raises allowed (throw e : Except ε α) := by
  intro e' h'
  cases h'
  exact h

theorem Raises.bind {x : Except ε α} {f : α → Except ε β} (hx : Raises allowed x)
    (hf : ∀ a, Raises allowed (f a)) : Raises allowed (x >>= f) := by
  intro e h
  cases x with
  | error e' =>
      cases h
      exact hx e rfl
  | ok a => exact hf a e h

theorem Raises.ite {c : Prop} [Decidable c] {x y : Except ε α} (hx : Raises allowed x)
    (hy : Raises allowed y) : Raises allowed (if c then x else y) := by
  split
  · exact hx
  · exact hy

theorem Raises.map {x : Except ε α} {f : α → β} (hx : Raises allowed x) :
    Raises allowed (x.map f) := by
  intro e h
  cases x with
  | error e' =>
      cases h
      exact hx e rfl
  | ok a => cases h

end Raises

-- Two programs that give the same, but for what `blur` takes away from an error.
def Agree (blur : ε → ε') (x y : Except ε α) : Prop := x.mapError blur = y.mapError blur

section Agree

variable {blur : ε → ε'} {x x' y y' : Except ε α} {e e' : ε}

theorem Agree.refl (x : Except ε α) : Agree blur x x := rfl

theorem Agree.throw (h : blur e = blur e') :
    Agree blur (throw e : Except ε α) (throw e' : Except ε α) := congrArg Except.error h

theorem Agree.bind {f f' : α → Except ε β} (hx : Agree blur x x')
    (hf : ∀ a, Agree blur (f a) (f' a)) : Agree blur (x >>= f) (x' >>= f') := by
  cases x with
  | error e =>
      cases x' with
      | error e' => exact congrArg Except.error (Except.error.inj hx)
      | ok a' => cases hx
  | ok a =>
      cases x' with
      | error e' => cases hx
      | ok a' =>
          cases hx
          exact hf a

theorem Agree.ite {c : Prop} [Decidable c] (hx : Agree blur x x') (hy : Agree blur y y') :
    Agree blur (if c then x else y) (if c then x' else y') := by
  split
  · exact hx
  · exact hy

theorem Agree.guard {c : Prop} [Decidable c] {f f' : Unit → Except ε β} (h : blur e = blur e')
    (hf : Agree blur (f ()) (f' ())) :
    Agree blur (if c then MonadExcept.throw e >>= f else f ())
      (if c then MonadExcept.throw e' >>= f' else f' ()) :=
  .ite (congrArg Except.error h) hf

theorem Agree.mapError {z : Except ε α} (h : blur e = blur e') :
    Agree blur (z.mapError fun _ => e) (z.mapError fun _ => e') := by
  cases z with
  | error _ => exact congrArg Except.error h
  | ok a => rfl

end Agree

end Mediaops.Checks
