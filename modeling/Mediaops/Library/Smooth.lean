import Mediaops.Library.Faults

namespace Mediaops

-- What a program returns when it returns, and that it returns where every call goes
-- through.

variable {σ ε α β : Type}

-- Whatever the program is done with is in `A`.
def Gives (m : Prog σ ε α) (A : α → Prop) : Prop :=
  ∀ moves turn s a, (m moves turn s).outcome = .Done a → A a

-- Every call goes through, and others keep to `rely`.
def Smooth (rely : σ → σ → Prop) (moves : Nat → Move σ) : Prop :=
  ∀ turn, (moves turn).fate = .Goes ∧ ∀ s, rely s ((moves turn).outside s)

-- Run smoothly from `P` the program is done, in `A`.
def Completes (rely : σ → σ → Prop) (P : σ → Prop) (m : Prog σ ε α) (A : α → σ → Prop) : Prop :=
  ∀ moves turn s, Smooth rely moves → P s →
    ∃ a, (m moves turn s).outcome = .Done a ∧ A a (m moves turn s).world

section Gives

variable {A : α → Prop} {B : β → Prop}

theorem gives_pure {a : α} (h : A a) : Gives (pure a : Prog σ ε α) A := by
  intro moves turn s a' hran
  cases hran
  exact h

theorem gives_throw (e : ε) : Gives (throw e : Prog σ ε α) A := by
  intro moves turn s a hran
  cases hran

theorem gives_any (m : Prog σ ε α) : Gives m fun _ => True := fun _ _ _ _ _ => trivial

theorem Gives.bind {m : Prog σ ε α} {f : α → Prog σ ε β} (h : Gives m A)
    (hf : ∀ a, A a → Gives (f a) B) : Gives (m >>= f) B := by
  intro moves turn s b hran
  simp only [Bind.bind] at hran
  cases hfirst : (m moves turn s).outcome with
  | Done a =>
      rw [hfirst] at hran
      exact hf a (h moves turn s a hfirst) moves _ _ b hran
  | Failed e =>
      rw [hfirst] at hran
      cases hran
  | Stopped =>
      rw [hfirst] at hran
      cases hran

theorem gives_ite {c : Prop} [Decidable c] {m m' : Prog σ ε α} (h : c → Gives m A)
    (h' : ¬c → Gives m' A) : Gives (if c then m else m') A := by
  by_cases hc : c
  · rw [if_pos hc]
    exact h hc
  · rw [if_neg hc]
    exact h' hc

theorem gives_perform {c : Call σ ε α} (h : ∀ pick s a s', c.run pick s = .ok (a, s') → A a) :
    Gives (Prog.perform c) A := by
  intro moves turn s a hran
  simp only [Prog.perform, Call.answer] at hran
  split at hran
  · split at hran
    · next a' s' hrun =>
        cases hran
        exact h _ _ _ _ hrun
    · cases hran
  · cases hran
  · cases hran

end Gives

section Completes

variable {rely : σ → σ → Prop} {P : σ → Prop} {A : α → σ → Prop} {B : β → σ → Prop}

theorem completes_pure {a : α} (h : ∀ s, P s → A a s) :
    Completes rely P (pure a : Prog σ ε α) A :=
  fun _ _ s _ hs => ⟨a, rfl, h s hs⟩

theorem Completes.bind {m : Prog σ ε α} {f : α → Prog σ ε β} (h : Completes rely P m A)
    (hf : ∀ a, Completes rely (A a) (f a) B) : Completes rely P (m >>= f) B := by
  intro moves turn s hmoves hs
  obtain ⟨a, ha, hworld⟩ := h moves turn s hmoves hs
  obtain ⟨b, hb, hend⟩ := hf a moves (m moves turn s).turn _ hmoves hworld
  refine ⟨b, ?_, ?_⟩
  · simp only [Bind.bind, ha]
    exact hb
  · simp only [Bind.bind, ha]
    exact hend

theorem completes_perform {c : Call σ ε α} (hrely : ∀ s s', rely s s' → P s → P s')
    (h : ∀ pick s, P s → ∃ a s', c.run pick s = .ok (a, s') ∧ A a s') :
    Completes rely P (Prog.perform c) A := by
  intro moves turn s hmoves hs
  obtain ⟨hfate, houtside⟩ := hmoves turn
  obtain ⟨a, s', hrun, hend⟩ := h (moves turn).pick _ (hrely _ _ (houtside s) hs)
  refine ⟨a, ?_, ?_⟩
  · simp only [Prog.perform, Call.answer, hfate, hrun]
  · simp only [Prog.perform, Call.answer, hfate, hrun]
    exact hend

end Completes

end Mediaops
