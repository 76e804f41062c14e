import Mediaops.Library.Faults

namespace Mediaops

-- The calls of a run as a trace: one goes on where the last one ended, but for what
-- others did in between, and the run ends where its last call did.

section Chained

variable {σ : Type} {moves : Nat → Move σ}

def Chained (moves : Nat → Move σ) : σ → List (σ × σ) → σ → Prop
  | s, [], s' => s' = s
  | s, call :: calls, s' => (∃ turn, call.1 = (moves turn).outside s) ∧ Chained moves call.2 calls s'

theorem Chained.append {s s' s'' : σ} {calls calls' : List (σ × σ)}
    (h : Chained moves s calls s') (h' : Chained moves s' calls' s'') :
    Chained moves s (calls ++ calls') s'' := by
  induction calls generalizing s with
  | nil =>
      obtain rfl : s' = s := h
      exact h'
  | cons call calls ih => exact ⟨h.1, ih h.2⟩

-- What holds from one world to the next holds from the first to each.
theorem Chained.related {R : σ → σ → Prop} (hrefl : ∀ s, R s s)
    (htrans : ∀ s s' s'', R s s' → R s' s'' → R s s'') (hmoves : ∀ n s, R s ((moves n).outside s))
    {s s' : σ} {calls : List (σ × σ)} (h : Chained moves s calls s')
    (hcalls : ∀ call ∈ calls, R call.1 call.2) : (∀ call ∈ calls, R s call.2) ∧ R s s' := by
  induction calls generalizing s with
  | nil =>
      obtain rfl : s' = s := h
      exact ⟨fun _ hcall => (nomatch hcall), hrefl _⟩
  | cons call calls ih =>
      obtain ⟨⟨turn, hturn⟩, hrest⟩ := h
      have hfirst : R s call.2 := by
        refine htrans _ _ _ (hmoves turn s) ?_
        rw [← hturn]
        exact hcalls call List.mem_cons_self
      obtain ⟨hlater, hlast⟩ := ih hrest fun other hother =>
        hcalls other (List.mem_cons_of_mem _ hother)
      refine ⟨fun other hother => ?_, htrans _ _ _ hfirst hlast⟩
      rcases List.mem_cons.mp hother with rfl | hother
      · exact hfirst
      · exact htrans _ _ _ hfirst (hlater other hother)

end Chained

-- The calls a program lists are all there is to its run.
def Tracks {σ ε α : Type} (m : Prog σ ε α) : Prop :=
  ∀ moves turn s, Chained moves s (m moves turn s).calls (m moves turn s).world

section Tracks

variable {σ ε α β : Type}

theorem tracks_pure (a : α) : Tracks (pure a : Prog σ ε α) := fun _ _ _ => rfl

theorem tracks_throw (e : ε) : Tracks (throw e : Prog σ ε α) := fun _ _ _ => rfl

theorem tracks_lift (x : Except ε α) : Tracks (Prog.lift x : Prog σ ε α) := by
  cases x with
  | ok a => exact tracks_pure a
  | error e => exact tracks_throw e

theorem tracks_perform (c : Call σ ε α) : Tracks (Prog.perform c) :=
  fun _ turn _ => ⟨⟨turn, rfl⟩, rfl⟩

theorem Tracks.bind {m : Prog σ ε α} {f : α → Prog σ ε β} (h : Tracks m)
    (hf : ∀ a, Tracks (f a)) : Tracks (m >>= f) := by
  intro moves turn s
  have hm := h moves turn s
  simp only [Bind.bind]
  cases ho : (m moves turn s).outcome with
  | Done a => exact hm.append (hf a moves _ _)
  | Failed e => exact hm
  | Stopped => exact hm

theorem Tracks.attempt {m : Prog σ ε α} (h : Tracks m) : Tracks m.attempt := by
  intro moves turn s
  have hm := h moves turn s
  simp only [Prog.attempt, tryCatch, tryCatchThe, MonadExceptOf.tryCatch, Functor.map]
  cases ho : (m moves turn s).outcome with
  | Done a => exact hm.append rfl
  | Failed e => exact hm.append rfl
  | Stopped => exact hm

theorem Tracks.mapError {ε' : Type} {f : ε → ε'} {m : Prog σ ε α} (h : Tracks m) :
    Tracks (m.mapError f) := h

theorem tracks_ite {c : Prop} [Decidable c] {m m' : Prog σ ε α} (h : Tracks m) (h' : Tracks m') :
    Tracks (if c then m else m') := by
  by_cases hc : c
  · rw [if_pos hc]; exact h
  · rw [if_neg hc]; exact h'

theorem tracks_guard {c : Prop} [Decidable c] {e : ε} {f : Unit → Prog σ ε α} (h : Tracks (f ())) :
    Tracks (if c then throw e >>= f else f ()) :=
  tracks_ite ((tracks_throw e).bind fun _ => h) h

end Tracks

-- A program whose calls keep to their part of `T`, and are all there is to its run.
structure Watched {σ ε α : Type} (T : Terms σ) (m : Prog σ ε α) : Prop where
  safe : Safe T m
  tracks : Tracks m

section Watched

variable {σ ε α β : Type} {T : Terms σ}

theorem watched_pure (a : α) : Watched T (pure a : Prog σ ε α) := ⟨safe_pure a, tracks_pure a⟩

theorem watched_throw (e : ε) : Watched T (throw e : Prog σ ε α) := ⟨safe_throw e, tracks_throw e⟩

theorem watched_lift (x : Except ε α) : Watched T (Prog.lift x : Prog σ ε α) :=
  ⟨safe_lift x, tracks_lift x⟩

theorem watched_perform {c : Call σ ε α}
    (h : ∀ past move s, T.allowed move → T.guar past s (c.answer move s).2) :
    Watched T (Prog.perform c) := ⟨safe_perform h, tracks_perform c⟩

theorem Watched.bind {m : Prog σ ε α} {f : α → Prog σ ε β} (h : Watched T m)
    (hf : ∀ a, Watched T (f a)) : Watched T (m >>= f) :=
  ⟨h.safe.bind fun a => (hf a).safe, h.tracks.bind fun a => (hf a).tracks⟩

theorem Watched.attempt {m : Prog σ ε α} (h : Watched T m) : Watched T m.attempt :=
  ⟨h.safe.attempt, h.tracks.attempt⟩

theorem Watched.mapError {ε' : Type} {f : ε → ε'} {m : Prog σ ε α} (h : Watched T m) :
    Watched T (m.mapError f) := ⟨h.safe.mapError, h.tracks.mapError⟩

theorem watched_ite {c : Prop} [Decidable c] {m m' : Prog σ ε α} (h : Watched T m)
    (h' : Watched T m') : Watched T (if c then m else m') :=
  ⟨safe_ite h.safe h'.safe, tracks_ite h.tracks h'.tracks⟩

theorem watched_guard {c : Prop} [Decidable c] {e : ε} {f : Unit → Prog σ ε α}
    (h : Watched T (f ())) : Watched T (if c then throw e >>= f else f ()) :=
  ⟨safe_guard h.safe, tracks_guard h.tracks⟩

end Watched

end Mediaops
