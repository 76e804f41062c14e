import Mediaops.Library.Faults

namespace Mediaops

-- Runs in one environment where nobody else changes the world: the calls a program
-- makes as long as they go through, and how it ends at the first that does not.

-- The call had a part of its effect, or none.
def Fate.Cuts (fate : Fate) (part : Nat) : Prop := fate = .Fails part ∨ fate = .Stops part

theorem Fate.Cuts.unique {fate : Fate} {part part' : Nat} (h : fate.Cuts part)
    (h' : fate.Cuts part') : part = part' := by
  rcases h with rfl | rfl <;> rcases h' with h' | h' <;> cases h' <;> rfl

theorem Fate.not_cuts_goes {part : Nat} : ¬Fate.Goes.Cuts part := by
  rintro (h | h) <;> cases h

section Turns

variable {σ : Type} (moves : Nat → Move σ)

def Undisturbed : Prop := ∀ turn s, (moves turn).outside s = s

def AllGo (turns : List Nat) : Prop := ∀ turn ∈ turns, (moves turn).fate = .Goes

-- The first of the calls that does not go through fails.
def FailsFirst : List Nat → Prop
  | [] => False
  | turn :: rest =>
      match (moves turn).fate with
      | .Goes => FailsFirst rest
      | .Fails _ => True
      | .Stops _ => False

-- It is stopped there.
def StopsFirst : List Nat → Prop
  | [] => False
  | turn :: rest =>
      match (moves turn).fate with
      | .Goes => StopsFirst rest
      | .Fails _ => False
      | .Stops _ => True

variable {moves}

theorem allGo_cons {turn : Nat} {rest : List Nat} :
    AllGo moves (turn :: rest) ↔ (moves turn).fate = .Goes ∧ AllGo moves rest :=
  List.forall_mem_cons

theorem allGo_append {first rest : List Nat} :
    AllGo moves (first ++ rest) ↔ AllGo moves first ∧ AllGo moves rest :=
  List.forall_mem_append

theorem AllGo.not_failsFirst {turns : List Nat} (h : AllGo moves turns) :
    ¬FailsFirst moves turns := by
  induction turns with
  | nil => exact id
  | cons turn rest ih =>
      obtain ⟨hturn, hrest⟩ := allGo_cons.mp h
      rw [FailsFirst, hturn]
      exact ih hrest

theorem AllGo.not_stopsFirst {turns : List Nat} (h : AllGo moves turns) :
    ¬StopsFirst moves turns := by
  induction turns with
  | nil => exact id
  | cons turn rest ih =>
      obtain ⟨hturn, hrest⟩ := allGo_cons.mp h
      rw [StopsFirst, hturn]
      exact ih hrest

theorem FailsFirst.not_stopsFirst {turns : List Nat} (h : FailsFirst moves turns) :
    ¬StopsFirst moves turns := by
  induction turns with
  | nil => exact id
  | cons turn rest ih =>
      rw [FailsFirst] at h
      rw [StopsFirst]
      cases hfate : (moves turn).fate with
      | Goes => rw [hfate] at h; exact ih h
      | Fails part => exact id
      | Stops part => rw [hfate] at h; exact h.elim

theorem failsFirst_append {first rest : List Nat} :
    FailsFirst moves (first ++ rest) ↔
      FailsFirst moves first ∨ AllGo moves first ∧ FailsFirst moves rest := by
  induction first with
  | nil => simp [FailsFirst, AllGo]
  | cons turn first ih =>
      rw [List.cons_append, FailsFirst, FailsFirst, allGo_cons]
      cases (moves turn).fate with
      | Goes => simpa using ih
      | Fails part => simp
      | Stops part => simp

theorem stopsFirst_append {first rest : List Nat} :
    StopsFirst moves (first ++ rest) ↔
      StopsFirst moves first ∨ AllGo moves first ∧ StopsFirst moves rest := by
  induction first with
  | nil => simp [StopsFirst, AllGo]
  | cons turn first ih =>
      rw [List.cons_append, StopsFirst, StopsFirst, allGo_cons]
      cases (moves turn).fate with
      | Goes => simpa using ih
      | Fails part => simp
      | Stops part => simp

end Turns

-- In the world `s` the program makes the calls `turns` while they go through. Then it
-- is done in `A`; at the first that does not it ends as that call does, in `H`.
def Passes {σ ε α : Type} (moves : Nat → Move σ) (turn : Nat) (m : Prog σ ε α) (turns : List Nat)
    (s : σ) (A : α → Nat → σ → Prop) (H : σ → Prop) : Prop :=
  (AllGo moves turns ∧ ∃ a, (m moves turn s).outcome = .Done a ∧
    A a (m moves turn s).turn (m moves turn s).world) ∨
  (FailsFirst moves turns ∧ (∃ e, (m moves turn s).outcome = .Failed e) ∧
    H (m moves turn s).world) ∨
  (StopsFirst moves turns ∧ (m moves turn s).outcome = .Stopped ∧ H (m moves turn s).world)

-- However its calls end, the program is not done, and leaves a world in `H`.
def Refused {σ ε α : Type} (moves : Nat → Move σ) (turn : Nat) (m : Prog σ ε α) (s : σ)
    (H : σ → Prop) : Prop :=
  (∀ a, (m moves turn s).outcome ≠ .Done a) ∧ H (m moves turn s).world

section Passes

variable {σ ε α β : Type} {moves : Nat → Move σ} {turn : Nat} {s : σ} {turns : List Nat}
  {A A' : α → Nat → σ → Prop} {H H' : σ → Prop}

theorem Passes.mono {m : Prog σ ε α} (h : Passes moves turn m turns s A H)
    (hdone : ∀ a turn s, A a turn s → A' a turn s) (hhalt : ∀ s, H s → H' s) :
    Passes moves turn m turns s A' H' := by
  rcases h with ⟨hgo, a, ha, h⟩ | ⟨hfail, he, h⟩ | ⟨hstop, ho, h⟩
  · exact .inl ⟨hgo, a, ha, hdone _ _ _ h⟩
  · exact .inr (.inl ⟨hfail, he, hhalt _ h⟩)
  · exact .inr (.inr ⟨hstop, ho, hhalt _ h⟩)

theorem Refused.mono {m : Prog σ ε α} (h : Refused moves turn m s H) (hhalt : ∀ s, H s → H' s) :
    Refused moves turn m s H' :=
  ⟨h.1, hhalt _ h.2⟩

theorem passes_pure {a : α} (h : A a turn s) :
    Passes moves turn (pure a : Prog σ ε α) [] s A H :=
  .inl ⟨by simp [AllGo], a, rfl, h⟩

theorem refused_throw {e : ε} (h : H s) : Refused moves turn (throw e : Prog σ ε α) s H :=
  ⟨fun _ ha => (by cases ha), h⟩

theorem Passes.bind {m : Prog σ ε α} {f : α → Prog σ ε β} {turns' : List Nat}
    {B : β → Nat → σ → Prop} (h : Passes moves turn m turns s A H)
    (hf : ∀ a turn s, A a turn s → Passes moves turn (f a) turns' s B H) :
    Passes moves turn (m >>= f) (turns ++ turns') s B H := by
  simp only [Passes, Bind.bind]
  rcases h with ⟨hgo, a, ha, h⟩ | ⟨hfail, ⟨e, he⟩, h⟩ | ⟨hstop, ho, h⟩
  · rw [ha]
    rcases hf a _ _ h with ⟨hgo', b, hb, h'⟩ | ⟨hfail', he, h'⟩ | ⟨hstop', ho, h'⟩
    · exact .inl ⟨allGo_append.mpr ⟨hgo, hgo'⟩, b, hb, h'⟩
    · exact .inr (.inl ⟨failsFirst_append.mpr (.inr ⟨hgo, hfail'⟩), he, h'⟩)
    · exact .inr (.inr ⟨stopsFirst_append.mpr (.inr ⟨hgo, hstop'⟩), ho, h'⟩)
  · rw [he]
    exact .inr (.inl ⟨failsFirst_append.mpr (.inl hfail), ⟨e, rfl⟩, h⟩)
  · rw [ho]
    exact .inr (.inr ⟨stopsFirst_append.mpr (.inl hstop), rfl, h⟩)

theorem Passes.refused {m : Prog σ ε α} {f : α → Prog σ ε β} (h : Passes moves turn m turns s A H)
    (hf : ∀ a turn s, A a turn s → Refused moves turn (f a) s H) :
    Refused moves turn (m >>= f) s H := by
  simp only [Refused, Bind.bind]
  rcases h with ⟨-, a, ha, h⟩ | ⟨-, ⟨e, he⟩, h⟩ | ⟨-, ho, h⟩
  · rw [ha]
    exact hf a _ _ h
  · rw [he]
    exact ⟨fun b hb => (by cases hb), h⟩
  · rw [ho]
    exact ⟨fun b hb => (by cases hb), h⟩

theorem Refused.bind {m : Prog σ ε α} (h : Refused moves turn m s H) (f : α → Prog σ ε β) :
    Refused moves turn (m >>= f) s H := by
  obtain ⟨hdone, hworld⟩ := h
  simp only [Refused, Bind.bind]
  cases ho : (m moves turn s).outcome with
  | Done a => exact absurd ho (hdone a)
  | Failed e => exact ⟨fun b hb => (by cases hb), hworld⟩
  | Stopped => exact ⟨fun b hb => (by cases hb), hworld⟩

-- One call, at the turn `t`: it goes through with `a` and leaves the world `w`.
def Answers (moves : Nat → Move σ) (turn : Nat) (m : Prog σ ε α) (t : Nat) (s : σ) (a : α) (w : σ)
    (H : σ → Prop) : Prop :=
  Passes moves turn m [t] s (fun a' next w' => a' = a ∧ next = t + 1 ∧ w' = w) H

variable {t : Nat} {a : α} {w : σ}

theorem Answers.passes {m : Prog σ ε α} (h : Answers moves turn m t s a w H)
    (hdone : A a (t + 1) w) : Passes moves turn m [t] s A H := by
  apply Passes.mono h
  · rintro _ _ _ ⟨rfl, rfl, rfl⟩
    exact hdone
  · exact fun _ hs => hs

theorem Answers.bind {m : Prog σ ε α} {f : α → Prog σ ε β} {turns' : List Nat}
    {B : β → Nat → σ → Prop} (h : Answers moves turn m t s a w H)
    (hf : Passes moves (t + 1) (f a) turns' w B H) :
    Passes moves turn (m >>= f) (t :: turns') s B H := by
  refine Passes.bind h ?_
  rintro _ _ _ ⟨rfl, rfl, rfl⟩
  exact hf

theorem Answers.refused {m : Prog σ ε α} {f : α → Prog σ ε β} (h : Answers moves turn m t s a w H)
    (hf : Refused moves (t + 1) (f a) w H) : Refused moves turn (m >>= f) s H := by
  refine Passes.refused h ?_
  rintro _ _ _ ⟨rfl, rfl, rfl⟩
  exact hf

-- A call whose failure makes the program fail all the same.
theorem Answers.attempt_bind {m : Prog σ ε α} {f : Except ε α → Prog σ ε β} {turns' : List Nat}
    {B : β → Nat → σ → Prop} (h : Answers moves turn m t s a w H)
    (hok : Passes moves (t + 1) (f (.ok a)) turns' w B H)
    (herr : ∀ e turn s, H s → (∃ e', (f (.error e) moves turn s).outcome = .Failed e') ∧
      H (f (.error e) moves turn s).world) :
    Passes moves turn (m.attempt >>= f) (t :: turns') s B H := by
  simp only [Passes, Bind.bind, Prog.attempt, tryCatch, tryCatchThe, MonadExceptOf.tryCatch,
    Functor.map]
  rcases h with ⟨hgo, a', ha, rfl, hnext, hw⟩ | ⟨hfail, ⟨e, he⟩, h⟩ | ⟨hstop, ho, h⟩
  · simp only [ha, hnext, hw]
    rcases hok with ⟨hgo', b, hb, h'⟩ | ⟨hfail', he, h'⟩ | ⟨hstop', ho, h'⟩
    · exact .inl ⟨allGo_cons.mpr ⟨hgo t List.mem_cons_self, hgo'⟩, b, hb, h'⟩
    · exact .inr (.inl ⟨failsFirst_append.mpr (.inr ⟨hgo, hfail'⟩), he, h'⟩)
    · exact .inr (.inr ⟨stopsFirst_append.mpr (.inr ⟨hgo, hstop'⟩), ho, h'⟩)
  · simp only [he]
    obtain ⟨hfailed, hworld⟩ := herr e (m moves turn s).turn _ h
    exact .inr (.inl ⟨failsFirst_append.mpr (.inl hfail), hfailed, hworld⟩)
  · simp only [ho]
    exact .inr (.inr ⟨stopsFirst_append.mpr (.inl hstop), trivial, h⟩)

theorem Answers.attempt_refused {m : Prog σ ε α} {f : Except ε α → Prog σ ε β}
    (h : Answers moves turn m t s a w H) (hok : Refused moves (t + 1) (f (.ok a)) w H)
    (herr : ∀ e turn s, H s → Refused moves turn (f (.error e)) s H) :
    Refused moves turn (m.attempt >>= f) s H := by
  simp only [Refused, Bind.bind, Prog.attempt, tryCatch, tryCatchThe, MonadExceptOf.tryCatch,
    Functor.map]
  rcases h with ⟨hgo, a', ha, rfl, hnext, hw⟩ | ⟨hfail, ⟨e, he⟩, h⟩ | ⟨hstop, ho, h⟩
  · simp only [ha, hnext, hw]
    exact hok
  · simp only [he]
    exact herr e (m moves turn s).turn _ h
  · simp only [ho]
    exact ⟨fun b hb => (by cases hb), h⟩

theorem answers_perform (hmoves : Undisturbed moves) {c : Call σ ε α}
    (hrun : c.run (moves turn).pick s = .ok (a, w))
    (hhalt : ∀ part, (moves turn).fate.Cuts part → H (c.partly part s)) :
    Answers moves turn (Prog.perform c) turn s a w H := by
  simp only [Answers, Passes, Prog.perform, Call.answer, hmoves turn s, AllGo, FailsFirst,
    StopsFirst, List.forall_mem_singleton]
  cases hfate : (moves turn).fate with
  | Goes => simp [hrun]
  | Fails part => exact .inr (.inl ⟨trivial, ⟨_, rfl⟩, hhalt part (.inl hfate)⟩)
  | Stops part => exact .inr (.inr ⟨trivial, rfl, hhalt part (.inr hfate)⟩)

theorem refused_perform (hmoves : Undisturbed moves) {c : Call σ ε α} {e : ε}
    (hrun : c.run (moves turn).pick s = .error e) (hsame : H s)
    (hhalt : ∀ part, H (c.partly part s)) : Refused moves turn (Prog.perform c) s H := by
  simp only [Refused, Prog.perform, Call.answer, hmoves turn s]
  cases (moves turn).fate with
  | Goes => simp only [hrun]; exact ⟨fun a ha => (by cases ha), hsame⟩
  | Fails part => exact ⟨fun a ha => (by cases ha), hhalt part⟩
  | Stops part => exact ⟨fun a ha => (by cases ha), hhalt part⟩

-- The world after a call and what follows it.
theorem Answers.world {m : Prog σ ε α} {f : α → Prog σ ε β} {P : σ → Prop}
    (h : Answers moves turn m t s a w H)
    (hgo : (moves t).fate = .Goes → P (f a moves (t + 1) w).world)
    (hhalt : (moves t).fate ≠ .Goes → ∀ w, H w → P w) : P ((m >>= f) moves turn s).world := by
  simp only [Bind.bind]
  rcases h with ⟨hgoes, a', ha, rfl, hnext, hw⟩ | ⟨hfail, ⟨e, he⟩, h⟩ | ⟨hstop, ho, h⟩
  · simp only [ha, hnext, hw]
    exact hgo (hgoes t List.mem_cons_self)
  · simp only [he]
    refine hhalt (fun hgoes => ?_) _ h
    rw [FailsFirst, hgoes] at hfail
    exact hfail
  · simp only [ho]
    refine hhalt (fun hgoes => ?_) _ h
    rw [StopsFirst, hgoes] at hstop
    exact hstop

-- The run after a part that passes, by how that part ends.
theorem Passes.cut_throws {m : Prog σ ε α} {f : α → Prog σ ε β} {P : Outcome ε β → σ → Prop}
    {E : ε → Prop} (h : Passes moves turn m turns s A H) (hthrows : Throws E m)
    (hgo : ∀ a next w, AllGo moves turns → A a next w →
      P (f a moves next w).outcome (f a moves next w).world)
    (hfail : ∀ e w, E e → FailsFirst moves turns → H w → P (.Failed e) w)
    (hstop : ∀ w, StopsFirst moves turns → H w → P .Stopped w) :
    P ((m >>= f) moves turn s).outcome ((m >>= f) moves turn s).world := by
  simp only [Bind.bind]
  rcases h with ⟨hgoes, a, ha, h⟩ | ⟨hfails, ⟨e, he⟩, h⟩ | ⟨hstops, ho, h⟩
  · simp only [ha]
    exact hgo a _ _ hgoes h
  · simp only [he]
    exact hfail e _ (hthrows moves turn s e he) hfails h
  · simp only [ho]
    exact hstop _ hstops h

theorem Passes.cut {m : Prog σ ε α} {f : α → Prog σ ε β} {P : Outcome ε β → σ → Prop}
    (h : Passes moves turn m turns s A H)
    (hgo : ∀ a next w, AllGo moves turns → A a next w →
      P (f a moves next w).outcome (f a moves next w).world)
    (hfail : ∀ e w, FailsFirst moves turns → H w → P (.Failed e) w)
    (hstop : ∀ w, StopsFirst moves turns → H w → P .Stopped w) :
    P ((m >>= f) moves turn s).outcome ((m >>= f) moves turn s).world :=
  h.cut_throws (fun _ _ _ _ _ => trivial) hgo (fun e w _ => hfail e w) hstop

-- The run after a call whose failure is caught.
theorem Answers.attempt_cut {m : Prog σ ε α} {f : Except ε α → Prog σ ε β}
    {P : Outcome ε β → σ → Prop} {E : ε → Prop} (h : Answers moves turn m t s a w H)
    (hthrows : Throws E m)
    (hgo : (moves t).fate = .Goes →
      P (f (.ok a) moves (t + 1) w).outcome (f (.ok a) moves (t + 1) w).world)
    (hfail : ∀ e next w, E e → FailsFirst moves [t] → H w →
      P (f (.error e) moves next w).outcome (f (.error e) moves next w).world)
    (hstop : ∀ w, StopsFirst moves [t] → H w → P .Stopped w) :
    P ((m.attempt >>= f) moves turn s).outcome ((m.attempt >>= f) moves turn s).world := by
  simp only [Bind.bind, Prog.attempt, tryCatch, tryCatchThe, MonadExceptOf.tryCatch,
    Functor.map]
  rcases h with ⟨hgoes, a', ha, rfl, hnext, hw⟩ | ⟨hfails, ⟨e, he⟩, h⟩ | ⟨hstops, ho, h⟩
  · simp only [ha, hnext, hw]
    exact hgo (hgoes t List.mem_cons_self)
  · simp only [he]
    exact hfail e _ _ (hthrows moves turn s e he) hfails h
  · simp only [ho]
    exact hstop _ hstops h

theorem Passes.mapError {ε' : Type} {m : Prog σ ε α} (h : Passes moves turn m turns s A H)
    (f : ε → ε') : Passes moves turn (m.mapError f) turns s A H := by
  simp only [Passes, Prog.mapError]
  rcases h with ⟨hgo, a, ha, h⟩ | ⟨hfail, ⟨e, he⟩, h⟩ | ⟨hstop, ho, h⟩
  · exact .inl ⟨hgo, a, by rw [ha], h⟩
  · exact .inr (.inl ⟨hfail, ⟨f e, by rw [he]⟩, h⟩)
  · exact .inr (.inr ⟨hstop, by rw [ho], h⟩)

-- Whether all the calls went through is known with what they leave.
theorem Passes.told {m : Prog σ ε α} (h : Passes moves turn m turns s A H) :
    Passes moves turn m turns s (fun a next w => AllGo moves turns ∧ A a next w)
      fun w => ¬AllGo moves turns ∧ H w := by
  rcases h with ⟨hgo, a, ha, h⟩ | ⟨hfail, he, h⟩ | ⟨hstop, ho, h⟩
  · exact .inl ⟨hgo, a, ha, hgo, h⟩
  · exact .inr (.inl ⟨hfail, he, fun hgo => hgo.not_failsFirst hfail, h⟩)
  · exact .inr (.inr ⟨hstop, ho, fun hgo => hgo.not_stopsFirst hstop, h⟩)

theorem Passes.world {m : Prog σ ε α} {P : σ → Prop} (h : Passes moves turn m turns s A H)
    (hdone : ∀ a turn w, A a turn w → P w) (hhalt : ∀ w, H w → P w) : P (m moves turn s).world := by
  rcases h with ⟨-, a, -, h⟩ | ⟨-, -, h⟩ | ⟨-, -, h⟩
  · exact hdone _ _ _ h
  · exact hhalt _ h
  · exact hhalt _ h

theorem Passes.and_world {m : Prog σ ε α} {P : σ → Prop} (h : Passes moves turn m turns s A H)
    (hworld : P (m moves turn s).world) :
    Passes moves turn m turns s (fun a next w => A a next w ∧ P w) fun w => H w ∧ P w := by
  rcases h with ⟨hgo, a, ha, h⟩ | ⟨hfail, he, h⟩ | ⟨hstop, ho, h⟩
  · exact .inl ⟨hgo, a, ha, h, hworld⟩
  · exact .inr (.inl ⟨hfail, he, h, hworld⟩)
  · exact .inr (.inr ⟨hstop, ho, h, hworld⟩)

-- What a program is known to do when all its calls go through.
theorem Passes.done {m : Prog σ ε α} (h : Passes moves turn m turns s A H)
    (hgo : AllGo moves turns) :
    ∃ a, (m moves turn s).outcome = .Done a ∧ A a (m moves turn s).turn (m moves turn s).world := by
  rcases h with ⟨-, h⟩ | ⟨hfail, -⟩ | ⟨hstop, -⟩
  · exact h
  · exact absurd hfail hgo.not_failsFirst
  · exact absurd hstop hgo.not_stopsFirst

theorem Passes.done_bind {m : Prog σ ε α} {f : α → Prog σ ε β} {P : Outcome ε β → σ → Prop}
    (h : Passes moves turn m turns s A H) (hgo : AllGo moves turns)
    (hf : ∀ a next w, A a next w → P (f a moves next w).outcome (f a moves next w).world) :
    P ((m >>= f) moves turn s).outcome ((m >>= f) moves turn s).world :=
  h.cut (fun a next w _ => hf a next w) (fun _ _ hfail => absurd hfail hgo.not_failsFirst)
    fun _ hstop => absurd hstop hgo.not_stopsFirst

end Passes

end Mediaops
