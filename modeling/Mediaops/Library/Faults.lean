import Mathlib.Tactic.Common

namespace Mediaops

-- Programs that call an outside world which may fail them, and that may be
-- stopped for good at any call. A run also lists its calls, each with the world
-- before and after it, so that a property of every step can be stated.

-- How the environment lets a call end. A call that does not go through may have
-- had a part of its effect.
inductive Fate where
  | Goes
  | Fails (part : Nat)
  | Stops (part : Nat)
  deriving DecidableEq, Repr

-- The environment's turn at one call: what others do to the world just before,
-- how the call ends, and a number for whatever the caller cannot foresee.
structure Move (σ : Type) where
  outside : σ → σ := id
  fate : Fate := .Goes
  pick : Nat := 0

inductive Outcome (ε α : Type) where
  | Done (a : α)
  | Failed (e : ε)
  | Stopped
  deriving DecidableEq, Repr

structure Ran (σ ε α : Type) where
  outcome : Outcome ε α
  world : σ
  calls : List (σ × σ) := []
  turn : Nat

-- The environment's turns are an endless sequence; a run starts at one of them.
def Prog (σ ε α : Type) : Type := (Nat → Move σ) → Nat → σ → Ran σ ε α

structure Call (σ ε α : Type) where
  run : Nat → σ → Except ε (α × σ)
  partly : Nat → σ → σ := fun _ s => s
  fault : ε

namespace Call

variable {σ τ ε α : Type}

def answer (c : Call σ ε α) (move : Move σ) (s : σ) : Outcome ε α × σ :=
  match move.fate with
  | .Goes =>
      match c.run move.pick s with
      | .ok (a, s') => (.Done a, s')
      | .error e => (.Failed e, s)
  | .Fails part => (.Failed c.fault, c.partly part s)
  | .Stops part => (.Stopped, c.partly part s)

-- The same call on a part of a larger world.
def on (get : τ → σ) (set : σ → τ → τ) (c : Call σ ε α) : Call τ ε α where
  run pick t := (c.run pick (get t)).map fun (a, s) => (a, set s t)
  partly part t := set (c.partly part (get t)) t
  fault := c.fault

end Call

namespace Prog

variable {σ ε α β : Type}

instance : Monad (Prog σ ε) where
  pure a := fun _ turn s => { outcome := .Done a, world := s, turn }
  bind m f := fun moves turn s =>
    let first := m moves turn s
    match first.outcome with
    | .Done a =>
        let rest := f a moves first.turn first.world
        { rest with calls := first.calls ++ rest.calls }
    | .Failed e => { first with outcome := .Failed e }
    | .Stopped => { first with outcome := .Stopped }

instance : MonadExceptOf ε (Prog σ ε) where
  throw e := fun _ turn s => { outcome := .Failed e, world := s, turn }
  tryCatch m handle := fun moves turn s =>
    let first := m moves turn s
    match first.outcome with
    | .Failed e =>
        let rest := handle e moves first.turn first.world
        { rest with calls := first.calls ++ rest.calls }
    | _ => first

def perform (c : Call σ ε α) : Prog σ ε α := fun moves turn s =>
  let s := (moves turn).outside s
  let (outcome, s') := c.answer (moves turn) s
  { outcome, world := s', calls := [(s, s')], turn := turn + 1 }

-- A reading of something that no one can foresee, such as a clock.
def pick : Prog σ ε Nat := fun moves turn s =>
  { outcome := .Done (moves turn).pick, world := s, turn := turn + 1 }

-- A part with turns of its own in the sequence, from `turn` on: what the environment
-- does there does not depend on how many calls came before.
def fromTurn (turn : Nat) (m : Prog σ ε α) : Prog σ ε α := fun moves _ s => m moves turn s

-- A program on a part of a larger world, which others leave alone meanwhile. It has
-- `span` turns of the sequence for itself.
def zoom {τ : Type} (get : τ → σ) (set : σ → τ → τ) (span : Nat) (m : Prog σ ε α) : Prog τ ε α :=
  fun moves turn t =>
    let own (n : Nat) : Move σ := { fate := (moves (turn + n)).fate, pick := (moves (turn + n)).pick }
    let ran := m own 0 (get t)
    { outcome := ran.outcome
      world := set ran.world t
      calls := ran.calls.map fun (s, s') => (set s t, set s' t)
      turn := turn + span }

-- The result with its error as a value.
def attempt (m : Prog σ ε α) : Prog σ ε (Except ε α) :=
  tryCatch (.ok <$> m) fun e => pure (.error e)

def mapError {ε' : Type} (f : ε → ε') (m : Prog σ ε α) : Prog σ ε' α := fun moves turn s =>
  let ran := m moves turn s
  { ran with
    outcome := match ran.outcome with
      | .Done a => .Done a
      | .Failed e => .Failed (f e)
      | .Stopped => .Stopped }

def lift : Except ε α → Prog σ ε α
  | .ok a => pure a
  | .error e => throw e

theorem bind_assoc {γ : Type} (m : Prog σ ε α) (f : α → Prog σ ε β) (g : β → Prog σ ε γ) :
    m >>= f >>= g = m >>= fun a => f a >>= g := by
  funext moves turn s
  simp only [Bind.bind]
  cases (m moves turn s).outcome with
  | Done a =>
      dsimp only
      cases (f a moves (m moves turn s).turn (m moves turn s).world).outcome with
      | Done b => simp only [List.append_assoc]
      | Failed e => rfl
      | Stopped => rfl
  | Failed e => rfl
  | Stopped => rfl

theorem pure_bind (a : α) (f : α → Prog σ ε β) : pure a >>= f = f a := rfl

theorem lift_ok_bind (a : α) (f : α → Prog σ ε β) : lift (.ok a) >>= f = f a := rfl

theorem lift_error_bind (e : ε) (f : α → Prog σ ε β) : lift (.error e) >>= f = throw e := rfl

end Prog

-- Every call keeps to `guar`, given the calls before it.
def Kept {σ : Type} (guar : List (σ × σ) → σ → σ → Prop) : List (σ × σ) → List (σ × σ) → Prop
  | _, [] => True
  | past, call :: calls => guar past call.1 call.2 ∧ Kept guar (past ++ [call]) calls

section Kept

variable {σ : Type} {guar : List (σ × σ) → σ → σ → Prop}

theorem kept_append {past first rest : List (σ × σ)} :
    Kept guar past (first ++ rest) ↔ Kept guar past first ∧ Kept guar (past ++ first) rest := by
  induction first generalizing past with
  | nil => simp [Kept]
  | cons call first ih => simp [Kept, ih, and_assoc]

-- The call at any place of a list that keeps to `guar`.
theorem Kept.split {past first rest : List (σ × σ)} {call : σ × σ}
    (h : Kept guar past (first ++ call :: rest)) : guar (past ++ first) call.1 call.2 :=
  (kept_append.mp h).2.1

theorem kept_both {guar₁ guar₂ : List (σ × σ) → σ → σ → Prop} {past calls : List (σ × σ)}
    (hguar : ∀ past s s', guar₁ past s s' → guar₂ past s s' → guar past s s')
    (h₁ : Kept guar₁ past calls) (h₂ : Kept guar₂ past calls) : Kept guar past calls := by
  induction calls generalizing past with
  | nil => trivial
  | cons call calls ih => exact ⟨hguar _ _ _ h₁.1 h₂.1, ih h₁.2 h₂.2⟩

theorem Kept.mem {past calls : List (σ × σ)} (h : Kept guar past calls) {call : σ × σ}
    (hcall : call ∈ calls) : ∃ before, guar before call.1 call.2 := by
  obtain ⟨first, rest, rfl⟩ := List.append_of_mem hcall
  exact ⟨past ++ first, h.split⟩

end Kept

-- What the two sides of a run owe each other.
structure Terms (σ : Type) where
  allowed : Move σ → Prop
  guar : List (σ × σ) → σ → σ → Prop

abbrev Post (σ ε α : Type) : Type := Outcome ε α → List (σ × σ) → σ → Prop

namespace Post

variable {σ ε α β : Type}

-- One condition for the result and one for every other end of the run.
def ends (done : α → List (σ × σ) → σ → Prop) (halt : List (σ × σ) → σ → Prop) : Post σ ε α
  | .Done a => done a
  | .Failed _ => halt
  | .Stopped => halt

-- The condition on the first of two programs.
def andThen (next : α → List (σ × σ) → σ → Prop) (Q : Post σ ε β) : Post σ ε α
  | .Done a => next a
  | .Failed e => Q (.Failed e)
  | .Stopped => Q .Stopped

end Post

-- `wp T m Q past s`: from the world `s`, after the calls `past`, every run of `m`
-- under `T` keeps to its part of `T` and ends in `Q`.
def wp {σ ε α : Type} (T : Terms σ) (m : Prog σ ε α) (Q : Post σ ε α) (past : List (σ × σ))
    (s : σ) : Prop :=
  ∀ moves turn, (∀ n, T.allowed (moves n)) →
    Kept T.guar past (m moves turn s).calls ∧
      Q (m moves turn s).outcome (past ++ (m moves turn s).calls) (m moves turn s).world

section Rules

variable {σ ε α β : Type} {T : Terms σ} {past : List (σ × σ)} {s : σ}

theorem wp_mono {m : Prog σ ε α} {Q Q' : Post σ ε α} (h : wp T m Q past s)
    (hpost : ∀ o past s, Q o past s → Q' o past s) : wp T m Q' past s := by
  intro moves turn hmoves
  obtain ⟨hkept, hq⟩ := h moves turn hmoves
  exact ⟨hkept, hpost _ _ _ hq⟩

theorem wp_pure {a : α} {Q : Post σ ε α} (h : Q (.Done a) past s) :
    wp T (pure a : Prog σ ε α) Q past s := by
  intro moves turn _
  refine ⟨trivial, ?_⟩
  show Q (.Done a) (past ++ []) s
  rwa [List.append_nil]

theorem wp_throw {e : ε} {Q : Post σ ε α} (h : Q (.Failed e) past s) :
    wp T (throw e : Prog σ ε α) Q past s := by
  intro moves turn _
  refine ⟨trivial, ?_⟩
  show Q (.Failed e) (past ++ []) s
  rwa [List.append_nil]

theorem wp_pick {Q : Post σ ε Nat} (h : ∀ n, Q (.Done n) past s) :
    wp T (Prog.pick : Prog σ ε Nat) Q past s := by
  intro moves turn _
  refine ⟨trivial, ?_⟩
  show Q (.Done (moves turn).pick) (past ++ []) s
  rw [List.append_nil]
  exact h _

theorem wp_lift {x : Except ε α} {Q : Post σ ε α} (hok : ∀ a, x = .ok a → Q (.Done a) past s)
    (herr : ∀ e, x = .error e → Q (.Failed e) past s) : wp T (Prog.lift x) Q past s := by
  cases x with
  | ok a => exact wp_pure (hok a rfl)
  | error e => exact wp_throw (herr e rfl)

theorem wp_bind {m : Prog σ ε α} {f : α → Prog σ ε β} {Q : Post σ ε β}
    (h : wp T m (.andThen (fun a => wp T (f a) Q) Q) past s) : wp T (m >>= f) Q past s := by
  intro moves turn hmoves
  obtain ⟨hkept, hq⟩ := h moves turn hmoves
  simp only [bind]
  cases ho : (m moves turn s).outcome with
  | Done a =>
      rw [ho] at hq
      obtain ⟨hrest, hq'⟩ := hq moves (m moves turn s).turn hmoves
      refine ⟨kept_append.mpr ⟨hkept, hrest⟩, ?_⟩
      simpa using hq'
  | Failed e => rw [ho] at hq; exact ⟨hkept, hq⟩
  | Stopped => rw [ho] at hq; exact ⟨hkept, hq⟩

theorem wp_catch {m : Prog σ ε α} {handle : ε → Prog σ ε α} {Q : Post σ ε α}
    (h : wp T m (fun o => match o with
      | .Failed e => wp T (handle e) Q
      | o => Q o) past s) : wp T (tryCatch m handle) Q past s := by
  intro moves turn hmoves
  obtain ⟨hkept, hq⟩ := h moves turn hmoves
  simp only [tryCatch, tryCatchThe, MonadExceptOf.tryCatch]
  cases ho : (m moves turn s).outcome with
  | Done a => rw [ho] at hq; simp only [ho]; exact ⟨hkept, hq⟩
  | Failed e =>
      rw [ho] at hq
      obtain ⟨hrest, hq'⟩ := hq moves (m moves turn s).turn hmoves
      refine ⟨kept_append.mpr ⟨hkept, hrest⟩, ?_⟩
      simpa using hq'
  | Stopped => rw [ho] at hq; simp only [ho]; exact ⟨hkept, hq⟩

theorem wp_attempt {m : Prog σ ε α} {Q : Post σ ε (Except ε α)}
    (h : wp T m (fun o => match o with
      | .Done a => Q (.Done (.ok a))
      | .Failed e => Q (.Done (.error e))
      | .Stopped => Q .Stopped) past s) : wp T m.attempt Q past s := by
  apply wp_catch
  apply wp_bind
  apply wp_mono h
  rintro (a | e | _) past s hq
  · exact wp_pure hq
  · exact wp_pure hq
  · exact hq

theorem wp_mapError {ε' : Type} {f : ε → ε'} {m : Prog σ ε α} {Q : Post σ ε' α}
    (h : wp T m (fun o => match o with
      | .Done a => Q (.Done a)
      | .Failed e => Q (.Failed (f e))
      | .Stopped => Q .Stopped) past s) : wp T (m.mapError f) Q past s := by
  intro moves turn hmoves
  obtain ⟨hkept, hq⟩ := h moves turn hmoves
  simp only [Prog.mapError]
  cases ho : (m moves turn s).outcome with
  | Done a => rw [ho] at hq; exact ⟨hkept, hq⟩
  | Failed e => rw [ho] at hq; exact ⟨hkept, hq⟩
  | Stopped => rw [ho] at hq; exact ⟨hkept, hq⟩

theorem wp_fromTurn {first : Nat} {m : Prog σ ε α} {Q : Post σ ε α} (h : wp T m Q past s) :
    wp T (m.fromTurn first) Q past s :=
  fun moves _ hmoves => h moves first hmoves

-- One call: whatever the environment allows itself, the call keeps to its part.
theorem wp_perform {c : Call σ ε α} {Q : Post σ ε α}
    (h : ∀ move, T.allowed move → ∀ s₀ o s₁, s₀ = move.outside s → c.answer move s₀ = (o, s₁) →
      T.guar past s₀ s₁ ∧ Q o (past ++ [(s₀, s₁)]) s₁) : wp T (Prog.perform c) Q past s := by
  intro moves turn hmoves
  obtain ⟨hguar, hq⟩ := h (moves turn) (hmoves turn) _ _ _ rfl rfl
  exact ⟨⟨hguar, trivial⟩, hq⟩

end Rules

-- From a world in `P` the program ends with a result in `A`, or fails or is stopped
-- in `H`. Conditions speak of what `view` shows of the world and the calls so far.
def Runs {σ X ε α : Type} (view : List (σ × σ) → σ → X) (T : Terms σ) (P : X → Prop)
    (m : Prog σ ε α) (A : α → X → Prop) (H : X → Prop) : Prop :=
  ∀ past s, P (view past s) →
    wp T m (.ends (fun a past s => A a (view past s)) fun past s => H (view past s)) past s

section Runs

variable {σ X ε α β : Type} {view : List (σ × σ) → σ → X} {T : Terms σ} {P P' : X → Prop}
  {A A' : α → X → Prop} {H H' : X → Prop}

theorem Runs.mono {m : Prog σ ε α} (h : Runs view T P m A H) (hpre : ∀ x, P' x → P x)
    (hpost : ∀ a x, A a x → A' a x) (hhalt : ∀ x, H x → H' x) : Runs view T P' m A' H' := by
  intro past s hs
  apply wp_mono (h past s (hpre _ hs))
  rintro (a | e | _) past s ho
  · exact hpost a _ ho
  · exact hhalt _ ho
  · exact hhalt _ ho

-- A fact that the precondition settles for good.
theorem Runs.of_pre {m : Prog σ ε α} {p : Prop} (hp : ∀ x, P x → p)
    (h : p → Runs view T P m A H) : Runs view T P m A H :=
  fun past s hs => h (hp _ hs) past s hs

theorem runs_exists {ι : Type} {m : Prog σ ε α} {P : ι → X → Prop}
    (h : ∀ i, Runs view T (P i) m A H) : Runs view T (fun x => ∃ i, P i x) m A H := by
  rintro past s ⟨i, hi⟩
  exact h i past s hi

theorem Runs.or {m : Prog σ ε α} (h : Runs view T P m A H) (h' : Runs view T P' m A H) :
    Runs view T (fun x => P x ∨ P' x) m A H := by
  rintro past s (hs | hs)
  · exact h past s hs
  · exact h' past s hs

-- Two sides of a result, proved one by one.
theorem Runs.both {m : Prog σ ε α} (h : Runs view T P m A H) (h' : Runs view T P m A' H') :
    Runs view T P m (fun a x => A a x ∧ A' a x) (fun x => H x ∧ H' x) := by
  intro past s hs moves turn hmoves
  obtain ⟨hkept, hpost⟩ := h past s hs moves turn hmoves
  have hpost' := (h' past s hs moves turn hmoves).2
  refine ⟨hkept, ?_⟩
  cases ho : (m moves turn s).outcome with
  | Done a =>
      rw [ho] at hpost hpost'
      exact ⟨hpost, hpost'⟩
  | Failed e =>
      rw [ho] at hpost hpost'
      exact ⟨hpost, hpost'⟩
  | Stopped =>
      rw [ho] at hpost hpost'
      exact ⟨hpost, hpost'⟩

theorem runs_pure {a : α} (h : ∀ x, P x → A a x) : Runs view T P (pure a : Prog σ ε α) A H :=
  fun _ _ hs => wp_pure (h _ hs)

theorem runs_throw {e : ε} (h : ∀ x, P x → H x) : Runs view T P (throw e : Prog σ ε α) A H :=
  fun _ _ hs => wp_throw (h _ hs)

theorem runs_pick {A : Nat → X → Prop} (h : ∀ n x, P x → A n x) :
    Runs view T P (Prog.pick : Prog σ ε Nat) A H :=
  fun _ _ hs => wp_pick fun n => h n _ hs

theorem runs_lift {x : Except ε α} (hok : ∀ a, x = .ok a → ∀ y, P y → A a y)
    (herr : ∀ y, P y → H y) : Runs view T P (Prog.lift x : Prog σ ε α) A H :=
  fun _ _ hs => wp_lift (fun a ha => hok a ha _ hs) (fun _ _ => herr _ hs)

theorem Runs.bind {m : Prog σ ε α} {f : α → Prog σ ε β} {B : β → X → Prop}
    (h : Runs view T P m A H) (hf : ∀ a, Runs view T (A a) (f a) B H) :
    Runs view T P (m >>= f) B H := by
  intro past s hs
  apply wp_bind
  apply wp_mono (h past s hs)
  rintro (a | e | _) past s ho
  · exact hf a past s ho
  · exact ho
  · exact ho

theorem Runs.attempt {m : Prog σ ε α} {B : Except ε α → X → Prop}
    (h : Runs view T P m (fun a => B (.ok a)) fun x => H x ∧ ∀ e, B (.error e) x) :
    Runs view T P m.attempt B H := by
  intro past s hs
  apply wp_attempt
  apply wp_mono (h past s hs)
  rintro (a | e | _) past s ho
  · exact ho
  · exact ho.2 e
  · exact ho.1

theorem Runs.mapError {ε' : Type} {f : ε → ε'} {m : Prog σ ε α} (h : Runs view T P m A H) :
    Runs view T P (m.mapError f) A H := by
  intro past s hs
  apply wp_mapError
  apply wp_mono (h past s hs)
  rintro (a | e | _) past s ho
  · exact ho
  · exact ho
  · exact ho

theorem runs_ite {c : Prop} [Decidable c] {m m' : Prog σ ε α} (hpos : c → Runs view T P m A H)
    (hneg : ¬c → Runs view T P m' A H) : Runs view T P (if c then m else m') A H := by
  by_cases hc : c
  · rw [if_pos hc]; exact hpos hc
  · rw [if_neg hc]; exact hneg hc

theorem kept_trivial {guar : List (σ × σ) → σ → σ → Prop} (h : ∀ past s s', guar past s s')
    (past calls : List (σ × σ)) : Kept guar past calls := by
  induction calls generalizing past with
  | nil => trivial
  | cons call calls ih => exact ⟨h _ _ _, ih _⟩

theorem runs_zoom {τ : Type} {T : Terms τ} {get : τ → σ} {set : σ → τ → τ} {span : Nat}
    {m : Prog σ ε α} {P : τ → Prop} {A : α → τ → Prop} {H : τ → Prop}
    (hguar : ∀ past t t', T.guar past t t')
    (h : ∀ t, P t → ∀ moves : Nat → Move σ, (∀ n s, (moves n).outside s = s) →
      (∀ a, (m moves 0 (get t)).outcome = .Done a → A a (set (m moves 0 (get t)).world t)) ∧
      ((∀ a, (m moves 0 (get t)).outcome ≠ .Done a) → H (set (m moves 0 (get t)).world t))) :
    Runs (fun _ t => t) T P (m.zoom get set span) A H := by
  intro past t ht moves turn _
  refine ⟨kept_trivial hguar _ _, ?_⟩
  obtain ⟨hdone, hhalt⟩ := h t ht
    (fun n => { fate := (moves (turn + n)).fate, pick := (moves (turn + n)).pick }) fun _ _ => rfl
  simp only [Prog.zoom]
  cases ho : (m (fun n => { fate := (moves (turn + n)).fate, pick := (moves (turn + n)).pick }) 0
      (get t)).outcome with
  | Done a => exact hdone a ho
  | Failed e => exact hhalt fun a hdone => by rw [ho] at hdone; cases hdone
  | Stopped => exact hhalt fun a hdone => by rw [ho] at hdone; cases hdone

-- A check that fails the program or lets it go on.
theorem runs_guard {c : Prop} [Decidable c] {e : ε} {f : Unit → Prog σ ε α}
    (hhalt : ∀ x, P x → H x) (h : ¬c → Runs view T P (f ()) A H) :
    Runs view T P (if c then throw e >>= f else f ()) A H := by
  apply runs_ite
  · intro _
    exact (runs_throw hhalt).bind (A := fun _ _ => False) fun _ _ _ h => h.elim
  · exact h

end Runs

-- Whatever the environment does, an error of the program is one of these.
def Throws {σ ε α : Type} (errors : ε → Prop) (m : Prog σ ε α) : Prop :=
  ∀ moves turn s e, (m moves turn s).outcome = .Failed e → errors e

section Throws

variable {σ ε α β : Type} {errors : ε → Prop}

theorem throws_pure (a : α) : Throws errors (pure a : Prog σ ε α) := by
  intro moves turn s e h
  cases h

theorem throws_throw {e : ε} (he : errors e) : Throws errors (throw e : Prog σ ε α) := by
  intro moves turn s e' h
  cases h
  exact he

theorem Throws.mono {errors' : ε → Prop} {m : Prog σ ε α} (h : Throws errors m)
    (hle : ∀ e, errors e → errors' e) : Throws errors' m :=
  fun moves turn s e hran => hle e (h moves turn s e hran)

theorem Throws.bind {m : Prog σ ε α} {f : α → Prog σ ε β} (h : Throws errors m)
    (hf : ∀ a, Throws errors (f a)) : Throws errors (m >>= f) := by
  intro moves turn s e hran
  simp only [Bind.bind] at hran
  cases ho : (m moves turn s).outcome with
  | Done a => rw [ho] at hran; exact hf a moves _ _ e hran
  | Failed e' => rw [ho] at hran; cases hran; exact h moves turn s _ ho
  | Stopped => rw [ho] at hran; cases hran

theorem throws_attempt (m : Prog σ ε α) : Throws errors m.attempt := by
  intro moves turn s e hran
  simp only [Prog.attempt, tryCatch, tryCatchThe, MonadExceptOf.tryCatch, Functor.map] at hran
  cases ho : (m moves turn s).outcome <;> rw [ho] at hran <;> cases hran

-- What was caught is known to the handler.
theorem Throws.attempt_bind {caught : ε → Prop} {m : Prog σ ε α} {f : Except ε α → Prog σ ε β}
    (h : Throws caught m) (hok : ∀ a, Throws errors (f (.ok a)))
    (herr : ∀ e, caught e → Throws errors (f (.error e))) : Throws errors (m.attempt >>= f) := by
  intro moves turn s e hran
  simp only [Bind.bind, Prog.attempt, tryCatch, tryCatchThe, MonadExceptOf.tryCatch,
    Functor.map] at hran
  cases ho : (m moves turn s).outcome with
  | Done a => rw [ho] at hran; exact hok a moves _ _ e hran
  | Failed e' => rw [ho] at hran; exact herr e' (h moves turn s e' ho) moves _ _ e hran
  | Stopped => rw [ho] at hran; cases hran

theorem Throws.mapError {ε' : Type} {errors' : ε' → Prop} {f : ε → ε'} {m : Prog σ ε α}
    (h : Throws errors m) (hf : ∀ e, errors e → errors' (f e)) : Throws errors' (m.mapError f) := by
  intro moves turn s e hran
  simp only [Prog.mapError] at hran
  cases ho : (m moves turn s).outcome with
  | Done a => rw [ho] at hran; cases hran
  | Failed e' => rw [ho] at hran; cases hran; exact hf _ (h moves turn s _ ho)
  | Stopped => rw [ho] at hran; cases hran

theorem Throws.fromTurn {m : Prog σ ε α} (h : Throws errors m) (turn : Nat) :
    Throws errors (m.fromTurn turn) :=
  fun moves _ s e hran => h moves turn s e hran

theorem throws_ite {c : Prop} [Decidable c] {m m' : Prog σ ε α} (h : Throws errors m)
    (h' : Throws errors m') : Throws errors (if c then m else m') := by
  by_cases hc : c
  · rw [if_pos hc]; exact h
  · rw [if_neg hc]; exact h'

theorem throws_guard {c : Prop} [Decidable c] {e : ε} {f : Unit → Prog σ ε α} (he : errors e)
    (h : Throws errors (f ())) : Throws errors (if c then throw e >>= f else f ()) := by
  apply throws_ite
  · intro moves turn s e' hran
    cases hran
    exact he
  · exact h

theorem throws_perform {c : Call σ ε α} (hfault : errors c.fault)
    (hrun : ∀ pick s e, c.run pick s = .error e → errors e) : Throws errors (Prog.perform c) := by
  intro moves turn s e hran
  simp only [Prog.perform, Call.answer] at hran
  split at hran
  · split at hran
    · cases hran
    · rename_i e' he
      cases hran
      exact hrun _ _ _ he
  · cases hran; exact hfault
  · cases hran

end Throws

-- Wherever it starts, every call of the program keeps to its part of `T`.
def Safe {σ ε α : Type} (T : Terms σ) (m : Prog σ ε α) : Prop :=
  ∀ past s, wp T m (fun _ _ _ => True) past s

section Safe

variable {σ X ε α β : Type} {T : Terms σ}

theorem safe_pure (a : α) : Safe T (pure a : Prog σ ε α) := fun _ _ => wp_pure trivial

theorem safe_throw (e : ε) : Safe T (throw e : Prog σ ε α) := fun _ _ => wp_throw trivial

theorem safe_pick : Safe T (Prog.pick : Prog σ ε Nat) := fun _ _ => wp_pick fun _ => trivial

theorem safe_lift (x : Except ε α) : Safe T (Prog.lift x : Prog σ ε α) :=
  fun _ _ => wp_lift (fun _ _ => trivial) fun _ _ => trivial

theorem Safe.bind {m : Prog σ ε α} {f : α → Prog σ ε β} (h : Safe T m) (hf : ∀ a, Safe T (f a)) :
    Safe T (m >>= f) := by
  intro past s
  apply wp_bind
  apply wp_mono (h past s)
  rintro (a | e | _) past s -
  · exact hf a past s
  · trivial
  · trivial

theorem Safe.attempt {m : Prog σ ε α} (h : Safe T m) : Safe T m.attempt := by
  intro past s
  apply wp_attempt
  apply wp_mono (h past s)
  rintro (a | e | _) past s - <;> trivial

theorem Safe.mapError {ε' : Type} {f : ε → ε'} {m : Prog σ ε α} (h : Safe T m) :
    Safe T (m.mapError f) := by
  intro past s
  apply wp_mapError
  apply wp_mono (h past s)
  rintro (a | e | _) past s - <;> trivial

-- Two sides of a duty, proved one by one.
theorem Safe.both {T₁ T₂ : Terms σ} {m : Prog σ ε α} (h₁ : Safe T₁ m) (h₂ : Safe T₂ m)
    (hallowed : ∀ move, T.allowed move → T₁.allowed move ∧ T₂.allowed move)
    (hguar : ∀ past s s', T₁.guar past s s' → T₂.guar past s s' → T.guar past s s') : Safe T m := by
  intro past s moves turn hmoves
  have hfirst := (h₁ past s moves turn fun n => (hallowed _ (hmoves n)).1).1
  have hsecond := (h₂ past s moves turn fun n => (hallowed _ (hmoves n)).2).1
  exact ⟨kept_both hguar hfirst hsecond, trivial⟩

theorem safe_ite {c : Prop} [Decidable c] {m m' : Prog σ ε α} (hpos : Safe T m)
    (hneg : Safe T m') : Safe T (if c then m else m') := by
  by_cases hc : c
  · rw [if_pos hc]; exact hpos
  · rw [if_neg hc]; exact hneg

theorem safe_guard {c : Prop} [Decidable c] {e : ε} {f : Unit → Prog σ ε α} (h : Safe T (f ())) :
    Safe T (if c then throw e >>= f else f ()) :=
  safe_ite ((safe_throw e).bind fun _ => h) h

theorem safe_perform {c : Call σ ε α}
    (h : ∀ past move s, T.allowed move → T.guar past s (c.answer move s).2) :
    Safe T (Prog.perform c) := by
  intro past s
  apply wp_perform
  rintro move hmove s₀ o s₁ rfl hanswer
  have hkept := h past move (move.outside s) hmove
  rw [hanswer] at hkept
  exact ⟨hkept, trivial⟩

-- A call that changes nothing.
theorem safe_reading {c : Call σ ε α} (hidle : ∀ past s, T.guar past s s)
    (hrun : ∀ pick s a s', c.run pick s = .ok (a, s') → s' = s)
    (hpart : ∀ part s, c.partly part s = s) : Safe T (Prog.perform c) := by
  apply safe_perform
  intro past move s _
  have hsame : (c.answer move s).2 = s := by
    unfold Call.answer
    split
    · split
      · rename_i a s' h
        exact hrun _ _ _ _ h
      · rfl
    · exact hpart _ _
    · exact hpart _ _
  rw [hsame]
  exact hidle past s

theorem Runs.safe {view : List (σ × σ) → σ → X} {m : Prog σ ε α} {A : α → X → Prop} {H : X → Prop}
    (h : Runs view T (fun _ => True) m A H) : Safe T m :=
  fun past s => wp_mono (h past s trivial) fun _ _ _ _ => trivial

theorem Safe.runs {m : Prog σ ε α} (h : Safe T m) (view : List (σ × σ) → σ → X) (P : X → Prop) :
    Runs view T P m (fun _ _ => True) fun _ => True := by
  intro past s _
  apply wp_mono (h past s)
  rintro (a | e | _) past s - <;> trivial

-- What was true of the calls before stays true of them.
theorem Runs.frame {m : Prog σ ε α} {P : List (σ × σ) × σ → Prop}
    {A : α → List (σ × σ) × σ → Prop} {H : List (σ × σ) × σ → Prop} (h : Runs Prod.mk T P m A H)
    {K : List (σ × σ) → Prop} (hK : ∀ past calls, K past → K (past ++ calls)) :
    Runs Prod.mk T (fun x => K x.1 ∧ P x) m (fun a x => K x.1 ∧ A a x) fun x => K x.1 ∧ H x := by
  rintro past s ⟨hpast, hs⟩ moves turn hmoves
  obtain ⟨hkept, hq⟩ := h past s hs moves turn hmoves
  refine ⟨hkept, ?_⟩
  cases ho : (m moves turn s).outcome with
  | Done a => rw [ho] at hq; exact ⟨hK _ _ hpast, hq⟩
  | Failed e => rw [ho] at hq; exact ⟨hK _ _ hpast, hq⟩
  | Stopped => rw [ho] at hq; exact ⟨hK _ _ hpast, hq⟩

theorem Safe.keeps {m : Prog σ ε α} (h : Safe T m) {K : List (σ × σ) → Prop}
    (hK : ∀ past calls, K past → K (past ++ calls)) :
    Runs Prod.mk T (fun x => K x.1) m (fun _ x => K x.1) fun _ => True :=
  ((h.runs Prod.mk fun _ => True).frame hK).mono (fun _ hx => ⟨hx, trivial⟩) (fun _ _ hx => hx.1)
    fun _ _ => trivial

end Safe

-- Whatever the environment does while it leaves `f` alone, the program leaves it alone.
def Disregards {σ X ε α : Type} (f : σ → X) (m : Prog σ ε α) : Prop :=
  ∀ moves turn s, (∀ n s, f ((moves n).outside s) = f s) → f (m moves turn s).world = f s

section Disregards

variable {σ X ε α β : Type} {f : σ → X}

theorem disregards_pure (a : α) : Disregards f (pure a : Prog σ ε α) := fun _ _ _ _ => rfl

theorem disregards_throw (e : ε) : Disregards f (throw e : Prog σ ε α) := fun _ _ _ _ => rfl

theorem disregards_throw_bind (e : ε) (g : α → Prog σ ε β) : Disregards f (throw e >>= g) :=
  fun _ _ _ _ => rfl

theorem disregards_lift (x : Except ε α) : Disregards f (Prog.lift x : Prog σ ε α) := by
  cases x with
  | ok a => exact disregards_pure a
  | error e => exact disregards_throw e

theorem Disregards.bind {m : Prog σ ε α} {g : α → Prog σ ε β} (h : Disregards f m)
    (hg : ∀ a, Disregards f (g a)) : Disregards f (m >>= g) := by
  intro moves turn s hmoves
  have hfirst := h moves turn s hmoves
  simp only [Bind.bind]
  cases (m moves turn s).outcome with
  | Done a => exact (hg a moves _ _ hmoves).trans hfirst
  | Failed e => exact hfirst
  | Stopped => exact hfirst

theorem Disregards.mapError {ε' : Type} {g : ε → ε'} {m : Prog σ ε α} (h : Disregards f m) :
    Disregards f (m.mapError g) :=
  fun moves turn s hmoves => h moves turn s hmoves

theorem Disregards.attempt {m : Prog σ ε α} (h : Disregards f m) : Disregards f m.attempt := by
  intro moves turn s hmoves
  have hfirst := h moves turn s hmoves
  simp only [Prog.attempt, tryCatch, tryCatchThe, MonadExceptOf.tryCatch, Functor.map]
  cases (m moves turn s).outcome with
  | Done a => exact hfirst
  | Failed e => exact hfirst
  | Stopped => exact hfirst

theorem disregards_ite {c : Prop} [Decidable c] {m m' : Prog σ ε α} (h : Disregards f m)
    (h' : Disregards f m') : Disregards f (if c then m else m') := by
  by_cases hc : c
  · rw [if_pos hc]
    exact h
  · rw [if_neg hc]
    exact h'

theorem disregards_guard {c : Prop} [Decidable c] {e : ε} {g : Unit → Prog σ ε α}
    (h : Disregards f (g ())) : Disregards f (if c then throw e >>= g else g ()) :=
  disregards_ite (disregards_throw_bind e g) h

theorem disregards_perform {c : Call σ ε α} (hrun : ∀ pick s a s', c.run pick s = .ok (a, s') → f s' = f s)
    (hpart : ∀ part s, f (c.partly part s) = f s) : Disregards f (Prog.perform c) := by
  intro moves turn s hmoves
  have hanswer : ∀ s, f (c.answer (moves turn) s).2 = f s := by
    intro s
    unfold Call.answer
    split
    · split
      · next hok => exact hrun _ _ _ _ hok
      · rfl
    · exact hpart _ _
    · exact hpart _ _
  exact (hanswer _).trans (hmoves turn s)

-- A fact about `f` holds after such a program if it did before.
theorem Runs.disregarding {T : Terms σ} {m : Prog σ ε α} {P H : σ → Prop} {A : α → σ → Prop}
    (h : Runs (fun _ s => s) T P m A H) (hm : Disregards f m)
    (hallowed : ∀ move, T.allowed move → ∀ s, f (move.outside s) = f s) (p : X → Prop) :
    Runs (fun _ s => s) T (fun s => P s ∧ p (f s)) m (fun a s => A a s ∧ p (f s)) fun s => H s ∧ p (f s) := by
  rintro past s ⟨hs, hp⟩ moves turn hmoves
  obtain ⟨hkept, hpost⟩ := h past s hs moves turn hmoves
  have hsame : p (f (m moves turn s).world) := by
    rw [hm moves turn s fun n => hallowed _ (hmoves n)]
    exact hp
  refine ⟨hkept, ?_⟩
  cases ho : (m moves turn s).outcome with
  | Done a => rw [ho] at hpost; exact ⟨hpost, hsame⟩
  | Failed e => rw [ho] at hpost; exact ⟨hpost, hsame⟩
  | Stopped => rw [ho] at hpost; exact ⟨hpost, hsame⟩

end Disregards

end Mediaops
