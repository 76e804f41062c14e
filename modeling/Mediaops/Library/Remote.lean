import Mediaops.Library.Faults

namespace Mediaops.Remote

-- Requests to a remote party that keeps a state, and the log of them.

section

variable {σ ρ α : Type}

structure Wire (σ ρ α : Type) where
  state : σ
  log : List (ρ × Option α) := []

-- A request that comes to nothing may have been served all the same.
def send {ε : Type} (serve : ρ → σ → α × σ) (fault : ε) (request : ρ) : Call (Wire σ ρ α) ε α where
  run _ wire :=
    let (answer, state) := serve request wire.state
    .ok (answer, { state, log := wire.log ++ [(request, some answer)] })
  partly part wire :=
    { state := if part = 0 then wire.state else (serve request wire.state).2
      log := wire.log ++ [(request, none)] }
  fault

-- Nobody else changes the state. Each request gets its answer, or it may get none.
def alone (answered : Prop) : Terms (Wire σ ρ α) where
  allowed move := move.outside = id ∧ (answered → move.fate = .Goes)
  guar _ _ _ := True

abbrev Served {ε β : Type} (answered : Prop) (P : Wire σ ρ α → Prop) (m : Prog (Wire σ ρ α) ε β)
    (A : β → Wire σ ρ α → Prop) (H : Wire σ ρ α → Prop) : Prop :=
  Runs (fun _ wire => wire) (alone answered) P m A H

variable {ε β : Type} {answered : Prop} {serve : ρ → σ → α × σ} {fault : ε} {request : ρ}
  {P H : Wire σ ρ α → Prop} {A : α → Wire σ ρ α → Prop}

theorem served_send
    (hgoes : ∀ wire, P wire → A (serve request wire.state).1
      { state := (serve request wire.state).2
        log := wire.log ++ [(request, some (serve request wire.state).1)] })
    (hfails : ¬answered → ∀ wire, P wire →
      H { wire with log := wire.log ++ [(request, none)] } ∧
        H { state := (serve request wire.state).2, log := wire.log ++ [(request, none)] }) :
    Served answered P (Prog.perform (send serve fault request)) A H := by
  intro past wire hwire
  apply wp_perform
  intro move hmove start outcome after hstart hanswer
  obtain rfl : wire = start := by rw [hstart, hmove.1, id]
  refine ⟨trivial, ?_⟩
  have hpartly : move.fate ≠ .Goes → ∀ part, H ((send serve fault request).partly part wire) := by
    intro hfate part
    obtain ⟨hunserved, hserved⟩ := hfails (fun hall => hfate (hmove.2 hall)) wire hwire
    unfold send
    by_cases hpart : part = 0
    · simpa only [hpart, if_true] using hunserved
    · simpa only [hpart, if_false] using hserved
  unfold Call.answer at hanswer
  cases hfate : move.fate with
  | Goes =>
      rw [hfate] at hanswer
      obtain ⟨rfl, rfl⟩ := Prod.mk.inj hanswer
      exact hgoes wire hwire
  | Fails part =>
      rw [hfate] at hanswer
      obtain ⟨rfl, rfl⟩ := Prod.mk.inj hanswer
      exact hpartly (by rw [hfate]; exact Fate.noConfusion) part
  | Stops part =>
      rw [hfate] at hanswer
      obtain ⟨rfl, rfl⟩ := Prod.mk.inj hanswer
      exact hpartly (by rw [hfate]; exact Fate.noConfusion) part

-- From the rules to a run.
theorem served_run {m : Prog (Wire σ ρ α) ε β} {B : β → Wire σ ρ α → Prop}
    (h : Served answered P m B H) {moves : Nat → Move (Wire σ ρ α)}
    (hmoves : ∀ n, (alone answered).allowed (moves n)) (turn : Nat) {wire : Wire σ ρ α}
    (hwire : P wire) :
    (∀ b, (m moves turn wire).outcome = .Done b → B b (m moves turn wire).world) ∧
      ((∀ b, (m moves turn wire).outcome ≠ .Done b) → H (m moves turn wire).world) := by
  have hpost := (h [] wire hwire moves turn hmoves).2
  cases ho : (m moves turn wire).outcome with
  | Done b =>
      rw [ho] at hpost
      refine ⟨fun b' hb => ?_, fun hnone => absurd rfl (hnone b)⟩
      cases hb
      exact hpost
  | Failed e =>
      rw [ho] at hpost
      exact ⟨fun b hb => (nomatch hb), fun _ => hpost⟩
  | Stopped =>
      rw [ho] at hpost
      exact ⟨fun b hb => (nomatch hb), fun _ => hpost⟩

section Timed

-- The call that is under way when the time is up is left to itself.
def cut : Fate → Fate
  | .Goes => .Stops 1
  | .Fails part => .Stops part
  | .Stops part => .Stops part

def cutMoves (last : Nat) (moves : Nat → Move (Wire σ ρ α)) (n : Nat) : Move (Wire σ ρ α) :=
  if n < last then moves n else { moves n with fate := cut (moves n).fate }

def stops : Fate → Bool
  | .Stops _ => true
  | _ => false

-- The time is up after so many of the program's calls, if it is not over by then.
def within (late : ε) (limit : Nat) (m : Prog (Wire σ ρ α) ε β) : Prog (Wire σ ρ α) ε β :=
  fun moves turn wire =>
    let last := turn + limit
    let ran := m (cutMoves last moves) turn wire
    match ran.outcome with
    | .Stopped =>
        if last < ran.turn ∧ stops (moves last).fate = false then { ran with outcome := .Failed late }
        else ran
    | _ => ran

-- Whether the time runs out, and when, nobody can foresee.
def timed (late : ε) (m : Prog (Wire σ ρ α) ε β) : Prog (Wire σ ρ α) ε β := do
  match ← Prog.pick with
  | 0 => m
  | limit + 1 => within late limit m

-- As `alone`, and where each request gets its answer, it gets it in time.
def prompt (answered : Prop) : Terms (Wire σ ρ α) where
  allowed move := (alone answered).allowed move ∧ (answered → move.pick = 0)
  guar _ _ _ := True

theorem Served.prompt {m : Prog (Wire σ ρ α) ε β} {B : β → Wire σ ρ α → Prop}
    (h : Served answered P m B H) : Runs (fun _ wire => wire) (prompt answered) P m B H :=
  fun past wire hwire moves turn hmoves => h past wire hwire moves turn fun n => (hmoves n).1

theorem allowed_cutMoves (hnot : ¬answered) (last : Nat) {moves : Nat → Move (Wire σ ρ α)}
    (hmoves : ∀ n, (alone answered).allowed (moves n)) (n : Nat) :
    (alone answered).allowed (cutMoves last moves n) := by
  refine ⟨?_, fun hall => absurd hall hnot⟩
  unfold cutMoves
  split
  · exact (hmoves n).1
  · exact (hmoves n).1

theorem served_within (hnot : ¬answered) (late : ε) (limit : Nat) {m : Prog (Wire σ ρ α) ε β}
    {B : β → Wire σ ρ α → Prop} (h : Served answered P m B H) :
    Served answered P (within late limit m) B H := by
  intro past wire hwire moves turn hmoves
  have hran := h past wire hwire (cutMoves (turn + limit) moves) turn
    (allowed_cutMoves hnot _ hmoves)
  unfold within
  dsimp only
  cases ho : (m (cutMoves (turn + limit) moves) turn wire).outcome with
  | Done b =>
      rw [ho] at hran
      dsimp only
      rw [ho]
      exact hran
  | Failed e =>
      rw [ho] at hran
      dsimp only
      rw [ho]
      exact hran
  | Stopped =>
      rw [ho] at hran
      dsimp only
      split
      · exact hran
      · rw [ho]
        exact hran

theorem runs_timed (late : ε) {m : Prog (Wire σ ρ α) ε β} {B : β → Wire σ ρ α → Prop}
    (h : Served answered P m B H) :
    Runs (fun _ wire => wire) (prompt answered) P (timed late m) B H := by
  intro past wire hwire moves turn hmoves
  unfold timed
  simp only [Bind.bind, Prog.pick, List.nil_append]
  cases hpick : (moves turn).pick with
  | zero => exact h.prompt past wire hwire moves (turn + 1) hmoves
  | succ limit =>
      have hnot : ¬answered := by
        intro hall
        rw [(hmoves turn).2 hall] at hpick
        cases hpick
      exact (served_within hnot late limit h).prompt past wire hwire moves (turn + 1) hmoves

end Timed

end

end Mediaops.Remote
