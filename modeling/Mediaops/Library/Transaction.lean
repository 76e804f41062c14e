import Mathlib.Tactic.Common

namespace Mediaops

-- A connection to a transactional medium: what is durable, the working copy of
-- the open transaction, and which of the coming statements the medium will fail.
-- Once the list of faults is used up every statement goes through.
structure Conn (σ : Type) where
  durable : σ
  working : σ
  faults : List Bool

-- A program over a connection. An error keeps the connection it happened on, so
-- that what became durable before it is not hidden.
def Tx (ε σ α : Type) : Type := Conn σ → Except ε α × Conn σ

namespace Tx

variable {ε σ α β : Type}

instance : Monad (Tx ε σ) where
  pure a := fun conn => (.ok a, conn)
  bind m f := fun conn =>
    match m conn with
    | (.ok a, conn') => f a conn'
    | (.error e, conn') => (.error e, conn')

instance : MonadExceptOf ε (Tx ε σ) where
  throw e := fun conn => (.error e, conn)
  tryCatch m handle := fun conn =>
    match m conn with
    | (.ok a, conn') => (.ok a, conn')
    | (.error e, conn') => handle e conn'

-- One statement sent to the medium.
def statement (fault : ε) : Tx ε σ Unit := fun conn =>
  match conn.faults with
  | [] => (.ok (), conn)
  | false :: faults => (.ok (), { conn with faults })
  | true :: faults => (.error fault, { conn with faults })

def read (f : σ → α) : Tx ε σ α := fun conn => (.ok (f conn.working), conn)

def update (f : σ → σ) : Tx ε σ Unit := fun conn =>
  (.ok (), { conn with working := f conn.working })

def begin : Tx ε σ Unit := fun conn => (.ok (), { conn with working := conn.durable })

def commit : Tx ε σ Unit := fun conn => (.ok (), { conn with durable := conn.working })

-- A pure check inside a transaction.
def lift : Except ε α → Tx ε σ α
  | .ok a => pure a
  | .error e => throw e

-- The caller's view: a new connection, closed at the end. An uncommitted working
-- copy is lost with it.
def run (m : Tx ε σ α) (s : σ) (faults : List Bool) : Except ε α × σ :=
  let (result, conn) := m { durable := s, working := s, faults }
  (result, conn.durable)

-- `Yields m s a s'`: on some connection with working copy `s` the program
-- succeeds with `a` and leaves the working copy `s'`.
def Yields (m : Tx ε σ α) (s : σ) (a : α) (s' : σ) : Prop :=
  ∃ conn conn', conn.working = s ∧ m conn = (.ok a, conn') ∧ conn'.working = s'

-- The program makes nothing durable, whether it succeeds or fails.
def Quiet (m : Tx ε σ α) : Prop := ∀ conn, (m conn).2.durable = conn.durable

theorem yields_pure {a b : α} {s s' : σ} (h : Yields (pure a : Tx ε σ α) s b s') :
    b = a ∧ s' = s := by
  obtain ⟨conn, conn', rfl, hm, rfl⟩ := h
  cases hm
  exact ⟨rfl, rfl⟩

theorem not_yields_throw {e : ε} {a : α} {s s' : σ} :
    ¬Yields (throw e : Tx ε σ α) s a s' := by
  rintro ⟨conn, conn', -, hm, -⟩
  cases hm

theorem yields_bind {m : Tx ε σ α} {f : α → Tx ε σ β} {s s'' : σ} {b : β}
    (h : Yields (m >>= f) s b s'') : ∃ a s', Yields m s a s' ∧ Yields (f a) s' b s'' := by
  obtain ⟨conn, conn'', rfl, hm, rfl⟩ := h
  change (match m conn with
    | (.ok a, conn') => f a conn'
    | (.error e, conn') => (.error e, conn')) = _ at hm
  split at hm
  · next a conn' hconn =>
      exact ⟨a, conn'.working, ⟨conn, conn', rfl, hconn, rfl⟩, ⟨conn', conn'', rfl, hm, rfl⟩⟩
  · cases hm

theorem yields_statement_bind {fault : ε} {f : Unit → Tx ε σ β} {s s' : σ} {b : β}
    (h : Yields (statement fault >>= f) s b s') : Yields (f ()) s b s' := by
  obtain ⟨u, s₁, ⟨conn, conn', rfl, hm, rfl⟩, hf⟩ := yields_bind h
  have hw : conn'.working = conn.working := by
    unfold statement at hm
    split at hm <;> cases hm <;> rfl
  rwa [hw] at hf

theorem yields_read_bind {g : σ → α} {f : α → Tx ε σ β} {s s' : σ} {b : β}
    (h : Yields (read g >>= f) s b s') : Yields (f (g s)) s b s' := by
  obtain ⟨a, s₁, ⟨conn, conn', rfl, hm, rfl⟩, hf⟩ := yields_bind h
  cases hm
  exact hf

theorem yields_update_bind {g : σ → σ} {f : Unit → Tx ε σ β} {s s' : σ} {b : β}
    (h : Yields (update g >>= f) s b s') : Yields (f ()) (g s) b s' := by
  obtain ⟨u, s₁, ⟨conn, conn', rfl, hm, rfl⟩, hf⟩ := yields_bind h
  cases hm
  exact hf

theorem yields_read {g : σ → α} {s s' : σ} {a : α} (h : Yields (ε := ε) (read g) s a s') :
    a = g s ∧ s' = s := by
  obtain ⟨conn, conn', rfl, hm, rfl⟩ := h
  cases hm
  exact ⟨rfl, rfl⟩

theorem yields_update {g : σ → σ} {s s' : σ} {u : Unit}
    (h : Yields (ε := ε) (update g) s u s') : s' = g s := by
  obtain ⟨conn, conn', rfl, hm, rfl⟩ := h
  cases hm
  rfl

theorem yields_lift {x : Except ε α} {s s' : σ} {a : α}
    (h : Yields (lift x : Tx ε σ α) s a s') : x = .ok a ∧ s' = s := by
  cases x with
  | ok b =>
      obtain ⟨rfl, rfl⟩ := yields_pure h
      exact ⟨rfl, rfl⟩
  | error e => exact absurd h not_yields_throw

theorem yields_lift_bind {x : Except ε α} {f : α → Tx ε σ β} {s s' : σ} {b : β}
    (h : Yields (lift x >>= f) s b s') : ∃ a, x = .ok a ∧ Yields (f a) s b s' := by
  obtain ⟨a, s₁, hl, hf⟩ := yields_bind h
  cases x with
  | ok a' =>
      obtain ⟨rfl, rfl⟩ := yields_pure hl
      exact ⟨a, rfl, hf⟩
  | error e => exact absurd hl not_yields_throw

-- A guard that raises an error on one branch and goes on with the other.
theorem yields_guard {c : Prop} [Decidable c] {e : ε} {f : Unit → Tx ε σ β} {s s' : σ} {b : β}
    (h : Yields (if c then throw e >>= f else f ()) s b s') : ¬c ∧ Yields (f ()) s b s' := by
  by_cases hc : c
  · rw [if_pos hc] at h
    obtain ⟨_, _, ht, _⟩ := yields_bind h
    exact absurd ht not_yields_throw
  · rw [if_neg hc] at h
    exact ⟨hc, h⟩

theorem quiet_pure (a : α) : Quiet (pure a : Tx ε σ α) := fun _ => rfl

theorem quiet_throw (e : ε) : Quiet (throw e : Tx ε σ α) := fun _ => rfl

theorem quiet_read (f : σ → α) : Quiet (read f : Tx ε σ α) := fun _ => rfl

theorem quiet_update (f : σ → σ) : Quiet (update f : Tx ε σ Unit) := fun _ => rfl

theorem quiet_statement (fault : ε) : Quiet (statement fault : Tx ε σ Unit) := by
  intro conn
  unfold statement
  split <;> rfl

theorem quiet_lift (x : Except ε α) : Quiet (lift x : Tx ε σ α) := by
  cases x <;> exact fun _ => rfl

theorem Quiet.bind {m : Tx ε σ α} {f : α → Tx ε σ β} (hm : Quiet m) (hf : ∀ a, Quiet (f a)) :
    Quiet (m >>= f) := by
  intro conn
  change (match m conn with
    | (.ok a, conn') => f a conn'
    | (.error e, conn') => (.error e, conn')).2.durable = _
  have hd := hm conn
  split
  · next a conn' hconn =>
      rw [hconn] at hd
      exact (hf a conn').trans hd
  · next e conn' hconn =>
      rw [hconn] at hd
      exact hd

theorem Quiet.guard {c : Prop} [Decidable c] {e : ε} {f : Unit → Tx ε σ β} (hf : Quiet (f ())) :
    Quiet (if c then throw e >>= f else f ()) := by
  split
  · exact fun _ => rfl
  · exact hf

-- A transaction: open, run the body, commit. The commit is a statement of its own.
def atomically (fault : ε) (body : Tx ε σ α) : Tx ε σ α := do
  statement fault
  begin
  let a ← body
  statement fault
  commit
  pure a

theorem bind_ok {m : Tx ε σ α} {f : α → Tx ε σ β} {conn conn' : Conn σ} {a : α}
    (h : m conn = (.ok a, conn')) : (m >>= f) conn = f a conn' := by
  change (match m conn with
    | (.ok a, conn') => f a conn'
    | (.error e, conn') => (.error e, conn')) = _
  rw [h]

theorem bind_error {m : Tx ε σ α} {f : α → Tx ε σ β} {conn conn' : Conn σ} {e : ε}
    (h : m conn = (.error e, conn')) : (m >>= f) conn = (.error e, conn') := by
  change (match m conn with
    | (.ok a, conn') => f a conn'
    | (.error e, conn') => (.error e, conn')) = _
  rw [h]

theorem statement_cases (fault : ε) (conn : Conn σ) :
    ∃ faults, statement fault conn = (.ok (), { conn with faults }) ∨
      statement fault conn = (.error fault, { conn with faults }) := by
  unfold statement
  split
  · exact ⟨conn.faults, .inl rfl⟩
  · next faults _ => exact ⟨faults, .inl rfl⟩
  · next faults _ => exact ⟨faults, .inr rfl⟩

-- Only the commit makes a working copy durable, and nothing fails after it: a
-- transaction takes effect as a whole or not at all.
theorem run_atomically {fault : ε} {body : Tx ε σ α} (hq : Quiet body) {s s' : σ}
    {faults : List Bool} {r : Except ε α} (h : run (atomically fault body) s faults = (r, s')) :
    (∃ a, r = .ok a ∧ Yields body s a s') ∨ (∃ e, r = .error e ∧ s' = s) := by
  have hrun : ∀ res, atomically fault body ⟨s, s, faults⟩ = res → r = res.1 ∧ s' = res.2.durable := by
    rintro res rfl
    exact ⟨congrArg Prod.fst h.symm, congrArg Prod.snd h.symm⟩
  unfold atomically at hrun
  obtain ⟨faults₁, hopen | hopen⟩ := statement_cases fault (Conn.mk s s faults)
  · have hbegin : (begin : Tx ε σ Unit) ⟨s, s, faults₁⟩ = (.ok (), ⟨s, s, faults₁⟩) := rfl
    rw [bind_ok hopen, bind_ok hbegin] at hrun
    have hdurable := hq ⟨s, s, faults₁⟩
    cases hbody : body ⟨s, s, faults₁⟩ with
    | mk res conn =>
      rw [hbody] at hdurable
      cases res with
      | error e =>
          rw [bind_error hbody] at hrun
          obtain ⟨rfl, rfl⟩ := hrun _ rfl
          exact .inr ⟨e, rfl, hdurable⟩
      | ok a =>
          rw [bind_ok hbody] at hrun
          obtain ⟨faults₂, hclose | hclose⟩ := statement_cases fault conn
          · rw [bind_ok hclose] at hrun
            obtain ⟨rfl, rfl⟩ := hrun _ rfl
            exact .inl ⟨a, rfl, _, _, rfl, hbody, rfl⟩
          · rw [bind_error hclose] at hrun
            obtain ⟨rfl, rfl⟩ := hrun _ rfl
            exact .inr ⟨fault, rfl, hdurable⟩
  · rw [bind_error hopen] at hrun
    obtain ⟨rfl, rfl⟩ := hrun _ rfl
    exact .inr ⟨fault, rfl, rfl⟩

end Tx

end Mediaops
