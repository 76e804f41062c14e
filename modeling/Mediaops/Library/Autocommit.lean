import Mediaops.Library.Transaction

namespace Mediaops.Tx

-- Statements outside a transaction: each commits by itself, and between two of
-- them nothing is pending.

variable {ε σ α β : Type}

-- A statement that reads, and what the program makes of the answer.
def query (fault : ε) (f : σ → Except ε α) : Tx ε σ α := do
  statement fault
  lift (f (← read id))

-- A statement that changes the rows, as a whole or not at all.
def execute (fault : ε) (change : σ → Except ε (α × σ)) : Tx ε σ α := do
  statement fault
  let (a, next) ← lift (change (← read id))
  update fun _ => next
  pure a

def autocommit (body : Tx ε σ α) : Tx ε σ α := do
  let a ← body
  commit
  pure a

def Settled (conn : Conn σ) : Prop := conn.working = conn.durable

def Settles (m : Tx ε σ α) : Prop := ∀ conn, Settled conn → Settled (m conn).2

-- `Leads m s r s'`: from rows `s` with nothing pending the program ends in `r` and
-- leaves the rows `s'`.
def Leads (m : Tx ε σ α) (s : σ) (r : Except ε α) (s' : σ) : Prop :=
  ∃ conn conn', Settled conn ∧ conn.durable = s ∧ m conn = (r, conn') ∧ conn'.durable = s'

theorem leads_of_run {m : Tx ε σ α} {s s' : σ} {faults : List Bool} {r : Except ε α}
    (h : run m s faults = (r, s')) : Leads m s r s' := by
  unfold run at h
  cases hrun : m ⟨s, s, faults⟩ with
  | mk result conn =>
      rw [hrun] at h
      cases h
      exact ⟨⟨s, s, faults⟩, conn, rfl, rfl, hrun, rfl⟩

theorem run_of_leads {m : Tx ε σ α} {s s' : σ} {r : Except ε α} (h : Leads m s r s') :
    ∃ faults, run m s faults = (r, s') := by
  obtain ⟨⟨durable, working, faults⟩, conn', hsettled, rfl, hm, rfl⟩ := h
  cases hsettled
  exact ⟨faults, by rw [run, hm]⟩

theorem leads_pure {a : α} {s s' : σ} {r : Except ε α} (h : Leads (pure a) s r s') :
    r = .ok a ∧ s' = s := by
  obtain ⟨conn, conn', -, rfl, hm, rfl⟩ := h
  cases hm
  exact ⟨rfl, rfl⟩

theorem leads_throw {e : ε} {s s' : σ} {r : Except ε α} (h : Leads (throw e : Tx ε σ α) s r s') :
    r = .error e ∧ s' = s := by
  obtain ⟨conn, conn', -, rfl, hm, rfl⟩ := h
  cases hm
  exact ⟨rfl, rfl⟩

theorem leads_bind {m : Tx ε σ α} {f : α → Tx ε σ β} {s s' : σ} {r : Except ε β}
    (hm : Settles m) (h : Leads (m >>= f) s r s') :
    (∃ e, r = .error e ∧ Leads m s (.error e) s') ∨
      ∃ a middle, Leads m s (.ok a) middle ∧ Leads (f a) middle r s' := by
  obtain ⟨conn, conn', hsettled, rfl, hrun, rfl⟩ := h
  have hnext := hm conn hsettled
  cases hfirst : m conn with
  | mk result after =>
      rw [hfirst] at hnext
      cases result with
      | ok a =>
          rw [bind_ok hfirst] at hrun
          exact .inr ⟨a, after.durable, ⟨conn, after, hsettled, rfl, hfirst, rfl⟩,
            ⟨after, conn', hnext, rfl, hrun, rfl⟩⟩
      | error e =>
          rw [bind_error hfirst] at hrun
          cases hrun
          exact .inl ⟨e, rfl, ⟨conn, conn', hsettled, rfl, hfirst, rfl⟩⟩

section Statements

variable (fault : ε)

theorem query_cases (f : σ → Except ε α) (conn : Conn σ) :
    ∃ faults, query fault f conn = (f conn.working, { conn with faults }) ∨
      query fault f conn = (.error fault, { conn with faults }) := by
  obtain ⟨faults, hpass | hfail⟩ := statement_cases fault conn
  · refine ⟨faults, .inl ?_⟩
    rw [query, bind_ok hpass]
    change lift (f conn.working) { conn with faults } = _
    cases f conn.working <;> rfl
  · exact ⟨faults, .inr (bind_error hfail)⟩

theorem execute_cases (change : σ → Except ε (α × σ)) (conn : Conn σ) :
    ∃ faults,
      (∃ a next, change conn.working = .ok (a, next) ∧
        execute fault change conn = (.ok a, { conn with working := next, faults })) ∨
      ∃ e, execute fault change conn = (.error e, { conn with faults }) := by
  obtain ⟨faults, hpass | hfail⟩ := statement_cases fault conn
  · refine ⟨faults, ?_⟩
    rw [execute, bind_ok hpass]
    cases hchange : change conn.working with
    | ok result =>
        obtain ⟨a, next⟩ := result
        refine .inl ⟨a, next, rfl, ?_⟩
        have hread : (read id : Tx ε σ σ) { conn with faults } =
            (.ok conn.working, { conn with faults }) := rfl
        rw [bind_ok hread, hchange]
        rfl
    | error e =>
        refine .inr ⟨e, ?_⟩
        have hread : (read id : Tx ε σ σ) { conn with faults } =
            (.ok conn.working, { conn with faults }) := rfl
        rw [bind_ok hread, hchange]
        rfl
  · exact ⟨faults, .inr ⟨fault, bind_error hfail⟩⟩

theorem settles_query (f : σ → Except ε α) : Settles (query fault f) := by
  intro conn hsettled
  obtain ⟨faults, h | h⟩ := query_cases fault f conn <;> rw [h] <;> exact hsettled

theorem settles_autocommit (change : σ → Except ε (α × σ)) :
    Settles (autocommit (execute fault change)) := by
  intro conn hsettled
  obtain ⟨faults, ⟨a, next, -, h⟩ | ⟨e, h⟩⟩ := execute_cases fault change conn
  · rw [autocommit, bind_ok h]
    rfl
  · rw [autocommit, bind_error h]
    exact hsettled

variable {fault}

theorem leads_query {f : σ → Except ε α} {s s' : σ} {r : Except ε α}
    (h : Leads (query fault f) s r s') : s' = s ∧ ∀ a, r = .ok a → f s = .ok a := by
  obtain ⟨conn, conn', hsettled, rfl, hm, rfl⟩ := h
  obtain ⟨faults, h | h⟩ := query_cases fault f conn
  · rw [h] at hm
    cases hm
    rw [hsettled]
    exact ⟨rfl, fun a ha => ha⟩
  · rw [h] at hm
    cases hm
    exact ⟨rfl, fun a ha => by cases ha⟩

theorem leads_autocommit {change : σ → Except ε (α × σ)} {s s' : σ} {r : Except ε α}
    (h : Leads (autocommit (execute fault change)) s r s') :
    (∃ a, r = .ok a ∧ change s = .ok (a, s')) ∨ ∃ e, r = .error e ∧ s' = s := by
  obtain ⟨conn, conn', hsettled, rfl, hm, rfl⟩ := h
  obtain ⟨faults, ⟨a, next, hchange, h⟩ | ⟨e, h⟩⟩ := execute_cases fault change conn
  · rw [autocommit, bind_ok h] at hm
    cases hm
    rw [hsettled] at hchange
    exact .inl ⟨a, rfl, hchange⟩
  · rw [autocommit, bind_error h] at hm
    cases hm
    exact .inr ⟨e, rfl, rfl⟩

end Statements

-- The same statements inside a transaction.

theorem quiet_query (fault : ε) (f : σ → Except ε α) : Quiet (query fault f) := by
  intro conn
  obtain ⟨faults, h | h⟩ := query_cases fault f conn <;> rw [h]

theorem quiet_execute (fault : ε) (change : σ → Except ε (α × σ)) :
    Quiet (execute fault change) := by
  intro conn
  obtain ⟨faults, ⟨a, next, -, h⟩ | ⟨e, h⟩⟩ := execute_cases fault change conn <;> rw [h]

theorem yields_query {fault : ε} {f : σ → Except ε α} {s s' : σ} {a : α}
    (h : Yields (query fault f) s a s') : f s = .ok a ∧ s' = s := by
  obtain ⟨conn, conn', rfl, hm, rfl⟩ := h
  obtain ⟨faults, h | h⟩ := query_cases fault f conn
  · rw [h] at hm
    obtain ⟨hf, rfl⟩ := Prod.mk.injEq .. ▸ hm
    exact ⟨hf, rfl⟩
  · rw [h] at hm
    cases hm

theorem yields_execute {fault : ε} {change : σ → Except ε (α × σ)} {s s' : σ} {a : α}
    (h : Yields (execute fault change) s a s') : change s = .ok (a, s') := by
  obtain ⟨conn, conn', rfl, hm, rfl⟩ := h
  obtain ⟨faults, ⟨b, next, hchange, h⟩ | ⟨e, h⟩⟩ := execute_cases fault change conn
  · rw [h] at hm
    cases hm
    exact hchange
  · rw [h] at hm
    cases hm

-- A medium that fails nothing.

theorem statement_calm (fault : ε) (s t : σ) :
    statement fault ⟨s, t, []⟩ = (.ok (), ⟨s, t, []⟩) := rfl

theorem query_calm (fault : ε) (f : σ → Except ε α) (s t : σ) :
    query fault f ⟨s, t, []⟩ = (f t, ⟨s, t, []⟩) := by
  rw [query, bind_ok (statement_calm fault s t)]
  change lift (f t) ⟨s, t, []⟩ = _
  cases f t <;> rfl

theorem execute_calm {fault : ε} {change : σ → Except ε (α × σ)} {s t next : σ} {a : α}
    (h : change t = .ok (a, next)) :
    execute fault change ⟨s, t, []⟩ = (.ok a, ⟨s, next, []⟩) := by
  rw [execute, bind_ok (statement_calm fault s t)]
  have hread : (read id : Tx ε σ σ) ⟨s, t, []⟩ = (.ok t, ⟨s, t, []⟩) := rfl
  rw [bind_ok hread, h]
  rfl

theorem run_atomically_calm {fault : ε} {body : Tx ε σ α} {a : α} {s t : σ}
    (h : body ⟨s, s, []⟩ = (.ok a, ⟨s, t, []⟩)) : run (atomically fault body) s [] = (.ok a, t) := by
  have hbegin : (begin : Tx ε σ Unit) ⟨s, s, []⟩ = (.ok (), ⟨s, s, []⟩) := rfl
  rw [run, atomically, bind_ok (statement_calm fault s s), bind_ok hbegin, bind_ok h,
    bind_ok (statement_calm fault s t)]
  rfl

end Mediaops.Tx
