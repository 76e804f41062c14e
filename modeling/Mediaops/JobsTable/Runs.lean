import Mediaops.JobsTable.Theorems
import Mediaops.Library.Ledger

namespace Mediaops.JobsTable

-- Runs of the jobs table: any number of calls on an empty table, one after the other,
-- each with its own faults.

open Jobs (JobState JobKind)
open JobMachine
open Ledger (Grows)

variable [UnicodeTables]

structure Call where
  op : Op
  faults : List Bool := []

def exec (rows : List Row) (call : Call) : Except StoreError Job × List Row :=
  call.op.tx.run rows call.faults

def run (rows : List Row) (calls : List Call) : List Row :=
  calls.foldl (fun rows call => (exec rows call).2) rows

theorem run_append (rows : List Row) (before after : List Call) :
    run rows (before ++ after) = run (run rows before) after := List.foldl_append

-- One legal transition of a job.
def Step (job next : Job) : Prop := ∃ event, job.advance event = .ok next

section Step

variable {job next : Job}

theorem step_id (h : Step job next) : next.id = job.id := by
  obtain ⟨_, hevent⟩ := h
  obtain ⟨_, _, hnext⟩ := Job.advance_ok hevent
  rw [hnext]
  rfl

theorem step_titleId (h : Step job next) : next.titleId = job.titleId := by
  obtain ⟨_, hevent⟩ := h
  obtain ⟨_, _, hnext⟩ := Job.advance_ok hevent
  rw [hnext]
  rfl

theorem step_parent (h : Step job next) : next.parentJobId = job.parentJobId := by
  obtain ⟨_, hevent⟩ := h
  obtain ⟨_, _, hnext⟩ := Job.advance_ok hevent
  rw [hnext]
  rfl

theorem step_kind (h : Step job next) : next.kind = job.kind := by
  obtain ⟨_, hevent⟩ := h
  exact (Job.advance_ok hevent).1

theorem step_stage (h : Step job next) : stage job.state < stage next.state := by
  obtain ⟨_, hevent⟩ := h
  obtain ⟨_, hstate, _⟩ := Job.advance_ok hevent
  have hstage := (advance_ok hstate).2.2.1
  omega

theorem not_step_terminal (h : terminal job.state = true) (next : Job) : ¬Step job next := by
  rintro ⟨_, hevent⟩
  obtain ⟨_, hstate, _⟩ := Job.advance_ok hevent
  rw [(advance_ok hstate).2.2.2] at h
  cases h

-- A want that has been open before is open no longer, once it has moved.
theorem step_not_open (h : Step job next) : next.state ≠ .Want .Open := by
  intro hopen
  have hstage := step_stage h
  rw [hopen] at hstage
  exact Nat.not_lt_zero _ hstage

end Step

section Calls

variable {jobs jobs' : List Job} {op : Op} {job : Job}

theorem moved_create {pick : Int} {kind : JobKind} {titleId : TitleId} {parentJobId : Option JobId}
    {s : List Row}
    (h : Tx.Yields (createBody pick kind titleId parentJobId) (jobs.map rowOf) job s) :
    ∃ jobs', s = jobs'.map rowOf ∧ Moved jobs (.Create kind titleId parentJobId pick) job jobs' := by
  obtain ⟨_, _, hvalid, hrest⟩ := Tx.yields_bind h
  obtain ⟨rfl, hparent⟩ := yields_validateParent hvalid
  have hinsert : Tx.Yields (insertJob pick kind titleId parentJobId) (jobs.map rowOf) job s →
      (kind = .Want → ∀ other ∈ jobs, ¬isOpenWant titleId other) →
      ∃ jobs', s = jobs'.map rowOf ∧ Moved jobs (.Create kind titleId parentJobId pick) job jobs' := by
    intro hyields hwant
    obtain ⟨hs, rfl, rfl, hstate, rfl, hid⟩ := yields_insertJob hyields
    exact ⟨_, hs, .Created pick job hid hstate hparent hwant⟩
  by_cases hkind : kind = .Want
  · subst hkind
    obtain rfl : parentJobId = none := by
      cases parentJobId with
      | none => rfl
      | some parent =>
          obtain ⟨_, _, _, hnone⟩ := hparent parent rfl
          cases hnone
    rw [if_pos rfl] at hrest
    obtain ⟨found, _, hopen, hrest⟩ := Tx.yields_bind hrest
    obtain ⟨rfl, hsome, hnone⟩ := yields_openWant hopen
    cases found with
    | none => exact hinsert hrest fun _ => hnone rfl
    | some existing =>
        obtain ⟨rfl, rfl⟩ := Tx.yields_pure hrest
        obtain ⟨hmem, hwant⟩ := hsome _ rfl
        exact ⟨jobs, rfl, .Found titleId pick _ hmem hwant⟩
  · rw [if_neg hkind] at hrest
    exact hinsert hrest fun hwant => absurd hwant hkind

theorem rowOf_enter (job : Job) (state : JobState) (h : state.kind = job.state.kind) :
    rowOf (job.enter state h) = { rowOf job with state := state.asStr } := by
  unfold rowOf Job.kind Job.enter
  rw [h]

-- The update reaches the row of the job and no other.
theorem updated_rows {before after : List Job} {next : Job}
    (hids : ∀ other ∈ before ++ after, other.id ≠ job.id)
    (hkind : next.state.kind = job.state.kind) (hnext : next = job.enter next.state hkind) :
    ((before ++ job :: after).map rowOf).map (fun row =>
        if isAt job.id.raw job.state.asStr row then { row with state := next.state.asStr } else row) =
      (before ++ next :: after).map rowOf := by
  have hother : ∀ other ∈ before ++ after, ¬isAt job.id.raw job.state.asStr (rowOf other) :=
    fun other hmem hat => hids other hmem (id_eq hat.1)
  rw [List.map_map, List.map_append, List.map_append, List.map_cons, List.map_cons]
  congr 1
  · exact List.map_congr_left fun other hmem => if_neg (hother other (List.mem_append_left _ hmem))
  · congr 1
    · have hat : isAt job.id.raw job.state.asStr (rowOf job) := ⟨rfl, rfl⟩
      rw [Function.comp_apply, if_pos hat]
      conv_rhs => rw [hnext]
      rw [rowOf_enter]
    · exact List.map_congr_left fun other hmem => if_neg (hother other (List.mem_append_right _ hmem))

theorem moved_advance (hsound : Sound jobs) {id : JobId} {event : JobEvent} {s : List Row}
    (h : Tx.Yields (advanceBody id event) (jobs.map rowOf) job s) :
    ∃ jobs', s = jobs'.map rowOf ∧ Moved jobs (.Advance id event) job jobs' := by
  obtain ⟨found, _, hget, hrest⟩ := Tx.yields_bind h
  obtain ⟨hfind, rfl⟩ := yields_getJob hget
  cases found with
  | none => exact absurd hrest Tx.not_yields_throw
  | some old =>
      have hmem : old ∈ jobs := List.mem_of_find?_eq_some hfind.symm
      have hid : old.id = id := by simpa using List.find?_some hfind.symm
      subst hid
      obtain ⟨next, hlift, hrest⟩ := Tx.yields_lift_bind hrest
      obtain ⟨n, _, hexec, hrest⟩ := Tx.yields_bind hrest
      cases Tx.yields_execute hexec
      obtain ⟨-, hrest⟩ := Tx.yields_guard hrest
      obtain ⟨rfl, rfl⟩ := Tx.yields_pure hrest
      have hadvance : old.advance event = .ok job := by
        cases hold : old.advance event with
        | error e =>
            rw [hold] at hlift
            cases hlift
        | ok made =>
            rw [hold] at hlift
            cases hlift
            rfl
      obtain ⟨before, after, rfl⟩ := List.append_of_mem hmem
      obtain ⟨hkind, -, hnext⟩ := Job.advance_ok hadvance
      refine ⟨before ++ job :: after, updated_rows ?_ hkind hnext,
        .Advanced before after old job event rfl hadvance⟩
      have hnodup := hsound.distinct
      rw [List.map_append, List.map_cons, List.nodup_middle, List.nodup_cons,
        ← List.map_append] at hnodup
      exact fun other hother hsame => hnodup.1 (List.mem_map.mpr ⟨other, hother, hsame⟩)

theorem quiet_validateParent (kind : JobKind) (parentJobId : Option JobId) :
    Tx.Quiet (validateParent kind parentJobId) := by
  have hparent : ∀ parent expected, Tx.Quiet (parentKindMatches parent expected) := by
    intro parent expected
    refine (Tx.quiet_query _ _).bind fun found => ?_
    cases found with
    | none => exact Tx.quiet_throw _
    | some job =>
        dsimp only
        split
        · exact Tx.quiet_throw _
        · exact Tx.quiet_pure _
  cases parentJobId with
  | none => cases kind <;> exact Tx.quiet_pure _
  | some parent =>
      cases kind
      · exact Tx.quiet_throw _
      · exact hparent _ _
      · exact hparent _ _
      · exact Tx.quiet_throw _

theorem quiet_createBody (pick : Int) (kind : JobKind) (titleId : TitleId)
    (parentJobId : Option JobId) : Tx.Quiet (createBody pick kind titleId parentJobId) := by
  have hinsert : Tx.Quiet (insertJob pick kind titleId parentJobId) := by
    refine (Tx.quiet_execute _ _).bind fun raw => ?_
    exact (Tx.quiet_lift _).bind fun id => Tx.quiet_lift _
  refine (quiet_validateParent kind parentJobId).bind fun _ => ?_
  split
  · refine (Tx.quiet_query _ _).bind fun found => ?_
    cases found with
    | none => exact hinsert
    | some existing => exact Tx.quiet_pure _
  · exact hinsert

theorem quiet_advanceBody (id : JobId) (event : JobEvent) : Tx.Quiet (advanceBody id event) := by
  refine (Tx.quiet_query _ _).bind fun found => ?_
  cases found with
  | none => exact Tx.quiet_throw _
  | some job =>
      refine (Tx.quiet_lift _).bind fun next => (Tx.quiet_execute _ _).bind fun n => ?_
      exact Tx.Quiet.guard (Tx.quiet_pure _)

-- A call that fails changes nothing.
theorem exec_cases (hsound : Sound jobs) {call : Call} {r : Except StoreError Job} {rows : List Row}
    (h : exec (jobs.map rowOf) call = (r, rows)) :
    (∃ e, r = .error e ∧ rows = jobs.map rowOf) ∨
      ∃ job jobs', r = .ok job ∧ rows = jobs'.map rowOf ∧ Moved jobs call.op job jobs' := by
  obtain ⟨op, faults⟩ := call
  cases op with
  | Create kind titleId parentJobId pick =>
      rcases Tx.run_atomically (quiet_createBody _ _ _ _) h with ⟨job, rfl, hyields⟩ | ⟨e, rfl, rfl⟩
      · obtain ⟨jobs', hrows, hmoved⟩ := moved_create hyields
        exact .inr ⟨job, jobs', rfl, hrows, hmoved⟩
      · exact .inl ⟨e, rfl, rfl⟩
  | Advance id event =>
      rcases Tx.run_atomically (quiet_advanceBody _ _) h with ⟨job, rfl, hyields⟩ | ⟨e, rfl, rfl⟩
      · obtain ⟨jobs', hrows, hmoved⟩ := moved_advance hsound hyields
        exact .inr ⟨job, jobs', rfl, hrows, hmoved⟩
      · exact .inl ⟨e, rfl, rfl⟩

theorem grows_moved (h : Moved jobs op job jobs') : Grows Step jobs jobs' := by
  cases h with
  | Found => exact Ledger.grows_refl _
  | Created => exact Ledger.grows_add _ _
  | Advanced before after old _ event hjobs hnext =>
      subst hjobs
      exact Ledger.grows_step ⟨event, hnext⟩

theorem sound_create {pick : Int} (hsound : Sound jobs)
    (hid : newRowid pick (jobs.map rowOf) = some job.id.raw)
    (hparent : ∀ parent ∈ job.parentJobId, ∃ other ∈ jobs, other.id = parent ∧
      JobKind.requiredParentKind job.kind = some other.kind)
    (hwant : job.kind = .Want → ∀ other ∈ jobs, ¬isOpenWant job.titleId other) :
    Sound (jobs ++ [job]) where
  distinct := by
    rw [List.map_append, List.map_singleton, List.nodup_append]
    refine ⟨hsound.distinct, List.nodup_singleton _, ?_⟩
    intro id hmem other hother hsame
    obtain ⟨old, hold, rfl⟩ := List.mem_map.mp hmem
    rw [List.mem_singleton.mp hother] at hsame
    exact (newRowid_rowOf hid).2.2 old hold (congrArg JobId.raw hsame)
  bounded := by
    intro other hother
    rcases List.mem_append.mp hother with hother | hother
    · exact hsound.bounded other hother
    · rw [List.mem_singleton.mp hother]
      exact (newRowid_rowOf hid).2.1
  linked := by
    intro n child parent hchild hlink
    by_cases hn : n < jobs.length
    · rw [List.getElem?_append_left hn] at hchild
      obtain ⟨m, hm, other, hother, hfound⟩ := hsound.linked n child parent hchild hlink
      refine ⟨m, hm, other, ?_, hfound⟩
      rwa [List.getElem?_append_left (by omega)]
    · rw [List.getElem?_append_right (by omega)] at hchild
      obtain ⟨hlast, rfl⟩ : n = jobs.length ∧ job = child := by
        cases hsub : n - jobs.length with
        | zero =>
            rw [hsub] at hchild
            exact ⟨by omega, Option.some.inj hchild⟩
        | succ k =>
            rw [hsub] at hchild
            cases hchild
      obtain ⟨other, hother, hfound⟩ := hparent parent hlink
      obtain ⟨m, hm, hget⟩ := List.mem_iff_getElem.mp hother
      refine ⟨m, by omega, other, ?_, hfound⟩
      rw [List.getElem?_append_left hm, List.getElem?_eq_getElem hm, hget]
  single := by
    intro titleId a ha b hb hopenA hopenB
    have hnew : ∀ other ∈ jobs, isOpenWant titleId other → ¬isOpenWant titleId job := by
      intro other hother hopen hopenJob
      refine hwant ?_ other hother ?_
      · rw [Job.kind, hopenJob.2]
        rfl
      · rw [hopenJob.1]
        exact hopen
    rcases List.mem_append.mp ha with ha | ha <;> rcases List.mem_append.mp hb with hb | hb
    · exact hsound.single titleId a ha b hb hopenA hopenB
    · rw [List.mem_singleton.mp hb] at hopenB
      exact absurd hopenB (hnew a ha hopenA)
    · rw [List.mem_singleton.mp ha] at hopenA
      exact absurd hopenA (hnew b hb hopenB)
    · rw [List.mem_singleton.mp ha, List.mem_singleton.mp hb]

theorem sound_advance {before after : List Job} {next : Job} (hsound : Sound (before ++ job :: after))
    (hstep : Step job next) : Sound (before ++ next :: after) where
  distinct := by
    have hdistinct := hsound.distinct
    rw [List.map_append, List.map_cons] at hdistinct ⊢
    rwa [step_id hstep]
  bounded := by
    intro other hother
    rcases List.mem_append.mp hother with hother | hother
    · exact hsound.bounded other (List.mem_append_left _ hother)
    · rcases List.mem_cons.mp hother with rfl | hother
      · rw [step_id hstep]
        exact hsound.bounded job (List.mem_append_right _ List.mem_cons_self)
      · exact hsound.bounded other (List.mem_append_right _ (List.mem_cons_of_mem _ hother))
  linked := by
    -- Position by position only the state changes.
    have hsame : (before ++ next :: after).map (fun job => (job.id, job.parentJobId, job.kind)) =
        (before ++ job :: after).map fun job => (job.id, job.parentJobId, job.kind) := by
      rw [List.map_append, List.map_append, List.map_cons, List.map_cons, step_id hstep,
        step_parent hstep, step_kind hstep]
    have hat : ∀ {n : Nat} {a : Job} {xs ys : List Job},
        xs.map (fun job => (job.id, job.parentJobId, job.kind)) =
          ys.map (fun job => (job.id, job.parentJobId, job.kind)) → xs[n]? = some a →
        ∃ b, ys[n]? = some b ∧ b.id = a.id ∧ b.parentJobId = a.parentJobId ∧ b.kind = a.kind := by
      intro n a xs ys hmaps hget
      have hmapped := congrArg (·[n]?) hmaps
      simp only [List.getElem?_map, hget, Option.map_some] at hmapped
      obtain ⟨b, hb, heq⟩ := Option.map_eq_some_iff.mp hmapped.symm
      obtain ⟨hid, hrest⟩ := Prod.mk.inj heq
      obtain ⟨hparent, hkind⟩ := Prod.mk.inj hrest
      exact ⟨b, hb, hid, hparent, hkind⟩
    intro n child parent hchild hlink
    obtain ⟨old, hold, -, hparent, hkind⟩ := hat hsame hchild
    obtain ⟨m, hm, other, hother, hid, hrequired⟩ :=
      hsound.linked n old parent hold (hparent.trans hlink)
    obtain ⟨other', hother', hid', -, hkind'⟩ := hat hsame.symm hother
    exact ⟨m, hm, other', hother', hid'.trans hid, by rw [← hkind, hrequired, hkind']⟩
  single := by
    have hold : ∀ titleId, ∀ other ∈ before ++ next :: after, isOpenWant titleId other →
        other ∈ before ++ job :: after ∧ other ≠ next := by
      intro titleId other hother hopen
      have hne : other ≠ next := by
        rintro rfl
        exact step_not_open hstep hopen.2
      refine ⟨?_, hne⟩
      rcases List.mem_append.mp hother with hother | hother
      · exact List.mem_append_left _ hother
      · rcases List.mem_cons.mp hother with rfl | hother
        · exact absurd rfl hne
        · exact List.mem_append_right _ (List.mem_cons_of_mem _ hother)
    intro titleId a ha b hb hopenA hopenB
    exact hsound.single titleId a (hold titleId a ha hopenA).1 b (hold titleId b hb hopenB).1
      hopenA hopenB

theorem Sound.moved (hsound : Sound jobs) (h : Moved jobs op job jobs') : Sound jobs' := by
  cases h with
  | Found => exact hsound
  | Created pick _ hid _ hparent hwant => exact sound_create hsound hid hparent hwant
  | Advanced before after old _ event hjobs hnext =>
      subst hjobs
      exact sound_advance hsound ⟨event, hnext⟩

end Calls

theorem sound_nil : Sound [] where
  distinct := List.nodup_nil
  bounded := fun _ hjob => absurd hjob List.not_mem_nil
  linked := fun _ _ _ hjob => (nomatch hjob)
  single := fun _ _ ha => absurd ha List.not_mem_nil

theorem run_sound {jobs : List Job} (hsound : Sound jobs) (calls : List Call) :
    ∃ jobs', run (jobs.map rowOf) calls = jobs'.map rowOf ∧ Sound jobs' ∧ Grows Step jobs jobs' := by
  induction calls generalizing jobs with
  | nil => exact ⟨jobs, rfl, hsound, Ledger.grows_refl _⟩
  | cons call calls ih =>
      have hcons : run (jobs.map rowOf) (call :: calls) =
          run (exec (jobs.map rowOf) call).2 calls := rfl
      rw [hcons]
      rcases exec_cases hsound (Prod.mk.eta (p := exec (jobs.map rowOf) call)).symm with
        ⟨e, -, hrows⟩ | ⟨job, jobs', -, hrows, hmoved⟩
      · rw [hrows]
        exact ih hsound
      · obtain ⟨final, hrun, hfinal, hgrows⟩ := ih (hsound.moved hmoved)
        rw [hrows]
        exact ⟨final, hrun, hfinal, (grows_moved hmoved).trans hgrows⟩

end Mediaops.JobsTable
