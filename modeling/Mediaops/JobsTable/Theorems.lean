import Mediaops.JobsTable
import Mediaops.Core.TitleId.Theorems

namespace Mediaops.JobsTable

-- What each call does to a table whose rows are jobs.

open Jobs (JobState JobKind)
open JobMachine

theorem newRowid_fresh {pick id : Int} {rows : List Row}
    (hrows : ∀ row ∈ rows, 0 < row.id) (h : newRowid pick rows = some id) :
    0 < id ∧ id ≤ lastRowid ∧ ∀ row ∈ rows, row.id ≠ id := by
  unfold newRowid at h
  split at h
  · next hnone =>
      cases h
      rw [List.max?_eq_none_iff, List.map_eq_nil_iff] at hnone
      subst hnone
      exact ⟨by decide, by decide, fun _ hrow => absurd hrow List.not_mem_nil⟩
  · next top hmax =>
      obtain ⟨htop, hall⟩ := List.max?_eq_some_iff.mp hmax
      obtain ⟨row, hrow, rfl⟩ := List.mem_map.mp htop
      have hpos := hrows row hrow
      split_ifs at h with hlast hpick
      · cases h
        refine ⟨by omega, by omega, fun other hother => ?_⟩
        have hle := hall other.id (List.mem_map_of_mem hother)
        omega
      · cases h
        exact ⟨hpick.1.1, hpick.1.2, fun other hother hsame =>
          hpick.2 (hsame ▸ List.mem_map_of_mem hother)⟩

variable [UnicodeTables]

theorem jobFromRow_rowOf (job : Job) : jobFromRow (rowOf job) = .ok job := by
  have hid : JobId.new (rowOf job).id = .ok job.id := dif_pos job.id.positive
  have hparent : ((rowOf job).parentJobId.mapM fun raw =>
      (JobId.new raw).mapError StoreError.Job) = .ok job.parentJobId := by
    unfold rowOf
    cases job.parentJobId with
    | none => rfl
    | some parent =>
        have hnew : JobId.new parent.raw = .ok parent := dif_pos parent.positive
        simp only [Option.map_some, Option.mapM_some, hnew]
        rfl
  have htitle : TitleId.parse (rowOf job).titleId = .ok job.titleId := TitleId.parse_render _
  have hkind : JobKind.parse (rowOf job).kind = .ok job.state.kind := parse_kind _
  have hstate : JobState.parse job.state.kind (rowOf job).state = .ok job.state := parse_state _
  unfold jobFromRow
  rw [hid, htitle, hkind, hparent]
  simp only [Except.mapError, bind, Except.bind]
  rw [hstate]
  dsimp only
  rw [Job.new_self]

theorem mapM_jobFromRow (jobs : List Job) : (jobs.map rowOf).mapM jobFromRow = .ok jobs := by
  induction jobs with
  | nil => rfl
  | cons job jobs ih =>
      rw [List.map_cons, List.mapM_cons, jobFromRow_rowOf, ih]
      rfl

omit [UnicodeTables] in
theorem id_eq {id id' : JobId} (h : id.raw = id'.raw) : id = id' := by
  cases id
  cases id'
  cases h
  rfl

theorem find_rowOf (jobs : List Job) (id : JobId) :
    (jobs.map rowOf).find? (fun row => row.id = id.raw) =
      (jobs.find? fun job => job.id = id).map rowOf := by
  rw [List.find?_map]
  congr 2
  funext job
  exact decide_eq_decide.mpr ⟨fun h => id_eq h, fun h => congrArg JobId.raw h⟩

theorem newRowid_rowOf {jobs : List Job} {pick id : Int}
    (h : newRowid pick (jobs.map rowOf) = some id) :
    0 < id ∧ id ≤ lastRowid ∧ ∀ job ∈ jobs, job.id.raw ≠ id := by
  obtain ⟨hpos, hbound, hfresh⟩ := newRowid_fresh (fun row hrow => by
    obtain ⟨job, -, rfl⟩ := List.mem_map.mp hrow
    exact job.id.positive) h
  exact ⟨hpos, hbound, fun job hjob => hfresh (rowOf job) (List.mem_map_of_mem hjob)⟩

def isOpenWant (titleId : TitleId) (job : Job) : Prop :=
  job.titleId = titleId ∧ job.state = .Want .Open

theorem isOpenWantOf_rowOf (titleId : TitleId) (job : Job) :
    isOpenWantOf titleId (rowOf job) = true ↔ isOpenWant titleId job := by
  unfold isOpenWantOf
  rw [Bool.and_eq_true, Bool.and_eq_true]
  constructor
  · intro ⟨⟨htitle, hkind⟩, hstate⟩
    have hwant : job.state.kind = .Want := kindStr_injective (of_decide_eq_true hkind)
    exact ⟨TitleId.render_injective (of_decide_eq_true htitle),
      asStr_injective hwant (of_decide_eq_true hstate)⟩
  · intro ⟨htitle, hstate⟩
    have hkind : job.kind = .Want := by rw [Job.kind, hstate]; rfl
    refine ⟨⟨decide_eq_true ?_, decide_eq_true ?_⟩, decide_eq_true ?_⟩
    · exact congrArg TitleId.render htitle
    · exact congrArg JobKind.asStr hkind
    · exact congrArg JobState.asStr hstate

-- The table a connection sees. Ids are distinct, a parent is an earlier row of the kind
-- its child asks for, and a title has one open want.
structure Sound (jobs : List Job) : Prop where
  distinct : (jobs.map Job.id).Nodup
  bounded : ∀ job ∈ jobs, job.id.raw ≤ lastRowid
  linked : ∀ (n : Nat) (job : Job) (parent : JobId), jobs[n]? = some job → job.parentJobId = some parent →
    ∃ m < n, ∃ other, jobs[m]? = some other ∧ other.id = parent ∧
      JobKind.requiredParentKind job.kind = some other.kind
  single : ∀ titleId, ∀ a ∈ jobs, ∀ b ∈ jobs, isOpenWant titleId a → isOpenWant titleId b → a = b

inductive Op where
  | Create (kind : JobKind) (titleId : TitleId) (parentJobId : Option JobId) (pick : Int)
  | Advance (id : JobId) (event : JobEvent)

def Op.tx : Op → JobsTx Job
  | Create kind titleId parentJobId pick => createJob pick kind titleId parentJobId
  | Advance id event => advanceJob id event

-- What a call that succeeds does, in terms of jobs.
inductive Moved (jobs : List Job) : Op → Job → List Job → Prop
  | Found (titleId : TitleId) (pick : Int) (job : Job) (hmem : job ∈ jobs)
      (hwant : isOpenWant titleId job) : Moved jobs (.Create .Want titleId none pick) job jobs
  | Created (pick : Int) (job : Job) (hid : newRowid pick (jobs.map rowOf) = some job.id.raw)
      (hstate : job.state = JobState.initial job.kind)
      (hparent : ∀ parent ∈ job.parentJobId, ∃ other ∈ jobs, other.id = parent ∧
        JobKind.requiredParentKind job.kind = some other.kind)
      (hwant : job.kind = .Want → ∀ other ∈ jobs, ¬isOpenWant job.titleId other) :
      Moved jobs (.Create job.kind job.titleId job.parentJobId pick) job (jobs ++ [job])
  | Advanced (before after : List Job) (job next : Job) (event : JobEvent)
      (hjobs : jobs = before ++ job :: after) (hnext : job.advance event = .ok next) :
      Moved jobs (.Advance job.id event) next (before ++ next :: after)

section Statements

variable {jobs : List Job} {s : List Row}

open Tx

theorem yields_getJob {id : JobId} {found : Option Job}
    (h : Yields (getJob id) (jobs.map rowOf) found s) :
    found = jobs.find? (fun job => job.id = id) ∧ s = jobs.map rowOf := by
  obtain ⟨hfound, rfl⟩ := yields_query h
  refine ⟨?_, rfl⟩
  rw [find_rowOf] at hfound
  cases hjob : jobs.find? fun job => job.id = id with
  | none =>
      rw [hjob] at hfound
      cases hfound
      rfl
  | some job =>
      rw [hjob, Option.map_some, Option.mapM_some, jobFromRow_rowOf] at hfound
      cases hfound
      rfl

theorem yields_openWant {titleId : TitleId} {found : Option Job}
    (h : Yields (openWant titleId) (jobs.map rowOf) found s) :
    s = jobs.map rowOf ∧ (∀ job, found = some job → job ∈ jobs ∧ isOpenWant titleId job) ∧
      (found = none → ∀ job ∈ jobs, ¬isOpenWant titleId job) := by
  obtain ⟨hfound, rfl⟩ := yields_query h
  refine ⟨rfl, ?_⟩
  cases hhead : (((jobs.map rowOf).filter (isOpenWantOf titleId)).insertionSort byId).head? with
  | none =>
      rw [hhead] at hfound
      cases hfound
      refine ⟨fun _ hjob => (nomatch hjob), fun _ job hjob hwant => ?_⟩
      rw [List.head?_eq_none_iff, ← List.length_eq_zero_iff, List.length_insertionSort,
        List.length_eq_zero_iff, List.filter_eq_nil_iff] at hhead
      exact hhead _ (List.mem_map_of_mem hjob) ((isOpenWantOf_rowOf titleId job).mpr hwant)
  | some row =>
      have hrow := (List.mem_insertionSort byId).mp (List.mem_of_mem_head? hhead)
      obtain ⟨hmem, hwant⟩ := List.mem_filter.mp hrow
      obtain ⟨job, hjob, rfl⟩ := List.mem_map.mp hmem
      rw [hhead, Option.mapM_some, jobFromRow_rowOf] at hfound
      cases hfound
      refine ⟨?_, fun hnone => (nomatch hnone)⟩
      rintro _ ⟨⟩
      exact ⟨hjob, (isOpenWantOf_rowOf titleId job).mp hwant⟩

theorem yields_parentKindMatches {parent : JobId} {expected : JobKind} {u : Unit}
    (h : Yields (parentKindMatches parent expected) (jobs.map rowOf) u s) :
    s = jobs.map rowOf ∧ ∃ other ∈ jobs, other.id = parent ∧ other.kind = expected := by
  obtain ⟨found, _, hget, hrest⟩ := yields_bind h
  obtain ⟨rfl, rfl⟩ := yields_getJob hget
  cases hjob : jobs.find? fun job => job.id = parent with
  | none =>
      rw [hjob] at hrest
      exact absurd hrest not_yields_throw
  | some job =>
      rw [hjob] at hrest
      have hid : job.id = parent := by simpa using List.find?_some hjob
      by_cases hkind : job.kind = expected
      · dsimp only at hrest
        rw [if_neg (not_not_intro hkind)] at hrest
        obtain ⟨-, rfl⟩ := yields_pure hrest
        exact ⟨rfl, job, List.mem_of_find?_eq_some hjob, hid, hkind⟩
      · dsimp only at hrest
        rw [if_pos hkind] at hrest
        exact absurd hrest not_yields_throw

theorem yields_validateParent {kind : JobKind} {parentJobId : Option JobId} {u : Unit}
    (h : Yields (validateParent kind parentJobId) (jobs.map rowOf) u s) :
    s = jobs.map rowOf ∧ ∀ parent ∈ parentJobId, ∃ other ∈ jobs, other.id = parent ∧
      JobKind.requiredParentKind kind = some other.kind := by
  cases parentJobId with
  | none =>
      have hpure : Yields (pure u : JobsTx Unit) (jobs.map rowOf) u s := by cases kind <;> exact h
      obtain ⟨-, rfl⟩ := yields_pure hpure
      exact ⟨rfl, fun _ hparent => (nomatch hparent)⟩
  | some parent =>
      cases kind with
      | Want => exact absurd h not_yields_throw
      | Hold => exact absurd h not_yields_throw
      | Pull =>
          obtain ⟨rfl, other, hmem, hid, hkind⟩ := yields_parentKindMatches h
          refine ⟨rfl, ?_⟩
          rintro _ ⟨⟩
          exact ⟨other, hmem, hid, congrArg some hkind.symm⟩
      | Encode =>
          obtain ⟨rfl, other, hmem, hid, hkind⟩ := yields_parentKindMatches h
          refine ⟨rfl, ?_⟩
          rintro _ ⟨⟩
          exact ⟨other, hmem, hid, congrArg some hkind.symm⟩

omit [UnicodeTables] in
theorem kind_initial (kind : JobKind) : (JobState.initial kind).kind = kind := by
  cases kind <;> rfl

theorem yields_insertJob {pick : Int} {kind : JobKind} {titleId : TitleId}
    {parentJobId : Option JobId} {job : Job}
    (h : Yields (insertJob pick kind titleId parentJobId) (jobs.map rowOf) job s) :
    s = (jobs ++ [job]).map rowOf ∧ job.titleId = titleId ∧ job.kind = kind ∧
      job.state = JobState.initial kind ∧ job.parentJobId = parentJobId ∧
      newRowid pick (jobs.map rowOf) = some job.id.raw := by
  obtain ⟨raw, _, hinsert, hrest⟩ := yields_bind h
  have hrows := yields_execute hinsert
  unfold insert at hrows
  split at hrows
  · cases hrows
  · next _ hid =>
      split_ifs at hrows with hforeign
      cases hrows
      obtain ⟨hpos, -, -⟩ := newRowid_rowOf hid
      obtain ⟨newId, hnewId, hjob⟩ := yields_lift_bind hrest
      have hid' : newId = ⟨raw, hpos⟩ := by
        rw [JobId.new, dif_pos hpos] at hnewId
        cases hnewId
        rfl
      subst hid'
      obtain ⟨hnew, rfl⟩ := yields_lift hjob
      cases hmade : Job.new ⟨raw, hpos⟩ titleId (JobState.initial kind) parentJobId with
      | error e =>
          rw [hmade] at hnew
          cases hnew
      | ok made =>
          rw [hmade] at hnew
          cases hnew
          obtain ⟨hjid, htitle, hstate, hparent⟩ := Job.new_ok hmade
          refine ⟨?_, htitle, ?_, hstate, hparent, ?_⟩
          · rw [List.map_append, List.map_singleton, rowOf, hjid, htitle, hstate, hparent,
              Job.kind, hstate, kind_initial]
          · rw [Job.kind, hstate, kind_initial]
          · rw [hjid]
            exact hid

end Statements

end Mediaops.JobsTable
