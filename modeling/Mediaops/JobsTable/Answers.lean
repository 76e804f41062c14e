import Mediaops.JobsTable.History

namespace Mediaops.JobsTable

-- Which calls succeed on a medium that fails none of their statements.

open Jobs (JobState JobKind)
open JobMachine

variable [UnicodeTables]

-- The parent that a new job names, if it names one.
def Fits (jobs : List Job) (kind : JobKind) (parentJobId : Option JobId) : Prop :=
  ∀ parent ∈ parentJobId, ∃ other ∈ jobs, other.id = parent ∧
    JobKind.requiredParentKind kind = some other.kind

def Succeeds (jobs : List Job) : Op → Prop
  | .Create kind titleId parentJobId pick =>
      Fits jobs kind parentJobId ∧
        ((kind = .Want ∧ ∃ job ∈ jobs, isOpenWant titleId job) ∨
          newRowid pick (jobs.map rowOf) ≠ none)
  | .Advance id event => ∃ job ∈ jobs, job.id = id ∧ ∃ next, advance job.state event = .ok next

section Calm

variable {jobs : List Job} {s : List Row}

open Tx

theorem getJob_calm (id : JobId) :
    getJob id ⟨s, jobs.map rowOf, []⟩ =
      (.ok (jobs.find? fun job => job.id = id), ⟨s, jobs.map rowOf, []⟩) := by
  rw [getJob, query_calm, find_rowOf]
  cases jobs.find? fun job => job.id = id with
  | none => rfl
  | some job =>
      rw [Option.map_some, Option.mapM_some, jobFromRow_rowOf]
      rfl

theorem validateParent_calm (hsound : Sound jobs) {kind : JobKind} {parentJobId : Option JobId}
    (h : Fits jobs kind parentJobId) :
    validateParent kind parentJobId ⟨s, jobs.map rowOf, []⟩ = (.ok (), ⟨s, jobs.map rowOf, []⟩) := by
  cases parentJobId with
  | none => cases kind <;> rfl
  | some parent =>
      obtain ⟨other, hother, hid, hkind⟩ := h parent rfl
      have hmatches : ∀ expected, other.kind = expected →
          parentKindMatches parent expected ⟨s, jobs.map rowOf, []⟩ =
            (.ok (), ⟨s, jobs.map rowOf, []⟩) := by
        intro expected hexpected
        obtain ⟨n, hn, hget⟩ := List.mem_iff_getElem.mp hother
        have hfind := find_at hsound ((List.getElem?_eq_getElem hn).trans (congrArg some hget))
        rw [hid] at hfind
        rw [parentKindMatches, bind_ok (getJob_calm parent), hfind]
        dsimp only
        rw [if_neg (not_not_intro hexpected)]
        rfl
      cases kind with
      | Want => cases hkind
      | Hold => cases hkind
      | Pull => exact hmatches .Want (Option.some.inj hkind).symm
      | Encode => exact hmatches .Pull (Option.some.inj hkind).symm

theorem openWant_calm (jobs : List Job) (titleId : TitleId) : ∃ found,
    openWant titleId ⟨s, jobs.map rowOf, []⟩ = (.ok found, ⟨s, jobs.map rowOf, []⟩) ∧
      (found = none → ∀ job ∈ jobs, ¬isOpenWant titleId job) := by
  have hcalm := query_calm sqliteFault (fun rows =>
    ((rows.filter (isOpenWantOf titleId)).insertionSort byId).head?.mapM jobFromRow) s (jobs.map rowOf)
  cases hresult : (((jobs.map rowOf).filter (isOpenWantOf titleId)).insertionSort byId).head?.mapM
      jobFromRow with
  | ok found =>
      rw [hresult] at hcalm
      have hyields : Yields (openWant titleId) (jobs.map rowOf) found (jobs.map rowOf) :=
        ⟨_, _, rfl, hcalm, rfl⟩
      exact ⟨found, hcalm, (yields_openWant hyields).2.2⟩
  | error e =>
      cases hhead : (((jobs.map rowOf).filter (isOpenWantOf titleId)).insertionSort byId).head? with
      | none =>
          rw [hhead] at hresult
          cases hresult
      | some row =>
          have hrow := (List.mem_insertionSort byId).mp (List.mem_of_mem_head? hhead)
          obtain ⟨job, -, rfl⟩ := List.mem_map.mp (List.mem_filter.mp hrow).1
          rw [hhead, Option.mapM_some, jobFromRow_rowOf] at hresult
          cases hresult

theorem insertJob_calm {pick id : Int} {kind : JobKind} {titleId : TitleId}
    {parentJobId : Option JobId} (hfits : Fits jobs kind parentJobId)
    (hid : newRowid pick (jobs.map rowOf) = some id) :
    ∃ job next, insertJob pick kind titleId parentJobId ⟨s, jobs.map rowOf, []⟩ =
      (.ok job, ⟨s, next, []⟩) := by
  obtain ⟨hpos, -, hfresh⟩ := newRowid_rowOf hid
  have hforeign : ∀ parent ∈ parentJobId.map JobId.raw,
      parent ∈ id :: (jobs.map rowOf).map Row.id := by
    intro raw hraw
    obtain ⟨parent, hparent, rfl⟩ := Option.map_eq_some_iff.mp hraw
    obtain ⟨other, hother, rfl, -⟩ := hfits parent hparent
    exact List.mem_cons_of_mem _ (List.mem_map.mpr ⟨rowOf other, List.mem_map_of_mem hother, rfl⟩)
  have hinsert : insert pick titleId.render kind.asStr (JobState.initial kind).asStr
      (parentJobId.map JobId.raw) (jobs.map rowOf) = .ok (id, jobs.map rowOf ++
        [⟨id, titleId.render, kind.asStr, (JobState.initial kind).asStr, parentJobId.map JobId.raw⟩]) := by
    rw [insert, hid]
    exact if_pos hforeign
  have hnew : JobId.new id = .ok ⟨id, hpos⟩ := dif_pos hpos
  have hself : parentJobId ≠ some ⟨id, hpos⟩ := by
    rintro rfl
    obtain ⟨other, hother, hsame, -⟩ := hfits _ rfl
    exact hfresh other hother (congrArg JobId.raw hsame)
  have hroot : ¬(((JobState.initial kind).kind = .Want ∨ (JobState.initial kind).kind = .Hold) ∧
      parentJobId ≠ none) := by
    rintro ⟨hkind, hsome⟩
    obtain ⟨parent, rfl⟩ := Option.ne_none_iff_exists'.mp hsome
    obtain ⟨_, _, _, hrequired⟩ := hfits parent rfl
    rw [kind_initial] at hkind
    rcases hkind with rfl | rfl <;> cases hrequired
  obtain ⟨job, hjob⟩ : ∃ job, Job.new ⟨id, hpos⟩ titleId (JobState.initial kind) parentJobId =
      .ok job := by
    rw [Job.new, dif_neg hself, dif_neg hroot]
    exact ⟨_, rfl⟩
  have hlast : ∀ conn : Conn (List Row), lift (((Job.new ⟨id, hpos⟩ titleId (JobState.initial kind) parentJobId).mapError
      StoreError.Job)) conn = (.ok job, conn) := by
    intro conn
    rw [hjob]
    rfl
  rw [insertJob, bind_ok (execute_calm hinsert), hnew]
  exact ⟨job, _, hlast _⟩

theorem createJob_calm (hsound : Sound jobs) {pick : Int} {kind : JobKind} {titleId : TitleId}
    {parentJobId : Option JobId} (h : Succeeds jobs (.Create kind titleId parentJobId pick)) :
    ∃ job, ((createJob pick kind titleId parentJobId).run (jobs.map rowOf) []).1 = .ok job := by
  obtain ⟨hfits, hroom⟩ := h
  have hdone : ∀ job next, createBody pick kind titleId parentJobId
        ⟨jobs.map rowOf, jobs.map rowOf, []⟩ = (.ok job, ⟨jobs.map rowOf, next, []⟩) →
      ∃ job, ((createJob pick kind titleId parentJobId).run (jobs.map rowOf) []).1 = .ok job := by
    intro job next hbody
    exact ⟨job, congrArg Prod.fst (run_atomically_calm hbody)⟩
  have hvalid := validateParent_calm (s := jobs.map rowOf) hsound hfits
  by_cases hkind : kind = .Want
  · obtain ⟨found, hopen, hnone⟩ := openWant_calm (s := jobs.map rowOf) jobs titleId
    cases found with
    | some existing =>
        refine hdone existing (jobs.map rowOf) ?_
        rw [createBody, bind_ok hvalid, if_pos hkind]
        exact bind_ok hopen
    | none =>
        obtain ⟨id, hid⟩ : ∃ id, newRowid pick (jobs.map rowOf) = some id := by
          rcases hroom with ⟨-, other, hother, hwant⟩ | hsome
          · exact absurd hwant (hnone rfl other hother)
          · exact Option.ne_none_iff_exists'.mp hsome
        obtain ⟨job, next, hjob⟩ := insertJob_calm (s := jobs.map rowOf) hfits hid
        refine hdone job next (Eq.trans ?_ hjob)
        rw [createBody, bind_ok hvalid, if_pos hkind]
        exact bind_ok hopen
  · obtain ⟨id, hid⟩ : ∃ id, newRowid pick (jobs.map rowOf) = some id := by
      rcases hroom with ⟨hwant, -⟩ | hsome
      · exact absurd hwant hkind
      · exact Option.ne_none_iff_exists'.mp hsome
    obtain ⟨job, next, hjob⟩ := insertJob_calm (s := jobs.map rowOf) hfits hid
    refine hdone job next (Eq.trans ?_ hjob)
    rw [createBody, bind_ok hvalid, if_neg hkind]

theorem advanceJob_calm (hsound : Sound jobs) {id : JobId} {event : JobEvent}
    (h : Succeeds jobs (.Advance id event)) :
    ∃ job, ((advanceJob id event).run (jobs.map rowOf) []).1 = .ok job := by
  obtain ⟨job, hmem, rfl, state, hstate⟩ := h
  obtain ⟨n, hn, hget⟩ := List.mem_iff_getElem.mp hmem
  have hfind := find_at hsound ((List.getElem?_eq_getElem hn).trans (congrArg some hget))
  obtain ⟨next, hnext⟩ : ∃ next, job.advance event = .ok next := by
    cases hadvance : job.advance event with
    | ok next => exact ⟨next, rfl⟩
    | error e =>
        unfold Job.advance at hadvance
        split at hadvance
        · cases hadvance
        · next hrefused =>
            rw [hstate] at hrefused
            cases hrefused
  have hcount : ((jobs.map rowOf).filter (isAt job.id.raw job.state.asStr)).length ≠ 0 := by
    have hin : rowOf job ∈ (jobs.map rowOf).filter (isAt job.id.raw job.state.asStr) :=
      List.mem_filter.mpr ⟨List.mem_map_of_mem hmem, decide_eq_true ⟨rfl, rfl⟩⟩
    intro hzero
    rw [List.length_eq_zero_iff.mp hzero] at hin
    cases hin
  have hbody : ∃ rows, advanceBody job.id event ⟨jobs.map rowOf, jobs.map rowOf, []⟩ =
      (.ok next, ⟨jobs.map rowOf, rows, []⟩) := by
    rw [advanceBody, bind_ok (getJob_calm job.id), hfind]
    dsimp only
    have hlift : lift ((job.advance event).mapError StoreError.Job) ⟨jobs.map rowOf, jobs.map rowOf, []⟩ =
        (.ok next, ⟨jobs.map rowOf, jobs.map rowOf, []⟩) := by
      rw [hnext]
      rfl
    rw [bind_ok hlift, bind_ok (execute_calm rfl), if_neg hcount]
    exact ⟨_, rfl⟩
  obtain ⟨rows, hbody⟩ := hbody
  exact ⟨next, congrArg Prod.fst (run_atomically_calm hbody)⟩

end Calm

theorem succeeds_of_moved {jobs jobs' : List Job} {op : Op} {job : Job}
    (h : Moved jobs op job jobs') : Succeeds jobs op := by
  cases h with
  | Found titleId pick _ hmem hwant =>
      exact ⟨fun _ hparent => (nomatch hparent), .inl ⟨rfl, job, hmem, hwant⟩⟩
  | Created pick _ hid _ hparent _ =>
      exact ⟨hparent, .inr (by rw [hid]; exact Option.some_ne_none _)⟩
  | Advanced before after old _ event hjobs hnext =>
      subst hjobs
      obtain ⟨_, hstate, _⟩ := Job.advance_ok hnext
      exact ⟨old, List.mem_append_right _ List.mem_cons_self, rfl, _, hstate⟩

-- A call does what it says, or fails and changes nothing. On a medium that fails nothing
-- it fails for a reason: a parent that does not fit, a row that is not there, a move that
-- is not legal, or no rowid left.
theorem jobs_table_calls (calls : List Call) :
    ∃ jobs, run [] calls = jobs.map rowOf ∧
      (∀ call, (∃ e, exec (run [] calls) call = (.error e, run [] calls)) ∨
        ∃ job jobs', exec (run [] calls) call = (.ok job, jobs'.map rowOf) ∧
          Moved jobs call.op job jobs' ∧ Succeeds jobs call.op) ∧
      ∀ op, Succeeds jobs op → ∃ job rows, exec (run [] calls) ⟨op, []⟩ = (.ok job, rows) := by
  obtain ⟨jobs, hrun, hsound⟩ := run_jobs calls
  rw [hrun]
  refine ⟨jobs, rfl, fun call => ?_, fun op hop => ?_⟩
  · cases hexec : exec (jobs.map rowOf) call with
    | mk result rows =>
        rcases exec_cases hsound hexec with ⟨e, rfl, rfl⟩ | ⟨job, jobs', rfl, rfl, hmoved⟩
        · exact .inl ⟨e, rfl⟩
        · exact .inr ⟨job, jobs', rfl, hmoved, succeeds_of_moved hmoved⟩
  · have hok : ∃ job, (exec (jobs.map rowOf) ⟨op, []⟩).1 = .ok job := by
      cases op with
      | Create kind titleId parentJobId pick => exact createJob_calm hsound hop
      | Advance id event => exact advanceJob_calm hsound hop
    obtain ⟨job, hjob⟩ := hok
    exact ⟨job, _, Prod.ext hjob rfl⟩

end Mediaops.JobsTable
