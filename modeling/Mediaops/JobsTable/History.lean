import Mediaops.JobsTable.Runs

namespace Mediaops.JobsTable

-- What holds of the jobs table after any run of calls, and what becomes of a job in it.

open Jobs (JobState JobKind)
open JobMachine
open Ledger (Grows)

variable [UnicodeTables]

theorem run_jobs (calls : List Call) : ∃ jobs, run [] calls = jobs.map rowOf ∧ Sound jobs := by
  obtain ⟨jobs, hrun, hsound, -⟩ := run_sound sound_nil calls
  exact ⟨jobs, hrun, hsound⟩

theorem rows_jobs {jobs jobs' : List Job} (h : jobs.map rowOf = jobs'.map rowOf) : jobs = jobs' := by
  have hread := mapM_jobFromRow jobs
  rw [h, mapM_jobFromRow jobs'] at hread
  cases hread
  rfl

-- The jobs of a table later in a run, next to those of before.
theorem run_later {before after : List Call} {jobs jobs' : List Job}
    (hjobs : run [] before = jobs.map rowOf) (hjobs' : run [] (before ++ after) = jobs'.map rowOf) :
    Sound jobs ∧ Sound jobs' ∧ Grows Step jobs jobs' := by
  obtain ⟨now, hnow, hsound, -⟩ := run_sound sound_nil before
  obtain rfl : now = jobs := rows_jobs (hnow.symm.trans hjobs)
  obtain ⟨later, hlater, hsound', hgrows⟩ := run_sound hsound after
  obtain rfl : later = jobs' := by
    apply rows_jobs
    rw [← hlater, ← hjobs, ← run_append, hjobs']
  exact ⟨hsound, hsound', hgrows⟩

def byJobId (a b : Job) : Prop := byId (rowOf a) (rowOf b)

instance : DecidableRel byJobId := fun a b => inferInstanceAs (Decidable (byId (rowOf a) (rowOf b)))

theorem insertionSort_rowOf (jobs : List Job) :
    (jobs.map rowOf).insertionSort byId = (jobs.insertionSort byJobId).map rowOf :=
  (List.map_insertionSort byJobId byId rowOf jobs fun _ _ _ _ => Iff.rfl).symm

omit [UnicodeTables] in
theorem run_query {α : Type} (fault : StoreError) (f : List Row → Except StoreError α)
    (rows : List Row) : ((Tx.query fault f).run rows []).1 = f rows := by
  rw [Tx.run, Tx.query_calm]

theorem jobs_table_reads (calls : List Call) :
    ∃ jobs, run [] calls = jobs.map rowOf ∧ Sound jobs ∧
      (listJobs.run (run [] calls) []).1 = .ok (jobs.insertionSort byJobId) ∧
      (∀ titleId, ((listJobsByTitle titleId).run (run [] calls) []).1 =
        .ok ((jobs.filter fun job => job.titleId = titleId).insertionSort byJobId)) ∧
      ∀ id, ((getJob id).run (run [] calls) []).1 = .ok (jobs.find? fun job => job.id = id) := by
  obtain ⟨jobs, hrun, hsound⟩ := run_jobs calls
  refine ⟨jobs, hrun, hsound, ?_, fun titleId => ?_, fun id => ?_⟩
  · rw [hrun, listJobs, run_query, insertionSort_rowOf, mapM_jobFromRow]
  · have hfilter : (jobs.map rowOf).filter (fun row => row.titleId = titleId.render) =
        (jobs.filter fun job => job.titleId = titleId).map rowOf := by
      rw [List.filter_map]
      congr 2
      funext job
      exact decide_eq_decide.mpr ⟨fun h => TitleId.render_injective h, congrArg TitleId.render⟩
    rw [hrun, listJobsByTitle, run_query, hfilter, insertionSort_rowOf, mapM_jobFromRow]
  · rw [hrun, getJob, run_query, find_rowOf]
    cases jobs.find? fun job => job.id = id with
    | none => rfl
    | some job => rw [Option.map_some, Option.mapM_some, jobFromRow_rowOf]; rfl

-- What is left of a job, later in a run.
structure Later (job job' : Job) : Prop where
  id : job'.id = job.id
  titleId : job'.titleId = job.titleId
  kind : job'.kind = job.kind
  parent : job'.parentJobId = job.parentJobId
  onward : job' = job ∨ stage job.state < stage job'.state
  steps : Relation.ReflTransGen Step job job'
  settled : terminal job.state = true → job' = job

theorem later_of_steps {job job' : Job} (h : Relation.ReflTransGen Step job job') : Later job job' where
  id := Ledger.kept_reach Job.id (fun _ _ => step_id) h
  titleId := Ledger.kept_reach Job.titleId (fun _ _ => step_titleId) h
  kind := Ledger.kept_reach Job.kind (fun _ _ => step_kind) h
  parent := Ledger.kept_reach Job.parentJobId (fun _ _ => step_parent) h
  onward := Ledger.rank_reach (fun job => stage job.state) (fun _ _ => step_stage) h
  steps := h
  settled hterminal := Ledger.still_reach (not_step_terminal hterminal) h

theorem jobs_table_history (before after : List Call) :
    ∃ jobs jobs' : List Job, run [] before = jobs.map rowOf ∧ run [] (before ++ after) = jobs'.map rowOf ∧
      jobs.length ≤ jobs'.length ∧
      ∀ (n : Nat) (job : Job), jobs[n]? = some job → ∃ job', jobs'[n]? = some job' ∧ Later job job' := by
  obtain ⟨jobs, hjobs, -⟩ := run_jobs before
  obtain ⟨jobs', hjobs', -⟩ := run_jobs (before ++ after)
  obtain ⟨-, -, hgrows⟩ := run_later hjobs hjobs'
  refine ⟨jobs, jobs', hjobs, hjobs', ?_, fun n job hjob => ?_⟩
  · obtain ⟨moved, added, rfl, hmoved⟩ := hgrows
    rw [List.length_append, hmoved.length_eq]
    omega
  · obtain ⟨job', hjob', hsteps⟩ := hgrows.at hjob
    exact ⟨job', hjob', later_of_steps hsteps⟩

-- The row a job waits on.
def parentOf (jobs : List Job) (job : Job) : Option Job :=
  job.parentJobId.bind fun id => jobs.find? fun other => other.id = id

theorem find_at {jobs : List Job} (hsound : Sound jobs) {n : Nat} {job : Job}
    (hjob : jobs[n]? = some job) : jobs.find? (fun other => other.id = job.id) = some job := by
  cases hfind : jobs.find? fun other => other.id = job.id with
  | none =>
      have hnone := List.find?_eq_none.mp hfind job (List.mem_of_getElem? hjob)
      simp at hnone
  | some found =>
      have hid : found.id = job.id := by simpa using List.find?_some hfind
      have hsame := List.inj_on_of_nodup_map hsound.distinct (List.mem_of_find?_eq_some hfind)
        (List.mem_of_getElem? hjob) hid
      rw [hsame]

-- The parent that a queued encode waits on has been installed, and stays so.
theorem ready_later {jobs jobs' : List Job} (hsound : Sound jobs) (hsound' : Sound jobs')
    (hgrows : Grows Step jobs jobs') {n : Nat} {job job' : Job} {indexed : Bool}
    (hjob : jobs[n]? = some job) (hlater : Later job job')
    (hready : encodeReady job (parentOf jobs job) indexed = true)
    (hqueued : job'.state = .Encode .Queued) :
    encodeReady job' (parentOf jobs' job') indexed = true := by
  unfold encodeReady at hready ⊢
  rw [if_pos hqueued]
  split at hready
  · unfold parentOf at hready ⊢
    rw [hlater.parent]
    cases hparent : job.parentJobId with
    | none => simpa [hparent] using hready
    | some id =>
        obtain ⟨m, -, other, hother, hid, -⟩ := hsound.linked n job id hjob hparent
        obtain ⟨other', hother', hsteps⟩ := hgrows.at hother
        have hfind := find_at hsound hother
        have hfind' := find_at hsound' hother'
        have hid' : other'.id = id := (later_of_steps hsteps).id.trans hid
        rw [hid] at hfind
        rw [hid'] at hfind'
        simp only [hparent, Option.bind_some, hfind, hid, decide_true, Bool.true_and,
          decide_eq_true_eq] at hready
        have hstill : other' = other :=
          (later_of_steps hsteps).settled (by rw [hready]; rfl)
        simp only [Option.bind_some, hfind', hstill, hid, hready, decide_true, Bool.and_self]
  · cases hready

-- An encode that is ready stays so, whatever the calls, until it is started.
theorem encode_ready_stays (before after : List Call) (indexed : Bool) :
    ∃ jobs jobs' : List Job, run [] before = jobs.map rowOf ∧
      run [] (before ++ after) = jobs'.map rowOf ∧
      ∀ (n : Nat) (job : Job), jobs[n]? = some job →
        encodeReady job (parentOf jobs job) indexed = true →
        ∃ job', jobs'[n]? = some job' ∧ job'.id = job.id ∧
          (encodeReady job' (parentOf jobs' job') indexed = true ∨
            job'.kind = .Encode ∧ 0 < stage job'.state) := by
  obtain ⟨jobs, hjobs, -⟩ := run_jobs before
  obtain ⟨jobs', hjobs', -⟩ := run_jobs (before ++ after)
  obtain ⟨hsound, hsound', hgrows⟩ := run_later hjobs hjobs'
  refine ⟨jobs, jobs', hjobs, hjobs', fun n job hjob hready => ?_⟩
  obtain ⟨job', hjob', hsteps⟩ := hgrows.at hjob
  have hlater := later_of_steps hsteps
  refine ⟨job', hjob', hlater.id, ?_⟩
  have hstate : job.state = .Encode .Queued := by
    unfold encodeReady at hready
    split at hready
    · assumption
    · cases hready
  rcases hlater.onward with rfl | hstage
  · exact .inl (ready_later hsound hsound' hgrows hjob hlater hready hstate)
  · refine .inr ⟨?_, Nat.lt_of_le_of_lt (Nat.zero_le _) hstage⟩
    rw [hlater.kind, Job.kind, hstate]
    rfl

end Mediaops.JobsTable
