import Mediaops.Api.Budget
import Mediaops.Scheduler

namespace Mediaops.Scheduler

open Api

-- Every bind that a pass tries passes the API's own budget check: the running,
-- saturating sums of the pass are the sums the API would compute.

def wordMax : Nat := 2 ^ 64 - 1

theorem saturatingAdd_toNat (a b : UInt64) :
    (saturatingAdd a b).toNat = min (a.toNat + b.toNat) wordMax := by
  unfold saturatingAdd wordMax
  by_cases hlt : a.toNat + b.toNat < 2 ^ 64
  · rw [checkedAdd_of_lt hlt, Option.getD_some, toNat_add_of_lt hlt]
    omega
  · have hnone : checkedAdd a b = none := if_neg hlt
    rw [hnone, Option.getD_none, UInt64.toNat_ofNat']
    omega

-- A saturating sum is the sum cut off at the largest word.
theorem foldl_saturatingAdd {α : Type} (len : α → UInt64) (sum : UInt64) (rows : List α) :
    ((rows.map len).foldl saturatingAdd sum).toNat =
      min (sum.toNat + Budget.total (fun row => (len row).toNat) rows) wordMax := by
  induction rows generalizing sum with
  | nil =>
      have hlt := sum.toNat_lt
      simp only [List.map_nil, List.foldl_nil, Budget.total, List.sum_nil, wordMax]
      omega
  | cons row rest ih =>
      rw [List.map_cons, List.foldl_cons, ih, saturatingAdd_toNat, Budget.total_cons]
      omega

theorem boundTo_metadata (worker : WorkerKind) (job : HomeObject) :
    (boundTo worker job).kind = job.kind ∧ (boundTo worker job).metadata = job.metadata := by
  unfold boundTo
  split <;> exact ⟨rfl, rfl⟩

section

variable [UnicodeTables] (disk : Disk)

-- What a share still needs on disk.
def diskCost (spec : JobSpec) : Nat :=
  match pullRemainingBytes disk spec with
  | .ok remaining => remaining.toNat
  | .error _ => 0

variable {disk}

theorem diskCost_ok {spec : JobSpec} {remaining : UInt64}
    (h : pullRemainingBytes disk spec = .ok remaining) : diskCost disk spec = remaining.toNat := by
  rw [diskCost, h]

omit [UnicodeTables] in
theorem stagedRemaining_le {fileLen remaining : UInt64} {paths : List Text}
    (h : stagedRemaining disk fileLen paths = .ok remaining) : remaining.toNat ≤ fileLen.toNat := by
  induction paths with
  | nil =>
      cases h
      exact le_refl _
  | cons path rest ih =>
      unfold stagedRemaining at h
      split at h
      · split at h
        · cases h
          unfold saturatingSub
          split
          · next hle =>
              rw [UInt64.toNat_sub_of_le _ _ hle]
              omega
          · exact Nat.zero_le _
        · cases h
      · exact ih h
      · cases h

theorem pullRemainingBytes_le {spec : JobSpec} {remaining : UInt64}
    (h : pullRemainingBytes disk spec = .ok remaining) : remaining.toNat ≤ shareCost spec := by
  obtain ⟨id, -, h₁⟩ := Checks.bind_ok h
  dsimp only at h₁
  split at h₁
  · obtain ⟨name, -, h₂⟩ := Checks.bind_ok h₁
    obtain ⟨staging, -, h₃⟩ := Checks.bind_ok h₂
    exact stagedRemaining_le h₃
  · cases h₁

theorem diskCost_le (spec : JobSpec) : diskCost disk spec ≤ shareCost spec := by
  unfold diskCost
  split
  · next h => exact pullRemainingBytes_le h
  · exact Nat.zero_le _

-- The staging directory can be read for each of the Jobs.
def Readable (disk : Disk) (specs : List JobSpec) : Prop :=
  ∀ spec ∈ specs, ∃ remaining, pullRemainingBytes disk spec = .ok remaining

theorem reservedDisk_ok {sum result : UInt64} {specs : List JobSpec}
    (h : reservedDisk disk sum specs = .ok result) : Readable disk specs ∧
      result.toNat = min (sum.toNat + Budget.total (diskCost disk) specs) wordMax := by
  induction specs generalizing sum with
  | nil =>
      obtain rfl : sum = result := Except.ok.inj h
      have hlt := sum.toNat_lt
      refine ⟨by simp [Readable], ?_⟩
      simp only [Budget.total, List.map_nil, List.sum_nil, wordMax]
      omega
  | cons spec rest ih =>
      obtain ⟨remaining, hremaining, h₁⟩ := Checks.bind_ok h
      obtain ⟨hread, hresult⟩ := ih h₁
      constructor
      · intro other hother
        rcases List.mem_cons.mp hother with rfl | hother
        · exact ⟨remaining, hremaining⟩
        · exact hread other hother
      · rw [hresult, saturatingAdd_toNat, Budget.total_cons, diskCost_ok hremaining]
        omega

-- The API's checked sum over the same Jobs.
theorem apiReservedDisk_ok {sum : UInt64} {specs : List JobSpec} (hread : Readable disk specs)
    (hlt : sum.toNat + Budget.total (diskCost disk) specs < 2 ^ 64) :
    ∃ result, Admission.reservedDisk disk sum specs = .ok result ∧
      result.toNat = sum.toNat + Budget.total (diskCost disk) specs := by
  induction specs generalizing sum with
  | nil => exact ⟨sum, rfl, by simp [Budget.total]⟩
  | cons spec rest ih =>
      obtain ⟨remaining, hremaining⟩ := hread spec List.mem_cons_self
      rw [Budget.total_cons, diskCost_ok hremaining] at hlt ⊢
      have hadd : sum.toNat + remaining.toNat < 2 ^ 64 := by omega
      have hrest : (sum + remaining).toNat + Budget.total (diskCost disk) rest < 2 ^ 64 := by
        rw [toNat_add_of_lt hadd]
        omega
      obtain ⟨result, hresult, heq⟩ :=
        ih (fun other hother => hread other (List.mem_cons_of_mem _ hother)) hrest
      refine ⟨result, ?_, by rw [heq, toNat_add_of_lt hadd]; omega⟩
      unfold Admission.reservedDisk
      rw [hremaining]
      simp only [Except.mapError, bind, Except.bind, checkedAdd_of_lt hadd]
      exact hresult

theorem fits_some {bound onDisk remaining : UInt64} {spec : JobSpec}
    (h : fits disk bound onDisk spec = .ok (some remaining)) :
    ∃ free, disk.freeBytes spec.libraryRoot = .ok free ∧
      pullRemainingBytes disk spec = .ok remaining ∧
      pullFits (UInt64.ofNat (2 ^ 64 - 1)) 0 spec.maxCopy bound spec.fileLen = true ∧
      pullFits free spec.minFree 0 onDisk remaining = true ∧
      disk.installFits spec = .ok true := by
  obtain ⟨free, hfree, h₁⟩ := Checks.bind_ok h
  obtain ⟨left, hleft, h₂⟩ := Checks.bind_ok h₁
  split at h₂
  · cases h₂
  next hboth =>
    obtain ⟨install, hinstall, h₃⟩ := Checks.bind_ok h₂
    simp only [Bool.or_eq_true, Bool.not_eq_true', not_or, Bool.not_eq_false] at hboth
    cases install with
    | false => cases h₃
    | true =>
        cases h₃
        exact ⟨free, hfree, hleft, hboth.1, hboth.2, hinstall⟩

-- What holds between two rounds of the loop.
structure LoopInv (disk : Disk) (bound onDisk : UInt64) (s : Store) (jobs : List HomeObject) :
    Prop where
  sound : Store.Sound s
  typed : Typed s
  nonempty : ∀ job ∈ s.objects, ∀ spec, job.spec = .Job spec → spec.fileLen ≠ 0
  rows : ∀ job ∈ jobs, job ∈ s.objects
  names : Table.Keyed HomeObject.key jobs
  boundBytes : bound.toNat = min (Budget.total shareCost (shares s.objects)) wordMax
  readable : Readable disk (shares s.objects)
  diskBytes : onDisk.toNat = min (Budget.total (diskCost disk) (shares s.objects)) wordMax

-- Files are not empty, so a Job that fits leaves no sum at its cut-off, and the
-- API finds the sums of the pass.
theorem LoopInv.budget {bound onDisk remaining : UInt64} {s : Store} {jobs : List HomeObject}
    {job : HomeObject} {spec : JobSpec} (h : LoopInv disk bound onDisk s (job :: jobs))
    (hspec : job.spec = .Job spec) (hfits : fits disk bound onDisk spec = .ok (some remaining)) :
    Admission.bindBudget disk (s.list (some .Job)) spec = .ok () := by
  obtain ⟨free, hfree, hremaining, hcopy, hdisk, hinstall⟩ := fits_some hfits
  have hlen : spec.fileLen.toNat ≠ 0 := fun e =>
    h.nonempty job (h.rows job List.mem_cons_self) spec hspec (UInt64.toNat_inj.mp e)
  have hcopy' := pullFits_iff.mp hcopy
  have hperm := list_perm_jobs h.typed
  have hbound := h.boundBytes
  have honDisk := h.diskBytes
  unfold wordMax at hbound honDisk
  have hle : Budget.total (diskCost disk) (shares s.objects) ≤
      Budget.total shareCost (shares s.objects) := Budget.total_le_total fun spec _ => diskCost_le spec
  -- The copy budget.
  have hexact : Budget.total shareCost (shares (s.list (some .Job))) = bound.toNat := by
    rw [Budget.total_perm hperm]
    omega
  have hlens : Budget.total UInt64.toNat ((shares (s.list (some .Job))).map JobSpec.fileLen) =
      bound.toNat := by
    rw [← hexact, Budget.total, Budget.total, List.map_map]
    rfl
  have hlt := bound.toNat_lt
  have hlensLt : (0 : UInt64).toNat + Budget.total UInt64.toNat
      ((shares (s.list (some .Job))).map JobSpec.fileLen) < 2 ^ 64 := by
    rw [hlens, UInt64.toNat_zero]
    omega
  obtain ⟨reserved, hreserved⟩ :=
    sumChecked_of_lt (invalid "bound byte budget overflow") hlensLt
  obtain rfl : reserved = bound := by
    refine UInt64.toNat_inj.mp ?_
    rw [sumChecked_ok hreserved, hlens, UInt64.toNat_zero, Nat.zero_add]
  -- The disk watermark.
  have hdiskLt : (0 : UInt64).toNat +
      Budget.total (diskCost disk) (shares (s.list (some .Job))) < 2 ^ 64 := by
    rw [Budget.total_perm hperm, UInt64.toNat_zero]
    omega
  obtain ⟨left, hleft, hleftEq⟩ := apiReservedDisk_ok
    (fun other hother => h.readable other (hperm.mem_iff.mp hother)) hdiskLt
  obtain rfl : left = onDisk := by
    refine UInt64.toNat_inj.mp ?_
    rw [hleftEq, Budget.total_perm hperm, UInt64.toNat_zero]
    omega
  unfold Admission.bindBudget
  change (Admission.sumChecked _ 0 ((shares (s.list (some .Job))).map JobSpec.fileLen) >>= _) = _
  rw [hreserved, hfree, hremaining]
  change (Admission.reservedDisk disk 0 (shares (s.list (some .Job))) >>= _) = _
  rw [hleft]
  change (if (!pullFits _ 0 spec.maxCopy reserved spec.fileLen) = true then _ else _) = _
  rw [hcopy]
  change (if (!pullFits free spec.minFree 0 left remaining) = true then _ else _) = _
  rw [hdisk, hinstall]
  rfl

-- A bind of a stored Job is refused and changes nothing, or binds that Job.
theorem patch_bind_cases {s : Store} (hs : Store.Sound s) (ht : Typed s) {job : HomeObject}
    (hjob : job ∈ s.objects) (hkind : job.kind = .Job) (env : Env) :
    (∃ e, Serve.patch env s s .Scheduler .PatchBind (boundTo .Pull job) = (.error e, s)) ∨
      ∃ spec worker status, job.spec = .Job spec ∧ job.status = .Job status ∧
        Admission.BindAdmitted env.disk s spec worker status ∧
        Serve.patch env s s .Scheduler .PatchBind (boundTo .Pull job) =
          (.ok (), s.write ⟨.Modified, boundRow s job spec⟩) := by
  obtain ⟨hk, hm⟩ := boundTo_metadata .Pull job
  have hfound : s.get .Job job.metadata.name = some job := hkind ▸ hs.get_of_mem hjob
  unfold Serve.patch
  split
  · next e _ => exact .inl ⟨e, rfl⟩
  next hadmit =>
    obtain ⟨-, hrest⟩ := Checks.seq_ok hadmit
    obtain ⟨old, hcurrent, hcheck⟩ := Checks.bind_ok (Checks.when_ok hrest).2
    obtain ⟨hold, -⟩ := Admission.current_ok hcurrent
    rw [hk, hm, hkind, hfound] at hold
    cases hold
    obtain ⟨spec, worker, status, hspec, hworker, hstatus, hbind⟩ :=
      Admission.validateBind_ok hcheck
    have hnew : Serve.bindSpec s (boundTo .Pull job) = .ok (.Job (boundSpec spec)) := by
      simp only [Serve.bindSpec, hworker, hm, hfound, Option.map_some, hspec, hbind.node,
        hbind.worker]
      rfl
    simp only [Serve.patchWrite, hk, hm, hkind, ne_eq, not_true_eq_false, if_false, hnew]
    cases hres : s.patchSpec .Job job.metadata.name (.Job (boundSpec spec))
        job.metadata.resourceVersion with
    | mk result s' =>
        cases result with
        | error e =>
            obtain rfl := Store.transaction_error (Store.quiet_patchSpecTx _ _ _ _) hres
            exact .inl ⟨Serve.mapStore e, rfl⟩
        | ok obj =>
            have hy := Store.transaction_ok (Store.quiet_patchSpecTx _ _ _ _) hres
            obtain ⟨prev, hprev, -, rfl, rfl⟩ := Store.yields_patchSpecTx hy
            rw [hfound] at hprev
            cases hprev
            refine .inr ⟨spec, worker, status, hspec, hstatus, hbind, ?_⟩
            have hchanged : job.spec ≠ .Job (boundSpec spec) := by
              rw [hspec]
              exact (boundSpec_ne hbind.unbound).symm
            simp only [Serve.reply, HomeObject.row, boundRow, rewritten, ht.version job hjob,
              if_pos hchanged]
            rfl

-- An accepted bind keeps the sums of the loop in step with the store.
theorem LoopInv.bound {bound onDisk remaining : UInt64} {s : Store} {jobs : List HomeObject}
    {job : HomeObject} {spec worker : JobSpec} {status : JobStatus}
    (h : LoopInv disk bound onDisk s (job :: jobs)) (hkind : job.kind = .Job)
    (hspec : job.spec = .Job spec) (hstatus : job.status = .Job status)
    (hbind : Admission.BindAdmitted disk s spec worker status)
    (hremaining : pullRemainingBytes disk spec = .ok remaining) :
    LoopInv disk (saturatingAdd bound spec.fileLen) (saturatingAdd onDisk remaining)
      (s.write ⟨.Modified, boundRow s job spec⟩) jobs := by
  have hjob := h.rows job List.mem_cons_self
  have hkey : job.key = (boundRow s job spec).key := rfl
  have hwrite : Write s ⟨.Modified, boundRow s job spec⟩ :=
    .Job (.Bound job spec worker status disk hjob hkind hspec hstatus hbind)
  have hpending : (!status.phase.isTerminal) = true := by
    rw [hbind.pending]
    rfl
  have hshare : Admission.reservation (boundRow s job spec) = some (boundSpec spec) :=
    Eq.trans (reservation_of_job rfl hstatus) (if_pos ⟨pull_nodeName_ne, hpending⟩)
  have hnew : (shares (s.write ⟨.Modified, boundRow s job spec⟩).objects).Perm
      (boundSpec spec :: shares s.objects) := by
    have hafter := shares_after h.sound ⟨.Modified, boundRow s job spec⟩ WatchType.noConfusion
    have hbefore := shares_before h.sound ⟨.Modified, boundRow s job spec⟩ hjob hkey
    rw [hshare] at hafter
    rw [reservation_unbound hspec hbind.unbound] at hbefore
    exact hafter.trans (List.Perm.cons _ hbefore.symm)
  have hnamed := List.nodup_cons.mp h.names
  refine ⟨h.sound.write (hwrite.change h.sound), h.typed.write h.sound hwrite, ?_, ?_, hnamed.2,
    ?_, ?_, ?_⟩
  · intro obj hobj spec' hspec'
    rcases h.sound.mem_write hobj with ⟨-, rfl⟩ | ⟨hold, -⟩
    · cases hspec'
      exact h.nonempty job hjob spec hspec
    · exact h.nonempty obj hold spec' hspec'
  · intro other hother
    refine h.sound.mem_write_of_ne (h.rows other (List.mem_cons_of_mem _ hother)) fun heq => ?_
    exact hnamed.1 (heq.trans hkey.symm ▸ List.mem_map_of_mem hother)
  · rw [saturatingAdd_toNat, h.boundBytes, Budget.total_perm hnew, Budget.total_cons]
    change min (min (Budget.total shareCost (shares s.objects)) wordMax + shareCost spec) wordMax =
      min (shareCost spec + Budget.total shareCost (shares s.objects)) wordMax
    omega
  · intro other hother
    rcases List.mem_cons.mp (hnew.mem_iff.mp hother) with rfl | hother
    · exact ⟨remaining, hremaining⟩
    · exact h.readable other hother
  · rw [saturatingAdd_toNat, h.diskBytes, Budget.total_perm hnew, Budget.total_cons]
    have hcost : diskCost disk (boundSpec spec) = remaining.toNat := diskCost_ok hremaining
    rw [hcost]
    omega

theorem LoopInv.tail {bound onDisk : UInt64} {s : Store} {job : HomeObject}
    {jobs : List HomeObject} (h : LoopInv disk bound onDisk s (job :: jobs)) :
    LoopInv disk bound onDisk s jobs :=
  ⟨h.sound, h.typed, h.nonempty, fun other hother => h.rows other (List.mem_cons_of_mem _ hother),
    (List.nodup_cons.mp h.names).2, h.boundBytes, h.readable, h.diskBytes⟩

omit [UnicodeTables] in
theorem isPending_some {job : HomeObject} {spec : JobSpec} (h : isPending job = some spec) :
    job.spec = .Job spec := by
  unfold isPending at h
  split at h
  · split at h
    · cases h
    · cases h
      assumption
  · cases h

-- The attempt is made on the stored row and passes the budget check there.
def Attempt.Passes (disk : Disk) (attempt : Attempt) : Prop :=
  attempt.job ∈ attempt.state.objects ∧ ∃ spec, attempt.job.spec = .Job spec ∧
    Admission.bindBudget disk (attempt.state.list (some .Job)) spec = .ok ()

-- The API answers each bind with this disk, at whatever time it is asked.
def AnswersBinds (disk : Disk) (patch : Store → HomeObject → Serve.Reply) : Prop :=
  ∀ s obj, ∃ env : Env, env.disk = disk ∧ patch s obj = Serve.patch env s s .Scheduler .PatchBind obj

theorem bindJobs_passes {patch : Store → HomeObject → Serve.Reply}
    (hpatch : AnswersBinds disk patch) {bound onDisk : UInt64} {s : Store} {jobs : List HomeObject}
    (h : LoopInv disk bound onDisk s jobs) :
    ∀ attempt ∈ (bindJobs disk patch bound onDisk s jobs).attempts, attempt.Passes disk := by
  induction jobs generalizing bound onDisk s with
  | nil => simp [bindJobs]
  | cons job rest ih =>
      unfold bindJobs
      split
      · exact ih h.tail
      next spec hpending =>
        have hspec := isPending_some hpending
        split
        · simp
        · exact ih h.tail
        next remaining hfits =>
          have hjob := h.rows job List.mem_cons_self
          have hkind := Agrees.job_of_spec (h.typed.agrees job hjob) hspec
          have hpass : Attempt.Passes disk ⟨s, job⟩ := ⟨hjob, spec, hspec, h.budget hspec hfits⟩
          obtain ⟨free, -, hremaining, -⟩ := fits_some hfits
          obtain ⟨env, hdisk, hcall⟩ := hpatch s (boundTo .Pull job)
          dsimp only
          rcases patch_bind_cases h.sound h.typed hjob hkind env with
            ⟨e, hdenied⟩ | ⟨spec', worker, status, hspec', hstatus, hbind, hbound⟩
          · rw [hcall, hdenied]
            dsimp only
            split
            · intro attempt hattempt
              rcases List.mem_cons.mp hattempt with rfl | hattempt
              · exact hpass
              · exact ih h.tail attempt hattempt
            · intro attempt hattempt
              rw [List.mem_singleton.mp hattempt]
              exact hpass
          · rw [hcall, hbound]
            rw [hspec] at hspec'
            cases hspec'
            intro attempt hattempt
            rcases List.mem_cons.mp hattempt with rfl | hattempt
            · exact hpass
            · exact ih (h.bound hkind hspec hstatus (hdisk ▸ hbind) hremaining) attempt hattempt

-- What the API guarantees of its store: rows are sound and typed, and no Job is
-- of an empty file.
structure Stored (s : Store) : Prop where
  sound : Store.Sound s
  typed : Typed s
  nonempty : ∀ job ∈ s.objects, ∀ spec, job.spec = .Job spec → spec.fileLen ≠ 0

theorem bindPending_passes {patch : Store → HomeObject → Serve.Reply}
    (hpatch : AnswersBinds disk patch) (now : Int) {s : Store} (h : Stored s) :
    ∀ attempt ∈ (bindPending disk patch now s).attempts, attempt.Passes disk := by
  unfold bindPending
  split
  · simp
  split
  · simp
  split
  · simp
  dsimp only
  have hperm : ((s.list (some .Job)).insertionSort bindOrder).Perm
      (s.objects.filter (Store.ofKind (some .Job))) :=
    (List.perm_insertionSort _ _).trans (List.perm_insertionSort _ _)
  have hshares : (shares ((s.list (some .Job)).insertionSort bindOrder)).Perm (shares s.objects) :=
    (shares_perm (List.perm_insertionSort _ _)).trans (list_perm_jobs h.typed)
  split
  · simp
  next onDisk hdisk =>
    obtain ⟨hread, honDisk⟩ := reservedDisk_ok hdisk
    refine bindJobs_passes hpatch ⟨h.sound, h.typed, h.nonempty, fun job hjob => ?_, ?_, ?_,
      fun spec hspec => ?_, ?_⟩
    · exact (List.mem_filter.mp (hperm.mem_iff.mp hjob)).1
    · have hkeyed : Table.Keyed HomeObject.key (s.objects.filter (Store.ofKind (some .Job))) :=
        List.Nodup.sublist (List.filter_sublist.map HomeObject.key) h.sound.keyed
      exact hkeyed.perm hperm.symm
    · rw [foldl_saturatingAdd, UInt64.toNat_zero, Nat.zero_add]
      exact congrArg (min · wordMax) (Budget.total_perm hshares)
    · exact hread spec (hshares.mem_iff.mpr hspec)
    · rw [honDisk, UInt64.toNat_zero, Nat.zero_add]
      exact congrArg (min · wordMax) (Budget.total_perm hshares)

theorem stored_of_run {s : Store} {past : List Store} (run : Run (s :: past)) : Stored s :=
  ⟨run.settled.sound, run.settled.typed, fun job hjob spec hspec =>
    (run.jobsValid job hjob spec hspec).nonempty⟩

-- Bytes of the bound Jobs that are not over.
def boundBytes (s : Store) : Nat := Budget.total shareCost (shares s.objects)

-- With one copy budget for all Jobs no run exceeds it, and a pass of the
-- scheduler tries no bind that the API would refuse for its budget.
theorem bind_budget (limit : UInt64) (hlimit : 0 < limit) :
    (∀ s past, Run (s :: past) →
      (∀ job ∈ s.objects, ∀ spec, job.spec = .Job spec → spec.maxCopy = limit) →
        boundBytes s ≤ limit.toNat) ∧
    (∀ s, Stored s → ∀ (disk : Disk) (patch : Store → HomeObject → Serve.Reply),
      AnswersBinds disk patch → ∀ now, ∀ attempt ∈ (bindPending disk patch now s).attempts,
        attempt.Passes disk) := by
  constructor
  · intro s past run hsame
    refine run.budgeted.total_le (UInt64.lt_iff_toNat_lt.mp hlimit) fun spec hspec => ?_
    obtain ⟨job, hjob, hheld⟩ := List.mem_filterMap.mp hspec
    exact congrArg UInt64.toNat (hsame job hjob spec (reservation_some hheld).1)
  · intro s h disk patch hpatch now
    exact bindPending_passes hpatch now h

end

def copiesWithin (limit : UInt64) (s : Store) : Bool :=
  s.objects.all fun job => match job.spec with
    | .Job spec => spec.maxCopy = limit
    | _ => true

theorem maxCopy_of_copiesWithin {limit : UInt64} {s : Store} (h : copiesWithin limit s = true) :
    ∀ job ∈ s.objects, ∀ spec, job.spec = .Job spec → spec.maxCopy = limit := by
  intro job hjob spec hspec
  have hone := List.all_eq_true.mp h job hjob
  rw [hspec] at hone
  exact of_decide_eq_true hone

namespace Sample

-- Both films are bound.
def bothBound [UnicodeTables] : Store :=
  session Api.Sample.env Api.Sample.bothQueued [
    (.Scheduler, .Patch .PatchBind (Api.Sample.reported 9 {})),
    (.Scheduler, .Patch .PatchBind { Api.Sample.reported 11 {} with
      metadata := { name := Api.Sample.upName, resourceVersion := 11 } })]

-- The first film's bind is answered when the worker has not been heard of for long.
def answersLate [UnicodeTables] (s : Store) (obj : HomeObject) : Serve.Reply :=
  let now := if obj.metadata.name = Api.Sample.jobName then 1000000 else 100
  Serve.patch { Api.Sample.env with now } s s .Scheduler .PatchBind obj

end Sample

-- The first of two films is denied, the second one is bound, in the state it was planned in.
theorem bind_budget_film :
    let := UnicodeTables.ascii
    let outcome := bindPending Api.Sample.env.disk Sample.answersLate 100 Api.Sample.bothQueued
    (outcome.attempts.map fun attempt => (attempt.job.metadata.name, attempt.state.rv)) =
        [(Api.Sample.jobName, 12), (Api.Sample.upName, 12)] ∧
      outcome.state.rv = 13 ∧ boundBytes outcome.state = 5 ∧
      (∀ attempt ∈ outcome.attempts, attempt.Passes Api.Sample.env.disk) ∧
      boundBytes Sample.bothBound = 10 ∧ boundBytes Sample.bothBound ≤ 50 := by
  intro _ outcome
  obtain ⟨past, run, -⟩ := Api.Sample.bothQueued_reaches
  obtain ⟨past', run', -⟩ := session_reaches run Api.Sample.env [
    (.Scheduler, .Patch .PatchBind (Api.Sample.reported 9 {})),
    (.Scheduler, .Patch .PatchBind { Api.Sample.reported 11 {} with
      metadata := { name := Api.Sample.upName, resourceVersion := 11 } })]
  -- What is computed is computed together.
  have hfacts : (outcome.attempts.map fun attempt =>
        (attempt.job.metadata.name, attempt.state.rv)) =
          [(Api.Sample.jobName, 12), (Api.Sample.upName, 12)] ∧
      outcome.state.rv = 13 ∧ boundBytes outcome.state = 5 ∧
      boundBytes Sample.bothBound = 10 ∧ copiesWithin 50 Sample.bothBound = true := by
    decide +kernel
  obtain ⟨hattempts, hrv, hbytes, hboth, hcopies⟩ := hfacts
  refine ⟨hattempts, hrv, hbytes, ?_, hboth, ?_⟩
  · exact (bind_budget 50 (by decide)).2 _ (stored_of_run run) Api.Sample.env.disk Sample.answersLate
      (fun s obj => ⟨{ Api.Sample.env with
        now := if obj.metadata.name = Api.Sample.jobName then 1000000 else 100 }, rfl, rfl⟩) 100
  · exact (bind_budget 50 (by decide)).1 _ _ run' (maxCopy_of_copiesWithin hcopies)

end Mediaops.Scheduler
