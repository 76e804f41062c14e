import Mediaops.Install.Paths
import Mediaops.Install.Safety
import Mediaops.Pull
import Mediaops.Store.Runs

namespace Mediaops.Pull

-- A pass of the worker, call by call: it keeps what stands at any path that is not
-- the Job's own, and reports a Job as installed only after the verified bytes were
-- at the Job's destination.

open Transfer (Mounted)
open Install (Paths Had)

section

variable [UnicodeTables] (b3 : Bytes → Blake3Hex) (identity : Text → Text → Bytes) (spec : JobSpec)

def destination (spec : JobSpec) : Text := Path.join spec.libraryRoot spec.destRel

-- The staging files of the Job and the slot of its copy.
def Owned (path : Text) : Prop :=
  ∃ paths, Install.pathsOf b3 identity spec = .ok paths ∧ paths.Private path

-- A write that reports the Job as installed has its digest behind it.
def Backed (dest : Text) (past : List (World × World)) (object : HomeObject) : Prop :=
  ∀ status, object.status = .Job status → status.phase = .Installed →
    ∃ digest, status.verifiedB3 = some digest ∧ Had b3 dest digest past

def termsOf : Terms World where
  allowed move := ∀ paths, Install.pathsOf b3 identity spec = .ok paths →
    ∀ w : World, Install.Quiet paths w.volume (move.outside w).volume
  guar past w w' :=
    (∀ path, ¬Owned b3 identity spec path →
      Files.Preserves path w.volume.files w'.volume.files) ∧
    ∀ write, w'.sent = w.sent ++ [write] → Backed b3 (destination spec) past write.object

end

variable [UnicodeTables] {b3 : Bytes → Blake3Hex} {identity : Text → Text → Bytes} {spec : JobSpec}

omit [UnicodeTables] in
theorem not_sent (sent : List Write) (write : Write) : sent ≠ sent ++ [write] := by
  intro h
  have := congrArg List.length h
  simp at this

theorem agreed {paths : Paths} (h : Install.pathsOf b3 identity spec = .ok paths) :
    Install.Agreed (termsOf b3 identity spec) paths where
  rely _ hmove w := hmove paths h w
  guar _ _ _ hv :=
    ⟨fun path hpath => hv path fun hp => hpath ⟨paths, h, hp⟩,
      fun _ hsent => absurd hsent (not_sent _ _)⟩

-- A call that leaves the volume and the list of writes as they are.
theorem guar_store (past : List (World × World)) (w : World) (store : Store) :
    (termsOf b3 identity spec).guar past w { w with store } :=
  ⟨fun path _ => Files.Preserves.refl path _, fun _ hsent => absurd hsent (not_sent _ _)⟩

theorem guar_servePatch {obj : HomeObject} {past : List (World × World)}
    (h : Backed b3 (destination spec) past obj) (w : World) :
    (termsOf b3 identity spec).guar past w (servePatch b3 obj w).2 := by
  refine ⟨fun path _ => Files.Preserves.refl path _, fun write hsent => ?_⟩
  have hwrite := List.append_cancel_left hsent
  cases hwrite
  exact h

-- The answer to a write that was taken is the object as it is stored now.
theorem patch_saved {env : Env} {s s' : Store} {obj : HomeObject}
    (h : Serve.patch env s s .Pull .PatchStatus obj = (.ok (), s')) :
    ((s'.get obj.kind obj.metadata.name).getD obj).status = obj.status := by
  unfold Serve.patch at h
  split at h
  · cases h
  · unfold Serve.patchWrite Serve.reply at h
    dsimp only at h
    cases hres : s.patchStatus obj.kind obj.metadata.name obj.status obj.metadata.resourceVersion with
    | mk result store =>
        rw [hres] at h
        cases result with
        | error e => cases h
        | ok saved =>
            cases h
            have hy := Store.transaction_ok (Store.quiet_patchStatusTx _ _ _ _) hres
            obtain ⟨old, hold, -, rfl, rfl⟩ := Store.yields_patchStatusTx hy
            obtain ⟨hkind, hname⟩ := Prod.mk.inj (Store.get_key hold)
            have hself : (s.write ⟨.Modified, HomeObject.row { old with
                status := obj.status
                metadata := { old.metadata with resourceVersion := s.rv + 1 } }⟩).get
                old.kind old.metadata.name = some _ := Store.get_write_self fun h => by cases h
            rw [← hkind, ← hname, hself]
            rfl

theorem servePatch_saved {obj saved : HomeObject} {w : World}
    (h : (servePatch b3 obj w).1 = .ok saved) : saved.status = obj.status := by
  unfold servePatch at h
  dsimp only at h
  cases hp : Serve.patch { now := 0, disk := diskOf b3 w.volume } w.store w.store .Pull
      .PatchStatus obj with
  | mk answer store =>
      rw [hp] at h
      cases answer with
      | error e => cases h
      | ok u =>
          cases h
          exact patch_saved hp

theorem runs_patchStatus {K : List (World × World) → Prop} {obj : HomeObject}
    (hobj : ∀ past, K past → Backed b3 (destination spec) past obj) :
    Runs Prod.mk (termsOf b3 identity spec) (fun x => K x.1) (patchStatus b3 obj)
      (fun saved _ => saved.status = obj.status) fun _ => True := by
  refine Runs.bind (A := fun answer _ => ∀ saved, answer = .ok saved → saved.status = obj.status)
    ?_ ?_
  · intro past w hpast
    apply wp_perform
    rintro move - w₀ o w₁ rfl hanswer
    have hserve : (termsOf b3 identity spec).guar past (move.outside w)
        (servePatch b3 obj (move.outside w)).2 := guar_servePatch (hobj past hpast) _
    have hpart : ∀ part : Nat, (termsOf b3 identity spec).guar past (move.outside w)
        (if part = 0 then move.outside w else (servePatch b3 obj (move.outside w)).2) := by
      intro part
      split
      · exact guar_store past (move.outside w) (move.outside w).store
      · exact hserve
    unfold Call.answer at hanswer
    split at hanswer
    · have hdone : (Outcome.Done (servePatch b3 obj (move.outside w)).1,
          (servePatch b3 obj (move.outside w)).2) = (o, w₁) := hanswer
      obtain ⟨rfl, rfl⟩ := Prod.mk.inj hdone
      exact ⟨hserve, fun saved => servePatch_saved⟩
    · cases hanswer
      exact ⟨hpart _, trivial⟩
    · cases hanswer
      exact ⟨hpart _, trivial⟩
  · intro answer
    apply runs_lift
    · intro saved hsaved x hx
      cases answer with
      | error e => cases hsaved
      | ok _ => cases hsaved; exact hx saved rfl
    · exact fun _ _ => trivial

theorem safe_event (job : HomeObject) : Safe (termsOf b3 identity spec) (event b3 job) := by
  refine Safe.bind ?_ fun now => ?_
  · exact safe_pick.bind fun _ => safe_pure _
  · refine Safe.bind (Safe.attempt (safe_perform ?_)) fun _ => safe_pure _
    intro past move w _
    unfold Call.answer
    split
    · exact guar_store past w _
    · dsimp only
      split
      · exact guar_store past w w.store
      · exact guar_store past w _
    · dsimp only
      split
      · exact guar_store past w w.store
      · exact guar_store past w _

omit [UnicodeTables] in
theorem jobStatus_of {job : HomeObject} {status : JobStatus} (h : job.status = .Job status) :
    jobStatus job = status := by
  simp [jobStatus, h]

theorem runs_saveJob {K : List (World × World) → Prop} {status : JobStatus} (job : HomeObject)
    (hstatus : ∀ past, K past → status.phase = .Installed →
      ∃ digest, status.verifiedB3 = some digest ∧ Had b3 (destination spec) digest past) :
    Runs Prod.mk (termsOf b3 identity spec) (fun x => K x.1) (saveJob b3 job status)
      (fun saved _ => jobStatus saved = status) fun _ => True := by
  have hbacked : ∀ past, K past → Backed b3 (destination spec) past { job with status := .Job status } := by
    intro past hpast other hother hphase
    cases hother
    exact hstatus past hpast hphase
  refine (runs_patchStatus hbacked).bind fun saved => ?_
  refine Runs.of_pre (fun x hx => jobStatus_of hx) fun hsaved => ?_
  have hrest : ∀ x : List (World × World) × World, True → jobStatus saved = status :=
    fun _ _ => hsaved
  apply runs_ite
  · intro _
    exact (((safe_event saved).runs Prod.mk _).bind fun _ => runs_pure hrest)
  · exact fun _ => runs_pure fun _ _ => hsaved

theorem runs_saveJob_open (job : HomeObject) {status : JobStatus} (h : status.phase ≠ .Installed) :
    Runs Prod.mk (termsOf b3 identity spec) (fun _ => True) (saveJob b3 job status)
      (fun saved _ => (jobStatus saved).phase ≠ .Installed) fun _ => True := by
  refine (runs_saveJob (K := fun _ => True) job fun _ _ hphase => absurd hphase h).mono
    (fun _ hx => hx) ?_ fun _ hx => hx
  intro saved x hsaved
  rw [hsaved]
  exact h

theorem safe_setFailure (job : HomeObject) {phase : JobPhase} (hphase : phase ≠ .Installed)
    (message : Text) : Safe (termsOf b3 identity spec) (setFailure b3 job phase message) :=
  (runs_saveJob_open job hphase).safe.bind fun _ => safe_pure _

theorem safe_getTitle (name : Text) : Safe (termsOf b3 identity spec) (getTitle name) := by
  apply safe_reading fun past w => guar_store past w w.store
  · intro pick w title w' h
    dsimp only at h
    split at h
    · cases h
      rfl
    · cases h
  · exact fun _ _ => rfl

theorem safe_recordTitle (job : JobSpec) (digest : Blake3Hex) (retries : Nat) :
    Safe (termsOf b3 identity spec) (recordTitle b3 job digest retries) := by
  induction retries with
  | zero => exact safe_pure _
  | succ retries ih =>
      refine (safe_getTitle _).bind fun title => ?_
      · split
        · rename_i status _
          refine (safe_lift _).bind fun next => safe_ite (safe_pure _) ?_
          have hpatch : Safe (termsOf b3 identity spec)
              (patchStatus b3 { title with status := .Title next }) :=
            (runs_patchStatus (K := fun _ => True) fun _ _ status h => by cases h).safe
          refine hpatch.attempt.bind ?_
          rintro (e | _)
          · exact safe_ite ih (safe_throw _)
          · exact safe_pure _
        · exact safe_throw _

theorem runs_placeJob (job : JobSpec) (hjob : job = spec) (expected : Blake3Hex) :
    Runs Prod.mk (termsOf b3 identity spec) (fun _ => True) (placeJob b3 identity job expected)
      (fun _ x => Had b3 (destination spec) expected x.1) fun _ => True := by
  subst hjob
  unfold placeJob
  cases hpaths : Install.pathsOf b3 identity job with
  | error e =>
      rw [Prog.lift_error_bind]
      exact runs_throw fun _ _ => trivial
  | ok paths =>
      obtain ⟨hdest, hdistinct, -⟩ := Install.pathsOf_ok hpaths
      rw [Prog.lift_ok_bind]
      refine ((safe_lift _).runs Prod.mk _).bind fun pull => ?_
      have hplace : Runs Prod.mk (termsOf b3 identity job) (fun _ => True)
          (Install.placeVerified b3 paths pull expected)
          (fun _ x => Had b3 paths.dest expected x.1) fun _ => True :=
        Install.runs_placeVerified (agreed hpaths) hdistinct.data expected
      rw [hdest] at hplace
      exact hplace

theorem safe_finishVerifying (job : HomeObject) :
    Safe (termsOf b3 identity spec) (finishVerifying b3 identity job spec) := by
  unfold finishVerifying
  split
  · exact safe_throw _
  · rename_i expected hexpected
    apply Runs.safe (A := fun _ _ => True) (H := fun _ => True)
    have hplace : Runs Prod.mk (termsOf b3 identity spec) (fun _ => True)
        (placeJob b3 identity spec expected).attempt
        (fun result x => result = .ok () → Had b3 (destination spec) expected x.1)
        fun _ => True := by
      apply Runs.attempt
      exact (runs_placeJob spec rfl expected).mono (fun _ hx => hx) (fun _ _ hx _ => hx)
        fun _ _ => ⟨trivial, fun _ h => by cases h⟩
    refine hplace.bind ?_
    rintro ((message | message | message | e) | ⟨⟩)
    · exact (safe_setFailure job (by decide) _).runs _ _
    · exact runs_throw fun _ _ => trivial
    · exact (safe_setFailure job (by decide) _).runs _ _
    · exact (safe_setFailure job (by decide) _).runs _ _
    · have hsafe : Safe (termsOf b3 identity spec) (recordTitle b3 spec expected 3) :=
        safe_recordTitle spec expected 3
      have hrecord := Install.runs_had hsafe b3 (destination spec) expected
      refine (hrecord.mono (fun _ hx => hx rfl) (fun _ _ hx => hx) fun _ hx => hx).bind fun _ => ?_
      refine (runs_saveJob job ?_).bind fun _ => runs_pure fun _ _ => trivial
      exact fun past hpast _ => ⟨expected, hexpected, hpast⟩

theorem safe_chance {paths : Paths} (hpaths : Install.pathsOf b3 identity spec = .ok paths)
    (fault : PullError) : Safe (termsOf b3 identity spec) (chance fault) := by
  apply Install.safe_onVolume (agreed hpaths)
  · intro pick v a v' hrun
    cases hrun
    exact Install.Touches.refl _ _
  · exact fun part v => Install.Touches.refl _ _

theorem safe_checkRoom {paths : Paths} (hpaths : Install.pathsOf b3 identity spec = .ok paths) :
    Safe (termsOf b3 identity spec) (checkRoom paths spec) := by
  refine (Install.safe_look (agreed hpaths) _ _).bind ?_
  rintro (_ | _)
  · refine (Install.safe_cleanupInstallTemporary (agreed hpaths)).mapError.bind fun _ => ?_
    exact (safe_chance hpaths _).bind fun room => safe_ite (safe_throw _) (safe_pure _)
  · exact safe_throw _

theorem runs_prepareCopy :
    Runs Prod.mk (termsOf b3 identity spec) (fun _ => True) (prepareCopy b3 identity spec)
      (fun result _ => Install.pathsOf b3 identity spec = .ok result.1 ∧
        Install.pullSpec spec = .ok result.2) fun _ => True := by
  unfold prepareCopy
  cases hpaths : Install.pathsOf b3 identity spec with
  | error e =>
      rw [Prog.lift_error_bind]
      exact runs_throw fun _ _ => trivial
  | ok paths =>
      rw [Prog.lift_ok_bind]
      cases hpull : Install.pullSpec spec with
      | error e =>
          rw [Prog.lift_error_bind]
          exact runs_throw fun _ _ => trivial
      | ok pull =>
          rw [Prog.lift_ok_bind]
          refine ((safe_checkRoom hpaths).runs Prod.mk _).bind fun _ => ?_
          exact runs_pure fun _ _ => ⟨rfl, rfl⟩

-- The phase of a Job does not change while its bytes come in.
theorem safe_saveProgress (job : JobSpec) (ticks : Nat) (object : HomeObject)
    (hphase : (jobStatus object).phase ≠ .Installed) :
    Safe (termsOf b3 identity spec) (saveProgress b3 job ticks object) := by
  induction ticks generalizing object with
  | zero => exact safe_pure _
  | succ ticks ih =>
      refine safe_pick.bind fun n => safe_ite (ih object hphase) ?_
      have hsave : Runs Prod.mk (termsOf b3 identity spec) (fun _ => True)
          (saveJob b3 object { jobStatus object with bytesDone := min (UInt64.ofNat n) job.fileLen }).attempt
          (fun result _ => ∀ saved, result = .ok saved → (jobStatus saved).phase ≠ .Installed)
          fun _ => True := by
        apply Runs.attempt
        refine (runs_saveJob_open object ?_).mono (fun _ hx => hx) ?_
          fun _ _ => ⟨trivial, fun _ _ h => by cases h⟩
        · exact hphase
        · rintro saved x hsaved _ ⟨⟩
          exact hsaved
      apply Runs.safe (A := fun _ _ => True) (H := fun _ => True)
      refine hsave.bind ?_
      rintro (e | saved)
      · exact runs_pure fun _ _ => trivial
      · exact Runs.of_pre (fun x hx => hx saved rfl) fun hsaved => (ih saved hsaved).runs _ _

variable {remote : Text × List Component → Bytes}

theorem safe_copyFile {paths : Paths} {pull : Transfer.PullSpec}
    (hpaths : Install.pathsOf b3 identity spec = .ok paths)
    (hlayout : Transfer.StagingLayout.fromSpec pull = .ok paths.staging) :
    Safe (termsOf b3 identity spec) (copyFile b3 remote paths pull) := by
  refine (Transfer.safe_pullFile hlayout (agreed hpaths).transfer).mapError.bind fun _ => ?_
  refine (Install.safe_look (agreed hpaths) _ _).bind fun i => ?_
  exact (Install.safe_look (agreed hpaths) _ _).bind fun bytes => safe_guard (safe_pure _)

theorem safe_copyAndHash (job : HomeObject) (hphase : (jobStatus job).phase ≠ .Installed) :
    Safe (termsOf b3 identity spec) (copyAndHash b3 identity remote spec job) := by
  have hprepare : Runs Prod.mk (termsOf b3 identity spec) (fun _ => True)
      (prepareCopy b3 identity spec).attempt
      (fun result _ => ∀ paths pull, result = .ok (paths, pull) →
        Install.pathsOf b3 identity spec = .ok paths ∧ Install.pullSpec spec = .ok pull)
      fun _ => True := by
    apply Runs.attempt
    refine runs_prepareCopy.mono (fun _ hx => hx) ?_ fun _ _ => ⟨trivial, fun _ _ _ h => by cases h⟩
    rintro result x hresult paths pull ⟨⟩
    exact hresult
  apply Runs.safe (A := fun _ _ => True) (H := fun _ => True)
  refine hprepare.bind ?_
  rintro (e | ⟨paths, pull⟩)
  · exact runs_pure fun _ _ => trivial
  refine Runs.of_pre (fun x hx => hx paths pull rfl) ?_
  rintro ⟨hpaths, hpull⟩
  obtain ⟨-, -, pull', hpull', hlayout⟩ := Install.pathsOf_ok hpaths
  rw [hpull] at hpull'
  cases hpull'
  refine Safe.runs ?_ _ _
  refine safe_pick.bind fun ticks => (safe_saveProgress spec ticks job hphase).bind ?_
  rintro ⟨job, e | ⟨⟩⟩
  · exact safe_pure _
  · exact (safe_copyFile hpaths hlayout).attempt.bind fun _ => safe_pure _

omit [UnicodeTables] in
theorem failedPhase_ne (status : JobStatus) (now : Int) (expired : Bool) (e : PullError) :
    failedPhase status now expired e ≠ .Installed := by
  unfold failedPhase
  split
  · decide
  · split
    · decide
    · decide

theorem safe_pullAndVerify (job : HomeObject) (hphase : (jobStatus job).phase ≠ .Installed) :
    Safe (termsOf b3 identity spec) (pullAndVerify b3 identity remote spec job) := by
  refine (safe_copyAndHash job hphase).bind ?_
  rintro ⟨job, e | digest⟩
  · refine (safe_pick.bind fun _ => safe_pure _).bind fun now => safe_pick.bind fun expired => ?_
    exact safe_setFailure job (failedPhase_ne _ _ _ _) _
  · have hsave : Safe (termsOf b3 identity spec) (saveJob b3 job { jobStatus job with
        phase := .Verifying, bytesDone := spec.fileLen, verifiedB3 := some digest }) :=
      (runs_saveJob_open job fun h => by cases h).safe
    exact hsave.bind fun job => safe_finishVerifying job

theorem runs_startJob (job : HomeObject) (hphase : (jobStatus job).phase ≠ .Installed) :
    Runs Prod.mk (termsOf b3 identity spec) (fun _ => True) (startJob b3 job)
      (fun started _ => (jobStatus started).phase ≠ .Installed) fun _ => True := by
  unfold startJob
  apply runs_ite
  · intro _
    apply runs_ite
    · intro _
      have hclock : Safe (termsOf b3 identity spec) unixNow := safe_pick.bind fun _ => safe_pure _
      exact (hclock.runs Prod.mk _).bind fun now => runs_saveJob_open job fun h => by cases h
    · intro _
      exact ((safe_pure _).runs Prod.mk _).bind fun now => runs_saveJob_open job fun h => by cases h
  · exact fun _ => runs_pure fun _ _ => hphase

theorem safe_runJob {job : HomeObject} (hspec : job.spec = .Job spec) :
    Safe (termsOf b3 identity spec) (runJob b3 identity remote job) := by
  unfold runJob
  rw [hspec]
  split
  · rename_i _ _ found status hfound hstatus
    cases hfound
    have hjob := jobStatus_of hstatus
    by_cases hterm : status.phase.isTerminal = true
    · rw [if_pos hterm]
      exact safe_pure _
    · have hphase : (jobStatus job).phase ≠ .Installed := by
        rw [hjob]
        intro h
        rw [h] at hterm
        exact hterm rfl
      rw [if_neg hterm]
      refine safe_ite (safe_finishVerifying job) ?_
      refine (safe_pick.bind fun _ => safe_pure _).bind fun now => ?_
      refine safe_ite (safe_setFailure job (by decide) _) ?_
      apply Runs.safe (A := fun _ _ => True) (H := fun _ => True)
      refine (runs_startJob job hphase).bind fun started => ?_
      exact Runs.of_pre (fun _ hx => hx) fun hstarted =>
        (safe_pullAndVerify started hstarted).runs _ _
  · exact safe_throw _

end Mediaops.Pull
