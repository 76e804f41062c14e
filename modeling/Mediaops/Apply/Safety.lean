import Mediaops.Apply.Staging
import Mediaops.Install.Safety
import Mediaops.Install.Sidecars

namespace Mediaops.Apply

-- One copy, call by call, seen from the staged file of another: what it may touch, and
-- under which condition it leaves that file alone.

open Jobs
open Transfer (Mounted StagingLayout stagingPlace stagedNames sidecarKept)
open Install (Paths slotData)

section

variable [UnicodeTables] (b3 : Bytes → Blake3Hex) (identity : Text → Text → Bytes) (root : Text)

-- The staging area and the slots of copies.
def Own (path : Text) : Prop :=
  (∃ titleId name, path = stagingPlace root titleId name) ∨
    ∃ source dest, path = slotData b3 identity source dest

-- The process holds the lock: others leave its files, its intents and its jobs alone.
structure Quiet (w w' : World) : Prop where
  files : Files.Apart (Own b3 identity root) w.volume.files w'.volume.files
  sidecars : ∀ path, Own b3 identity root path → w'.volume.sidecars path = w.volume.sidecars path
  texts : w'.texts = w.texts
  jobs : w'.jobs = w.jobs

-- The partial file stays, with its bytes, and so does the sidecar.
def Stays (own : StagingLayout) (w w' : World) : Prop :=
  Files.Preserves own.partialPath w.volume.files w'.volume.files ∧
    w'.volume.sidecars own.sidecar = w.volume.sidecars own.sidecar

def staying (own : StagingLayout) : Terms World where
  allowed move := ∀ w, Quiet b3 identity root w (move.outside w)
  guar _ := Stays own

-- The half of it that speaks of the files.
def filesKept (own : StagingLayout) : Terms World where
  allowed move := ∀ w, Quiet b3 identity root w (move.outside w)
  guar _ w w' := Files.Preserves own.partialPath w.volume.files w'.volume.files

-- The pull in flight is for another remote, and says so.
def Mismatched (copy : Plan.Copy) (name : Text) (w : World) : Prop :=
  (∃ row ∈ w.jobs, row.job.titleId = copy.titleId ∧ isInflight row = true) ∧
    ∃ text intent, w.texts (pullIntentPath root copy.titleId) = .Saved text ∧
      PullIntent.read text = .ok intent ∧ intent.same (intentOf copy name) = false

-- What spares the staged file of `a`: the copy stages elsewhere, and if it is of the
-- same title it has no stale staging to discard.
structure Spares (a : Plan.Copy) (name : Text) (copy : Plan.Copy) (w : World) : Prop where
  elsewhere : Elsewhere a name copy
  settled : copy.titleId = a.titleId → ∀ other, finalName copy = some other →
    ¬Mismatched root copy other w

end

variable [UnicodeTables] {b3 : Bytes → Blake3Hex} {identity : Text → Text → Bytes}

section Stays

variable {own : StagingLayout}

theorem Stays.refl (own : StagingLayout) (w : World) : Stays own w w :=
  ⟨Files.Preserves.refl _ _, rfl⟩

theorem stays_of_volume {w w' : World} (h : w'.volume = w.volume) : Stays own w w' := by
  unfold Stays
  rw [h]
  exact ⟨Files.Preserves.refl _ _, rfl⟩

theorem Stays.trans {w w' w'' : World} (h : Stays own w w') (h' : Stays own w' w'') :
    Stays own w w'' := by
  refine ⟨fun node hnode => ?_, h'.2.trans h.2⟩
  obtain ⟨hstays, hdata⟩ := h.1 node hnode
  obtain ⟨hstays', hdata'⟩ := h'.1 node hstays
  exact ⟨hstays', fun i hi => (hdata' i hi).trans (hdata i hi)⟩

end Stays

section Places

variable {root : Text} {titleId : TitleId} {name : Text}

theorem own_staged : Own b3 identity root (layoutOf root titleId name).staged :=
  .inl ⟨titleId, name, rfl⟩

theorem own_suffixed (hfit : PathSchema.Fitting name) (hname : PathSchema.IsName name)
    (suffix : Text) : Own b3 identity root (stagingPlace root titleId name ++ suffix) :=
  .inl ⟨titleId, name ++ suffix, Transfer.stagingPlace_append hfit hname.ne suffix⟩

theorem stagingPlace_fileName (hfit : PathSchema.Fitting name) (hname : PathSchema.IsName name) :
    Path.fileName (stagingPlace root titleId name) = some name := by
  have hpath : PathSchema.stagingPath titleId name =
      .ok (Path.join (Path.join "_incoming" titleId.stagingToken) name) :=
    Transfer.stagingPath_fitting hfit hname
  obtain ⟨hhead, hfile⟩ := PathSchema.stagingPath_ok hpath
  exact Path.fileName_join (Path.isAbsolute_of_head hhead (by decide)) hfile

-- A slot is named after its `data` file.
omit [UnicodeTables] in
theorem ne_slotData {path : Text} (h : path.getLast? ≠ some 'a') (source dest : Text) :
    path ≠ slotData b3 identity source dest := by
  rintro rfl
  apply h
  obtain ⟨front, hfront⟩ := Path.join_front
    (Install.withFileName dest (".mediaops-install-".toList ++ (b3 (identity source dest)).text))
  have hdata : slotData b3 identity source dest = front ++ "data".toList := hfront _ rfl
  rw [hdata, List.getLast?_append_of_ne_nil _ (by decide)]
  rfl

omit [UnicodeTables] in
theorem partialPath_last (own : Text) :
    (StagingLayout.fromStaged own).partialPath.getLast? = some 'l' := by
  show (own ++ ".partial".toList).getLast? = some 'l'
  rw [List.getLast?_append_of_ne_nil _ (by decide)]
  rfl

theorem Quiet.stays {w w' : World} (h : Quiet b3 identity root w w')
    (hfit : PathSchema.Fitting name) (hname : PathSchema.IsName name) :
    Stays (layoutOf root titleId name) w w' := by
  have hunfinished : Own b3 identity root (layoutOf root titleId name).partialPath :=
    own_suffixed hfit hname _
  refine ⟨fun node hnode => ⟨(h.files.names _ hunfinished).trans hnode, ?_⟩,
    h.sidecars _ (own_suffixed hfit hname _)⟩
  rintro i rfl
  exact h.files.data i (Files.node_bound hnode)

-- Where a copy stages its file and copies it through.
structure Placed (b3 : Bytes → Blake3Hex) (identity : Text → Text → Bytes) (root : Text)
    (copy : Plan.Copy) (name : Text) (paths : Paths) : Prop where
  staging : paths.staging = layoutOf root copy.titleId name
  data : paths.data = slotData b3 identity paths.staging.staged paths.dest

theorem agreed {own : StagingLayout} {copy : Plan.Copy} {paths : Paths}
    (hown : own.partialPath.getLast? = some 'l')
    (hfit : PathSchema.Fitting name) (hname : PathSchema.IsName name)
    (hpaths : Placed b3 identity root copy name paths) (hclear : Clear paths.staging own) :
    Install.Agreed (filesKept b3 identity root own) paths where
  rely move hmove w := by
    have hprivate : ∀ path, paths.Private path → Own b3 identity root path := by
      rintro path ((rfl | rfl) | rfl)
      · rw [hpaths.staging]
        exact own_staged
      · rw [hpaths.staging]
        exact own_suffixed hfit hname _
      · exact .inr ⟨_, _, hpaths.data⟩
    have hsidecar : Own b3 identity root paths.staging.sidecar := by
      rw [hpaths.staging]
      exact own_suffixed hfit hname _
    exact ⟨(hmove w).files.mono hprivate, (hmove w).sidecars _ hsidecar⟩
  guar past w v hv := by
    refine hv own.partialPath ?_
    rintro (hstaging | hdata)
    · exact hclear.partialPath hstaging
    · rw [hpaths.data] at hdata
      exact ne_slotData (by rw [hown]; decide) _ _ hdata

end Places

section Calls

variable {root : Text} {own : StagingLayout} {α : Type}

-- A call beside the volume.
theorem watched_aside {c : Call World ApplyError α}
    (hrun : ∀ pick w a w', c.run pick w = .ok (a, w') → w'.volume = w.volume)
    (hpart : ∀ part w, (c.partly part w).volume = w.volume) :
    Watched (staying b3 identity root own) (Prog.perform c) := by
  apply watched_perform
  intro past move w _
  apply stays_of_volume
  unfold Call.answer
  split
  · split
    · rename_i a w' h
      exact hrun _ _ _ _ h
    · rfl
  · exact hpart _ _
  · exact hpart _ _

theorem watched_onJobs (f : List Row → Except Text (α × List Row)) :
    Watched (staying b3 identity root own) (onJobs f) := by
  apply watched_aside
  · intro pick w a w' hrun
    dsimp only at hrun
    split at hrun
    · cases hrun; rfl
    · cases hrun
  · intro part w
    dsimp only
    split
    · split <;> rfl
    · rfl

theorem watched_step (fault : ApplyError) :
    Watched (staying b3 identity root own) (Transfer.step fault : Prog World ApplyError Unit) := by
  unfold Transfer.step Transfer.look Transfer.onVolume
  apply watched_aside
  · intro pick w a w' hrun
    cases hrun
    rfl
  · exact fun _ _ => rfl

theorem watched_writePullIntent (titleId : TitleId) (intent : PullIntent) :
    Watched (staying b3 identity root own) (writePullIntent root titleId intent) := by
  refine Watched.bind (watched_step _) fun _ => watched_aside ?_ ?_
  · intro pick w a w' hrun
    dsimp only at hrun
    split at hrun
    · cases hrun
    · cases hrun; rfl
  · intro part w
    dsimp only
    split <;> rfl

theorem watched_removePullIntent (titleId : TitleId) :
    Watched (staying b3 identity root own) (removePullIntent root titleId) := by
  apply watched_aside
  · intro pick w a w' hrun
    dsimp only at hrun
    split at hrun
    · cases hrun
    · cases hrun
    · cases hrun; rfl
  · exact fun _ _ => rfl

theorem watched_recordInstall (titleId : TitleId) (digest : Blake3Hex) (path : Text) :
    Watched (staying b3 identity root own) (recordInstall titleId digest path) := by
  apply watched_aside
  · intro pick w a w' hrun
    cases hrun
    rfl
  · intro part w
    dsimp only
    split <;> rfl

theorem watched_ask (answer : Nat → α) : Watched (staying b3 identity root own) (ask answer) := by
  apply watched_aside
  · intro pick w a w' hrun
    cases hrun
    rfl
  · exact fun _ _ => rfl

theorem stays_sweep {gone : Text → Bool} (hunfinished : gone own.partialPath = false)
    (hsidecar : gone own.sidecar = false) (w : World) : Stays own w (w.sweep gone) := by
  have hkept : (w.sweep gone).volume.sidecars own.sidecar =
      if gone own.sidecar then .Absent else w.volume.sidecars own.sidecar := rfl
  refine ⟨Files.preserves_sweep hunfinished, ?_⟩
  rw [hkept, hsidecar]
  rfl

-- Staging of another title holds nothing of this one.
theorem watched_discardStaleStaging {titleId titleId' : TitleId} {name : Text}
    (hfit : PathSchema.Fitting name) (hname : PathSchema.IsName name) (hne : titleId' ≠ titleId) :
    Watched (staying b3 identity root (layoutOf root titleId name))
      (discardStaleStaging root titleId') := by
  have hfree : ∀ suffix, name ++ suffix ∈ stagedNames name →
      under (stagingDir root titleId') (stagingPlace root titleId name ++ suffix) = false := by
    intro suffix hsuffix
    rw [Transfer.stagingPlace_append hfit hname.ne, Bool.eq_false_iff]
    intro hunder
    exact hne (under_stagingDir
      (Transfer.isAbsolute_of_fitting (Transfer.fitting_staged hfit _ hsuffix)) hunder)
  have hunfinished := hfree ".partial".toList (by simp [stagedNames])
  have hsidecar := hfree ".partial.b3".toList (by simp [stagedNames])
  have hsweep : ∀ w, Stays (layoutOf root titleId name) w (w.sweep (under (stagingDir root titleId'))) :=
    stays_sweep hunfinished hsidecar
  have hpart : ∀ part w, Stays (layoutOf root titleId name) w
      (w.sweep fun path => under (stagingDir root titleId') path && picked part path) := by
    intro part
    apply stays_sweep
    · exact Bool.and_eq_false_imp.mpr fun h => absurd (hunfinished.symm.trans h) (by decide)
    · exact Bool.and_eq_false_imp.mpr fun h => absurd (hsidecar.symm.trans h) (by decide)
  unfold discardStaleStaging
  apply watched_perform
  intro past move w _
  unfold Call.answer
  split
  · exact hsweep w
  · exact hpart _ w
  · exact hpart _ w

end Calls

section Copies

variable {root : Text} {own : StagingLayout} {copy : Plan.Copy} {name : Text}

-- A condition that others cannot break.
def Stable (b3 : Bytes → Blake3Hex) (identity : Text → Text → Bytes) (root : Text)
    (P : World → Prop) : Prop :=
  ∀ w w', Quiet b3 identity root w w' → P w → P w'

def worldOf (_ : List (World × World)) (w : World) : World := w

theorem runs_reading {α : Type} {P : World → Prop} {A : α → World → Prop}
    (hP : Stable b3 identity root P) {c : Call World ApplyError α}
    (hrun : ∀ pick w a w', P w → c.run pick w = .ok (a, w') → w' = w ∧ A a w)
    (hpart : ∀ part w, c.partly part w = w) :
    Runs worldOf (staying b3 identity root own) P (Prog.perform c) A fun _ => True := by
  intro past w hw
  apply wp_perform
  rintro move hmove w₀ o w₁ rfl hanswer
  have hw₀ := hP _ _ (hmove w) hw
  unfold Call.answer at hanswer
  split at hanswer
  · split at hanswer
    · rename_i a w' h
      cases hanswer
      obtain ⟨rfl, ha⟩ := hrun _ _ _ _ hw₀ h
      exact ⟨Stays.refl _ _, ha⟩
    · cases hanswer
      exact ⟨Stays.refl _ _, trivial⟩
  · cases hanswer
    rw [hpart]
    exact ⟨Stays.refl _ _, trivial⟩
  · cases hanswer
    rw [hpart]
    exact ⟨Stays.refl _ _, trivial⟩

theorem stable_mismatched :
    Stable b3 identity root fun w => ¬Mismatched root copy name w := by
  intro w w' h hw
  unfold Mismatched at hw ⊢
  rw [h.texts, h.jobs]
  exact hw

theorem runs_listByTitle {P : World → Prop} (hP : Stable b3 identity root P) (titleId : TitleId) :
    Runs worldOf (staying b3 identity root own) P (listByTitle titleId)
      (fun existing w => P w ∧ existing = w.jobs.filter fun row => row.job.titleId = titleId)
      fun _ => True := by
  unfold listByTitle onJobs
  apply runs_reading hP
  · intro pick w a w' hw hrun
    cases hrun
    exact ⟨rfl, hw, rfl⟩
  · intro part w
    dsimp only [pure, Except.pure]
    split <;> rfl

-- A pull in flight that is not mismatched matches.
theorem runs_pullMatches {a : Plan.Copy} {row : Row} (hrow : row.job.titleId = copy.titleId)
    (hinflight : isInflight row = true) :
    Runs worldOf (staying b3 identity root own)
      (fun w => (copy.titleId = a.titleId → ¬Mismatched root copy name w) ∧ row ∈ w.jobs)
      (pullMatches root copy.titleId (intentOf copy name))
      (fun found _ => found = false → copy.titleId ≠ a.titleId) fun _ => True := by
  have hP : Stable b3 identity root fun w =>
      (copy.titleId = a.titleId → ¬Mismatched root copy name w) ∧ row ∈ w.jobs :=
    fun w w' h hw => ⟨fun he => stable_mismatched w w' h (hw.1 he), h.jobs ▸ hw.2⟩
  refine Runs.bind (runs_reading hP (A := fun found _ =>
    matchesIntent found (intentOf copy name) = false → copy.titleId ≠ a.titleId) ?_ fun _ _ => rfl)
    fun found => runs_pure fun _ hx => hx
  intro pick w found w' hw hrun
  dsimp only at hrun
  split at hrun
  · cases hrun
    exact ⟨rfl, fun h => absurd h (by simp [matchesIntent])⟩
  · rename_i text htext
    split at hrun
    · rename_i intent hread
      cases hrun
      refine ⟨rfl, fun hsame he => hw.1 he ?_⟩
      exact ⟨⟨row, hw.2, hrow, hinflight⟩, text, intent, htext, hread,
        by simpa [matchesIntent] using hsame⟩
    · cases hrun
  · cases hrun

variable {ctx : ApplyCtx} {a : Plan.Copy} {aName : Text}

theorem runs_selectPull (hfit : PathSchema.Fitting aName) (hname : PathSchema.IsName aName)
    (hroot : ctx.libraryRoot = root) (existing : List Row) :
    Runs worldOf (staying b3 identity root (layoutOf root a.titleId aName))
      (fun w => (copy.titleId = a.titleId → ¬Mismatched root copy name w) ∧
        existing = w.jobs.filter fun row => row.job.titleId = copy.titleId)
      (selectPull ctx copy name existing) (fun _ _ => True) fun _ => True := by
  subst hroot
  unfold selectPull
  cases hfind : existing.find? isInflight with
  | none => exact (watched_onJobs _).safe.runs _ _
  | some row =>
      have hinflight : isInflight row = true := List.find?_some hfind
      have hmem := List.mem_of_find?_eq_some hfind
      refine Runs.of_pre (p := row.job.titleId = copy.titleId) ?_ fun hrow => ?_
      · rintro w ⟨-, rfl⟩
        simpa using (List.mem_filter.mp hmem).2
      refine Runs.mono (P := fun w => (copy.titleId = a.titleId →
        ¬Mismatched ctx.libraryRoot copy name w) ∧ row ∈ w.jobs) ?_ ?_ (fun _ _ h => h)
        fun _ h => h
      · refine Runs.bind (runs_pullMatches hrow hinflight) ?_
        rintro (_ | _)
        · refine Runs.of_pre (fun _ hx => hx rfl) fun hne => ?_
          have hdiscard : Watched (staying b3 identity ctx.libraryRoot
              (layoutOf ctx.libraryRoot a.titleId aName)) (do
                discardStaleStaging ctx.libraryRoot copy.titleId
                pure row : Prog World ApplyError Row) :=
            Watched.bind (watched_discardStaleStaging hfit hname hne) fun _ => watched_pure _
          exact hdiscard.safe.runs _ _
        · exact runs_pure fun _ _ => trivial
      · rintro w ⟨hw, rfl⟩
        exact ⟨hw, (List.mem_filter.mp hmem).1⟩

theorem watched_startPull (pull : Row) (hroot : ctx.libraryRoot = root) :
    Watched (staying b3 identity root own) (startPull ctx copy name pull) := by
  subst hroot
  exact watched_ite (Watched.bind (watched_writePullIntent _ _) fun _ => watched_onJobs _) (watched_pure _)

variable {remote : Text × List Component → Bytes}

-- The files and the sidecars, each by its own rules.
theorem watched_staying {ε α : Type} {m : Prog World ε α}
    (hfiles : Safe (filesKept b3 identity root own) m)
    (hsidecar : Watched (sidecarKept own.sidecar) m) : Watched (staying b3 identity root own) m where
  safe := hfiles.both hsidecar.safe (fun _ hmove => ⟨hmove, trivial⟩) fun _ _ _ hfile hsame =>
    ⟨hfile, hsame⟩
  tracks := hsidecar.tracks

theorem watched_pull {rangeLen : Nat} (hroot : ctx.libraryRoot = root)
    (hcopy : PathSchema.Fitting name) (hcopyName : PathSchema.IsName name)
    (hown : own.partialPath.getLast? = some 'l')
    (hclear : Clear (layoutOf root copy.titleId name) own) :
    Watched (staying b3 identity root own)
      (Transfer.pullFile (fun bytes => (b3 bytes).text) remote (pullSpec ctx copy rangeLen name)) := by
  have hlayout : StagingLayout.fromSpec (pullSpec ctx copy rangeLen name) =
      .ok (layoutOf root copy.titleId name) := by
    subst hroot
    exact Transfer.fromSpec_fitting hcopy hcopyName
  have hagreed : Install.Agreed (filesKept b3 identity root own)
      { staging := layoutOf root copy.titleId name, dest := [],
        data := slotData b3 identity (layoutOf root copy.titleId name).staged [] } :=
    agreed hown hcopy hcopyName ⟨rfl, rfl⟩ hclear
  exact watched_staying (Transfer.safe_pullFile hlayout hagreed.transfer)
    (Transfer.kept_pullFile hclear.sidecar hlayout)

theorem watched_transferPull {rangeLen : Nat} (pull : Row) (hroot : ctx.libraryRoot = root)
    (hcopy : PathSchema.Fitting name) (hcopyName : PathSchema.IsName name)
    (hown : own.partialPath.getLast? = some 'l')
    (hclear : Clear (layoutOf root copy.titleId name) own) :
    Watched (staying b3 identity root own) (transferPull ctx copy b3 remote rangeLen name pull) := by
  unfold transferPull
  refine watched_ite ?_ (watched_pure _)
  have hintent : Watched (staying b3 identity root own)
      (writePullIntent ctx.libraryRoot copy.titleId (intentOf copy name)) := by
    rw [hroot]
    exact watched_writePullIntent _ _
  refine Watched.bind hintent fun _ => ?_
  refine Watched.bind (watched_pull hroot hcopy hcopyName hown hclear).mapError fun _ => ?_
  exact watched_onJobs _

theorem installPaths_ok (hcopy : PathSchema.Fitting name) (hcopyName : PathSchema.IsName name)
    (destRel : Text) :
    ∃ paths, installPaths ctx copy b3 identity destRel name = .ok paths ∧
      Placed b3 identity ctx.libraryRoot copy name paths := by
  refine ⟨{
    staging := layoutOf ctx.libraryRoot copy.titleId name
    dest := Path.join ctx.libraryRoot destRel
    data := slotData b3 identity (layoutOf ctx.libraryRoot copy.titleId name).staged
      (Path.join ctx.libraryRoot destRel) }, ?_, rfl, rfl⟩
  unfold installPaths
  rw [Transfer.stagingPath_fitting hcopy hcopyName]
  rfl

theorem watched_settleWant (existing : List Row) :
    Watched (staying b3 identity root own) (settleWant existing) := by
  unfold settleWant
  split
  · exact Watched.bind (watched_onJobs _) fun _ => watched_pure _
  · exact watched_pure _

theorem watched_clearStaging (hroot : ctx.libraryRoot = root) :
    Watched (staying b3 identity root own) (clearStaging ctx copy) := by
  subst hroot
  refine Watched.bind (watched_removePullIntent _).attempt fun _ => ?_
  exact Watched.bind (watched_step _).attempt fun _ => watched_pure _

theorem watched_installPull {destRel : Text} (existing : List Row) (pull : Row)
    (hroot : ctx.libraryRoot = root) (hcopy : PathSchema.Fitting name)
    (hcopyName : PathSchema.IsName name) (hdot : '.' ∈ name)
    (hown : own.partialPath.getLast? = some 'l')
    (hclear : Clear (layoutOf root copy.titleId name) own) :
    Watched (staying b3 identity root own)
      (installPull ctx copy b3 identity destRel name existing pull) := by
  unfold installPull
  refine watched_ite ?_ (watched_throw _)
  obtain ⟨paths, hpaths, hplaced⟩ :=
    @installPaths_ok _ b3 identity copy name ctx hcopy hcopyName destRel
  rw [hpaths, Prog.lift_ok_bind]
  rw [hroot] at hplaced
  have hagreed : Install.Agreed (filesKept b3 identity root own) paths :=
    agreed hown hcopy hcopyName hplaced (hplaced.staging ▸ hclear)
  have hne : paths.staging.staged ≠ paths.data := by
    have hstaged : Path.fileName paths.staging.staged = some name := by
      rw [hplaced.staging]
      exact stagingPlace_fileName hcopy hcopyName
    intro hsame
    rw [hsame, hplaced.data, Install.slotData_fileName, Option.some_inj] at hstaged
    exact absurd (hstaged ▸ hdot) (by decide)
  have hverify : Watched (staying b3 identity root own) (verifyStaging copy destRel paths) :=
    Watched.bind (watched_lift _) fun _ =>
      (watched_staying (Install.safe_verifyStaged hagreed) Install.kept_verifyStaged).mapError
  have hinstall : Watched (staying b3 identity root own)
      (Install.install b3 paths : Prog World InstallError Blake3Hex) :=
    watched_staying (Install.safe_install hagreed hne) (Install.kept_install b3)
  refine Watched.bind hverify fun _ => ?_
  refine Watched.bind hinstall.mapError fun digest => ?_
  refine Watched.bind (watched_onJobs _) fun row => ?_
  refine Watched.bind (watched_recordInstall _ _ _) fun _ => ?_
  refine Watched.bind (watched_settleWant _) fun _ => ?_
  exact Watched.bind (watched_clearStaging hroot) fun _ => watched_pure _

-- What follows the choice of the job.
theorem watched_carryOn {rangeLen : Nat} {destRel : Text} (existing : List Row) (pull : Row)
    (hroot : ctx.libraryRoot = root) (hdest : PathSchema.render copy.titleId copy.placement = .ok destRel)
    (hfile : Path.fileName destRel = some name) (hown : own.partialPath.getLast? = some 'l')
    (hclear : Clear (layoutOf root copy.titleId name) own) :
    Watched (staying b3 identity root own) (do
      let pull ← startPull ctx copy name pull
      let pull ← transferPull ctx copy b3 remote rangeLen name pull
      installPull ctx copy b3 identity destRel name existing pull) := by
  obtain ⟨hfit, hname, hdot⟩ := finalName_fits (finalName_of hdest hfile)
  refine Watched.bind (watched_startPull pull hroot) fun pull => ?_
  refine Watched.bind (watched_transferPull pull hroot hfit hname hown hclear) fun pull => ?_
  exact watched_installPull existing pull hroot hfit hname hdot hown hclear

-- A copy that spares the staged file of another leaves it as it is, however its calls
-- end.
theorem runs_applyCopy {rangeLen : Nat} (ha : finalName a = some aName)
    (hroot : ctx.libraryRoot = root) :
    Runs worldOf (staying b3 identity root (layoutOf root a.titleId aName))
      (Spares root a aName copy) (applyCopy ctx copy b3 identity remote rangeLen)
      (fun _ _ => True) fun _ => True := by
  obtain ⟨hfit, hname, -⟩ := finalName_fits ha
  unfold applyCopy
  cases hdest : PathSchema.render copy.titleId copy.placement with
  | error e =>
      simp only [Except.mapError, Prog.lift_error_bind]
      exact runs_throw fun _ _ => trivial
  | ok destRel =>
      simp only [Except.mapError, Prog.lift_ok_bind]
      cases hfile : Path.fileName destRel with
      | none => exact runs_throw fun _ _ => trivial
      | some name =>
          have hcopy := finalName_of hdest hfile
          refine Runs.of_pre (fun _ hspares => hspares.elsewhere) fun helsewhere => ?_
          have hclear := helsewhere.clear ha hcopy root
          have hsettled : ∀ w, Spares root a aName copy w →
              copy.titleId = a.titleId → ¬Mismatched root copy name w :=
            fun w hw htitle => hw.settled htitle name hcopy
          refine Runs.mono (P := fun w => copy.titleId = a.titleId → ¬Mismatched root copy name w)
            ?_ hsettled (fun _ _ h => h) fun _ h => h
          refine Runs.bind (runs_listByTitle ?_ _) fun existing => ?_
          · exact fun w w' h hw htitle => stable_mismatched w w' h (hw htitle)
          refine Runs.bind (runs_selectPull hfit hname hroot existing) fun pull => ?_
          exact (watched_carryOn existing pull hroot hdest hfile (partialPath_last _)
            hclear).safe.runs _ _

theorem tracks_selectPull (existing : List Row) : Tracks (selectPull ctx copy name existing) := by
  unfold selectPull
  split
  · refine Tracks.bind (Tracks.bind (tracks_perform _) fun _ => tracks_pure _) fun found => ?_
    exact tracks_ite (tracks_pure _) (Tracks.bind (tracks_perform _) fun _ => tracks_pure _)
  · exact tracks_perform _

-- Some file is clear of any staging.
omit [UnicodeTables] in
theorem exists_clear (layout : StagingLayout) :
    ∃ other : StagingLayout, other.partialPath.getLast? = some 'l' ∧ Clear layout other := by
  refine ⟨{
    staged := []
    partialPath := layout.staged ++ layout.partialPath ++ "l".toList
    sidecar := 's' :: layout.sidecar }, ?_, ?_, fun h => ?_⟩
  · rw [List.getLast?_append_of_ne_nil _ (by decide)]
    rfl
  · rintro (h | h)
    · have hlen := congrArg List.length h
      simp at hlen
    · have hlen := congrArg List.length h
      simp at hlen
      omega
  · have hlen := congrArg List.length h
    simp at hlen

-- Its calls are all of its run, whatever it spares.
theorem tracks_applyCopy {rangeLen : Nat} :
    Tracks (applyCopy ctx copy b3 identity remote rangeLen) := by
  unfold applyCopy
  cases hdest : PathSchema.render copy.titleId copy.placement with
  | error e => exact tracks_throw _
  | ok destRel =>
      simp only [Except.mapError, Prog.lift_ok_bind]
      cases hfile : Path.fileName destRel with
      | none => exact tracks_throw _
      | some name =>
          refine Tracks.bind (tracks_perform _) fun existing => ?_
          refine Tracks.bind (tracks_selectPull existing) fun pull => ?_
          obtain ⟨other, hlast, hclear⟩ :=
            exists_clear (layoutOf ctx.libraryRoot copy.titleId name)
          exact (watched_carryOn existing pull rfl hdest hfile hlast hclear).tracks

end Copies

end Mediaops.Apply
