import Mediaops.Install
import Mediaops.Library.Traces

namespace Mediaops

-- Which sidecars a pull and an installation change: a pull its own one, an
-- installation none.

namespace Transfer

-- Others may do what they like; a call leaves the sidecar at the path as it finds it.
def sidecarKept {W : Type} [Mounted W] (path : Text) : Terms W where
  allowed _ := True
  guar _ w w' := (Mounted.volume w').sidecars path = (Mounted.volume w).sidecars path

variable {W : Type} [Mounted W] {path : Text}

section Calls

variable {ε α : Type}

theorem kept_onVolume {c : Call Volume ε α}
    (hok : ∀ pick v a v', c.run pick v = .ok (a, v') → v'.sidecars path = v.sidecars path)
    (hpart : ∀ part v, (c.partly part v).sidecars path = v.sidecars path) :
    Watched (sidecarKept path) (onVolume c : Prog W ε α) := by
  apply watched_perform
  intro past move w _
  have hmounted : ∀ v (w : W),
      (Mounted.volume (Mounted.mount v w)).sidecars path = v.sidecars path :=
    fun v w => by rw [Mounted.volume_mount]
  unfold Call.answer
  split
  · simp only [Call.on]
    cases hrun : c.run move.pick (Mounted.volume w) with
    | error e => exact rfl
    | ok result =>
        obtain ⟨a, v⟩ := result
        exact (hmounted v w).trans (hok _ _ _ _ hrun)
  · exact (hmounted _ w).trans (hpart _ _)
  · exact (hmounted _ w).trans (hpart _ _)

theorem kept_look (fault : ε) (f : Volume → Except ε α) :
    Watched (sidecarKept path) (look fault f : Prog W ε α) := by
  apply kept_onVolume
  · intro pick v a v' hrun
    dsimp only at hrun
    cases hf : f v with
    | error e => rw [hf] at hrun; cases hrun
    | ok b => rw [hf] at hrun; cases hrun; rfl
  · exact fun _ _ => rfl

theorem kept_step (fault : ε) : Watched (sidecarKept path) (step fault : Prog W ε Unit) :=
  kept_look fault _

theorem kept_change (fault : ε) (f : Files Text → Except FsError (Files Text)) :
    Watched (sidecarKept path) (change fault f : Prog W ε Unit) := by
  apply kept_onVolume
  · intro pick v a v' hrun
    dsimp only at hrun
    split at hrun
    · cases hrun; rfl
    · cases hrun
  · exact fun _ _ => rfl

end Calls

theorem kept_load (source : Text) :
    Watched (sidecarKept path) (load source : Prog W TransferError _) := by
  refine Watched.bind (kept_look _ _) ?_
  rintro (_ | _ | _ | sidecar)
  · exact watched_pure _
  · exact watched_throw _
  · exact watched_throw _
  · exact Watched.bind (watched_lift _) fun _ => watched_pure _

theorem kept_save {own : Text} (hne : path ≠ own) (sidecar : Sidecar) :
    Watched (sidecarKept path) (save own sidecar : Prog W TransferError Unit) := by
  have hother : ∀ v : Volume, (v.saveSidecar own sidecar).sidecars path = v.sidecars path :=
    fun v => Function.update_of_ne hne _ _
  apply kept_onVolume
  · intro pick v a v' hrun
    cases hrun
    exact hother v
  · intro part v
    by_cases hpart : part = 0
    · simp [hpart]
    · simp [hpart, hother]

variable {b3 : Bytes → Text}

theorem kept_keepRanges (source : Text) (i fileLen : Nat) (ranges : List SidecarRange) :
    Watched (sidecarKept path) (keepRanges b3 source i fileLen ranges : Prog W TransferError _) := by
  induction ranges with
  | nil => exact watched_pure _
  | cons range rest ih =>
      refine Watched.bind (watched_lift _) fun len => (kept_look _ _).attempt.bind fun read => ih.bind ?_
      intro kept
      cases read with
      | ok bytes => exact watched_ite (watched_pure _) (watched_pure _)
      | error e => exact watched_pure _

theorem kept_verifyRecordedRanges (sidecar : Sidecar) (source : Text) :
    Watched (sidecarKept path) (verifyRecordedRanges b3 sidecar source : Prog W TransferError _) := by
  refine Watched.bind (kept_look _ _) ?_
  rintro (_ | ⟨_ | _, _⟩)
  · exact watched_pure _
  · refine Watched.bind (kept_look _ _) fun i => ?_
    exact Watched.bind (kept_keepRanges source i _ _) fun _ => watched_pure _
  · exact watched_throw _

variable [UnicodeTables] {spec : PullSpec} {layout : StagingLayout}
  {remote : Text × List Component → Bytes}

theorem kept_adoptStaged (i : Nat) :
    Watched (sidecarKept path) (adoptStaged b3 spec layout i : Prog W TransferError _) := by
  refine Watched.bind (kept_load _) ?_
  rintro (_ | proof)
  · exact watched_throw _
  refine Watched.bind (watched_lift _) fun _ => watched_guard ?_
  refine Watched.bind (kept_verifyRecordedRanges _ _) fun proof' => watched_guard ?_
  refine Watched.bind (kept_look _ _) ?_
  rintro (_ | ⟨_ | _, _⟩)
  · exact watched_pure _
  · exact watched_ite (Watched.bind (kept_change _ _) fun _ => watched_pure _)
      (Watched.bind (watched_throw _) fun _ => watched_pure _)
  · exact Watched.bind (watched_throw _) fun _ => watched_pure _

section Fetch

variable (hne : path ≠ layout.sidecar)

include hne

theorem kept_resume : Watched (sidecarKept path) (resume b3 spec layout : Prog W TransferError _) := by
  refine Watched.bind ?_ fun recalled => Watched.bind (kept_save hne _) fun _ => watched_pure _
  refine Watched.bind (kept_load _) ?_
  rintro (_ | existing)
  · exact watched_guard (watched_pure _)
  · exact Watched.bind (watched_lift _) fun _ => watched_guard (kept_verifyRecordedRanges _ _)

omit hne in
theorem kept_preparePartial (source : Text) :
    Watched (sidecarKept path) (preparePartial spec source : Prog W TransferError _) := by
  have hopen : Watched (sidecarKept path) (openPartial source : Prog W TransferError Nat) := by
    apply kept_onVolume
    · intro pick v a v' hrun
      dsimp only at hrun
      split at hrun
      · split at hrun
        · cases hrun; rfl
        · cases hrun
      · cases hrun; rfl
      · cases hrun
    · exact fun _ _ => rfl
  refine Watched.bind hopen fun i => Watched.bind (kept_look _ _) fun links => watched_guard ?_
  refine Watched.bind (kept_step _) fun _ => kept_onVolume ?_ fun _ _ => rfl
  intro pick v a v' hrun
  cases hrun
  rfl

omit [UnicodeTables] hne in
theorem kept_writeRange (source : Text) (offset : Nat) (bytes : Bytes) :
    Watched (sidecarKept path) (writeRange source offset bytes : Prog W TransferError _) := by
  refine Watched.bind (kept_look _ _) fun i => Watched.bind ?_ fun _ => kept_step _
  refine kept_onVolume ?_ fun _ _ => rfl
  intro pick v a v' hrun
  cases hrun
  rfl

theorem kept_finishRange (sidecar : Sidecar) (task : Nat × Nat) :
    Watched (sidecarKept path)
      (finishRange b3 remote spec layout sidecar task : Prog W TransferError _) := by
  obtain ⟨offset, len⟩ := task
  refine Watched.bind (kept_look _ _) fun bytes => watched_guard ?_
  refine Watched.bind (kept_writeRange _ offset bytes) fun _ => ?_
  exact Watched.bind (kept_save hne _) fun _ => watched_pure _

theorem kept_drainTasks (fuel : Nat) (tasks : List (Nat × Nat)) (sidecar : Sidecar) :
    Watched (sidecarKept path)
      (drainTasks b3 remote spec layout fuel tasks sidecar : Prog W TransferError _) := by
  induction fuel generalizing tasks sidecar with
  | zero => exact watched_pure _
  | succ fuel ih =>
      refine Watched.bind (kept_onVolume ?_ fun _ _ => rfl) ?_
      · intro pick v a v' hrun
        cases hrun
        rfl
      intro k
      cases tasks[k]? with
      | none => exact watched_pure _
      | some task =>
          exact Watched.bind (kept_finishRange hne sidecar task) fun sidecar' => ih _ sidecar'

theorem kept_fetchRounds (fuel : Nat) (todo : List (Nat × Nat)) (sidecar : Sidecar) :
    Watched (sidecarKept path)
      (fetchRounds b3 remote spec layout fuel todo sidecar : Prog W TransferError _) := by
  induction fuel generalizing todo sidecar with
  | zero => exact watched_pure _
  | succ fuel ih =>
      apply watched_ite
      · exact watched_pure _
      · exact Watched.bind (kept_drainTasks hne _ _ sidecar) fun sidecar' => ih _ sidecar'

theorem kept_fetchFile :
    Watched (sidecarKept path) (fetchFile b3 remote spec layout : Prog W TransferError _) := by
  refine Watched.bind (kept_resume hne) fun sidecar => Watched.bind (kept_preparePartial _) fun _ => ?_
  refine Watched.bind (kept_fetchRounds hne _ _ sidecar) fun _ => Watched.bind ?_ fun _ => watched_pure _
  exact Watched.bind (kept_change _ _) fun _ => Watched.bind (kept_change _ _) fun _ => kept_step _

-- A pull writes no sidecar but the one of its own layout.
theorem kept_pullFile (hlayout : StagingLayout.fromSpec spec = .ok layout) :
    Watched (sidecarKept path) (pullFile b3 remote spec : Prog W TransferError _) := by
  unfold pullFile
  rw [hlayout, Prog.lift_ok_bind]
  refine watched_guard (watched_guard ?_)
  refine Watched.bind (kept_step _) fun _ => Watched.bind (kept_step _) fun _ => ?_
  refine (kept_look _ _).attempt.bind ?_
  rintro (_ | _ | ⟨_ | _, _⟩)
  · exact kept_fetchFile hne
  · exact kept_fetchFile hne
  · exact watched_ite (kept_adoptStaged _) (watched_throw _)
  · exact watched_throw _

end Fetch

end Transfer

namespace Install

open Transfer

variable {W : Type} [Mounted W] {paths : Paths} {path : Text}

theorem kept_remove (source : Text) :
    Watched (sidecarKept path) (remove source : Prog W InstallError Unit) := kept_change _ _

theorem kept_clearData : Watched (sidecarKept path) (clearData paths : Prog W InstallError Unit) := by
  have hclear : Watched (sidecarKept path) (do
      remove paths.data
      step (.Io (parentOf paths.data)) : Prog W InstallError Unit) :=
    Watched.bind (kept_remove _) fun _ => kept_step _
  have howned : ∀ k, Watched (sidecarKept path) (ownedLinks paths k : Prog W InstallError Bool) := by
    intro k
    refine Watched.bind (kept_look _ _) fun count => watched_ite ?_ (watched_pure _)
    refine (kept_look _ _).attempt.bind ?_
    rintro (_ | _ | ⟨node, _⟩) <;> exact watched_pure _
  refine Watched.bind (kept_look _ _) ?_
  rintro (_ | ⟨k | _, _⟩)
  · exact watched_pure _
  · exact Watched.bind (howned k) fun owned => watched_guard hclear
  · exact watched_throw _

theorem kept_hardLink (source dest : Text) :
    Watched (sidecarKept path) (hardLink source dest : Prog W InstallError LinkResult) := by
  refine kept_onVolume ?_ fun _ _ => rfl
  intro pick v a v' hrun
  dsimp only at hrun
  split at hrun
  · split at hrun
    · cases hrun; rfl
    · cases hrun
    · cases hrun
  · cases hrun; rfl

theorem kept_createNew (dest : Text) :
    Watched (sidecarKept path) (createNew dest : Prog W InstallError Nat) := by
  refine kept_onVolume ?_ fun _ _ => rfl
  intro pick v a v' hrun
  dsimp only at hrun
  split at hrun
  · cases hrun; rfl
  · cases hrun

theorem kept_copyChunks (source k : Nat) :
    Watched (sidecarKept path) (copyChunks paths source k : Prog W InstallError Unit) := by
  refine kept_onVolume ?_ fun _ _ => rfl
  intro pick v a v' hrun
  cases hrun
  rfl

theorem kept_copyAcrossDevices :
    Watched (sidecarKept path) (copyAcrossDevices paths : Prog W InstallError Unit) := by
  unfold copyAcrossDevices
  refine Watched.bind (kept_step _) fun _ => ?_
  refine Watched.bind kept_clearData fun _ => ?_
  refine Watched.bind (kept_step _) fun _ => ?_
  refine Watched.bind (kept_look _ _) fun source => ?_
  refine Watched.bind (kept_createNew _) fun k => ?_
  refine Watched.bind (kept_copyChunks source k) fun _ => ?_
  refine Watched.bind (kept_step _) fun _ => ?_
  refine Watched.bind (kept_step _) fun _ => ?_
  refine Watched.bind (kept_hardLink _ _) ?_
  rintro (_ | _)
  · exact Watched.bind kept_clearData fun _ => kept_step _
  · exact watched_throw _

theorem kept_copyIntoPlaceChecked :
    Watched (sidecarKept path) (copyIntoPlaceChecked paths : Prog W InstallError Unit) := by
  unfold copyIntoPlaceChecked
  refine Watched.bind (kept_step _) fun _ => ?_
  refine Watched.bind (kept_hardLink _ _) ?_
  rintro (_ | _)
  · exact kept_step _
  · exact kept_copyAcrossDevices

theorem kept_moveIntoPlaceChecked :
    Watched (sidecarKept path) (moveIntoPlaceChecked paths : Prog W InstallError Unit) := by
  unfold moveIntoPlaceChecked
  refine Watched.bind kept_copyIntoPlaceChecked fun _ => ?_
  exact Watched.bind (kept_remove _) fun _ => kept_step _

-- An installation changes no sidecar.
theorem kept_install (b3 : Bytes → Blake3Hex) :
    Watched (sidecarKept path) (install b3 paths : Prog W InstallError Blake3Hex) := by
  refine Watched.bind (kept_look _ _) ?_
  rintro (_ | found)
  · refine Watched.bind (kept_look _ _) fun i => Watched.bind (kept_look _ _) fun count => watched_guard ?_
    refine Watched.bind (kept_look _ _) fun bytes => ?_
    refine Watched.bind (kept_step _) fun _ => Watched.bind (kept_step _) fun _ => ?_
    exact Watched.bind kept_moveIntoPlaceChecked fun _ => watched_pure _
  · exact watched_throw _

theorem kept_verifyStaged :
    Watched (sidecarKept path) (verifyStaged paths : Prog W InstallError Unit) := by
  refine Watched.bind (kept_look _ _) ?_
  rintro (_ | ⟨_ | _, _⟩)
  · exact watched_throw _
  · exact watched_pure _
  · exact watched_throw _

end Install

end Mediaops
