import Mediaops.Transfer.Calls

namespace Mediaops.Transfer

-- Whatever the volume holds, a pull leaves every path alone that is not its own:
-- it writes only into a partial file that has no other name.

variable {W : Type} [Mounted W] {T : Terms W} {layout : StagingLayout}

section

variable {ε α : Type}

theorem safe_look (hT : Agreed T layout) (fault : ε) (f : Volume → Except ε α) :
    Safe T (look fault f : Prog W ε α) :=
  (runs_look hT (P := fun _ => True) (A := fun _ _ => True) (H := fun _ => True)
    (fun _ _ _ h => h) (fun _ _ _ _ => trivial) fun _ _ => trivial).safe

theorem safe_step (hT : Agreed T layout) (fault : ε) : Safe T (step fault : Prog W ε Unit) :=
  safe_look hT fault _

theorem safe_change (hT : Agreed T layout) (fault : ε)
    {f : Files Text → Except FsError (Files Text)}
    (h : ∀ v files, f v.files = .ok files → Touches layout v { v with files }) :
    Safe T (change fault f : Prog W ε Unit) :=
  (runs_change hT (P := fun _ => True) (B := fun _ => True) (H := fun _ => True)
    (fun _ _ _ h => h) (fun v files _ hf => ⟨h v files hf, trivial⟩) fun _ _ => trivial).safe

end

theorem safe_unlink (hT : Agreed T layout) (fault : TransferError) :
    Safe T (change fault fun files => files.unlink layout.partialPath : Prog W TransferError Unit) :=
  safe_change hT fault fun _ _ hf _ hpath =>
    Files.preserves_unlink (fun he => hpath (.inr he)) hf

theorem safe_load (hT : Agreed T layout) (path : Text) :
    Safe T (load path : Prog W TransferError _) := by
  refine (safe_look hT _ _).bind ?_
  rintro (_ | _ | _ | sidecar)
  · exact safe_pure _
  · exact safe_throw _
  · exact safe_throw _
  · exact (safe_lift _).bind fun _ => safe_pure _

theorem safe_save (hT : Agreed T layout) (sidecar : Sidecar) :
    Safe T (save layout.sidecar sidecar : Prog W TransferError Unit) :=
  (runs_save hT (P := fun _ => True) (B := fun _ => True) (H := fun _ => True)
    (fun _ _ _ h => h) (fun _ _ => trivial) (fun _ _ => trivial) fun _ _ => trivial).safe

variable {b3 : Bytes → Text}

theorem safe_keepRanges (hT : Agreed T layout) (path : Text) (i fileLen : Nat)
    (ranges : List SidecarRange) :
    Safe T (keepRanges b3 path i fileLen ranges : Prog W TransferError _) := by
  induction ranges with
  | nil => exact safe_pure _
  | cons range rest ih =>
      refine (safe_lift _).bind fun len => (safe_look hT _ _).attempt.bind fun read => ih.bind ?_
      intro kept
      cases read with
      | ok bytes => exact safe_ite (safe_pure _) (safe_pure _)
      | error e => exact safe_pure _

theorem safe_verifyRecordedRanges (hT : Agreed T layout) (sidecar : Sidecar) (path : Text) :
    Safe T (verifyRecordedRanges b3 sidecar path : Prog W TransferError _) := by
  refine (safe_look hT _ _).bind ?_
  rintro (_ | ⟨_ | _, _⟩)
  · exact safe_pure _
  · exact (safe_look hT _ _).bind fun i => (safe_keepRanges hT path i _ _).bind fun _ => safe_pure _
  · exact safe_throw _

variable [UnicodeTables] {spec : PullSpec} {remote : Text × List Component → Bytes}

theorem safe_adoptStaged (hT : Agreed T layout) (i : Nat) :
    Safe T (adoptStaged b3 spec layout i : Prog W TransferError _) := by
  refine (safe_load hT _).bind ?_
  rintro (_ | proof)
  · exact safe_throw _
  refine (safe_lift _).bind fun _ => safe_guard ?_
  refine (safe_verifyRecordedRanges hT _ _).bind fun proof' => safe_guard ?_
  refine (safe_look hT _ _).bind ?_
  rintro (_ | ⟨_ | _, _⟩)
  · exact safe_pure _
  · exact safe_ite ((safe_unlink hT _).bind fun _ => safe_pure _)
      ((safe_throw _).bind fun _ => safe_pure _)
  · exact (safe_throw _).bind fun _ => safe_pure _

theorem safe_resume (hT : Agreed T layout) :
    Safe T (resume b3 spec layout : Prog W TransferError _) := by
  refine Safe.bind ?_ fun recalled => (safe_save hT _).bind fun _ => safe_pure _
  refine (safe_load hT _).bind ?_
  rintro (_ | existing)
  · exact safe_guard (safe_pure _)
  · exact (safe_lift _).bind fun _ => safe_guard (safe_verifyRecordedRanges hT _ _)

-- The partial file has one name.
def Alone (layout : StagingLayout) (v : Volume) : Prop :=
  ∃ i, v.files.Sole layout.partialPath i

omit [UnicodeTables] in
theorem stable_alone : Stable layout (Alone layout) :=
  fun _ _ h ⟨i, hi⟩ => ⟨i, h.files.sole (.inr rfl) hi⟩

theorem runs_preparePartial_alone (hT : Agreed T layout) :
    Runs volumeOf T (fun _ => True) (preparePartial spec layout.partialPath : Prog W TransferError _)
      (fun _ v => Alone layout v) fun _ => True := by
  have htrue : Stable layout fun _ => True := fun _ _ _ h => h
  unfold preparePartial
  refine Runs.bind (A := fun i v => v.files.node layout.partialPath = some (.File i))
    (runs_onVolume hT htrue ?_ (fun _ h => h) fun _ v _ => ⟨Touches.refl layout v, trivial⟩) ?_
  · intro pick v i v' _ hrun
    dsimp only at hrun
    split at hrun
    · split at hrun
      · rename_i j files hcreate
        cases hrun
        obtain ⟨rfl, -, -, -, hnode⟩ := Files.create_ok hcreate
        exact ⟨fun path _ => Files.preserves_create hcreate, by rw [hnode, if_pos rfl]⟩
      · cases hrun
    · rename_i j hj
      cases hrun
      exact ⟨Touches.refl layout v, hj⟩
    · cases hrun
  intro i
  have hnode : Stable layout fun v => v.files.node layout.partialPath = some (.File i) :=
    fun v v' h hv => (h.files.names _ (.inr rfl)).trans hv
  refine Runs.bind (A := fun links v => links = 1 → v.files.Sole layout.partialPath i)
    (runs_look hT hnode ?_ fun _ _ => trivial) ?_
  · intro v links hv hlinks
    cases hlinks
    exact Files.sole_of_nlink hv
  intro links
  apply runs_guard fun _ _ => trivial
  intro hne
  have hone : links = 1 := by omega
  have hsole : Stable layout fun v => links = 1 → v.files.Sole layout.partialPath i :=
    fun v v' h hv hl => h.files.sole (.inr rfl) (hv hl)
  refine Runs.bind (runs_step hT hsole fun _ _ => trivial) fun _ => ?_
  refine runs_onVolume hT hsole ?_ (fun _ _ => trivial) fun _ v _ => ⟨Touches.refl layout v, trivial⟩
  intro pick v a v' hv hrun
  cases hrun
  exact ⟨fun path hpath => (hv hone).preserves_store (fun h => hpath (.inr h)) _, i,
    (hv hone).store i _⟩

omit [UnicodeTables] in
theorem runs_writeRange_alone (hT : Agreed T layout) (offset : Nat) (bytes : Bytes) :
    Runs volumeOf T (Alone layout)
      (writeRange layout.partialPath offset bytes : Prog W TransferError _)
      (fun _ v => Alone layout v) fun _ => True := by
  unfold writeRange
  refine Runs.bind (A := fun i v => v.files.Sole layout.partialPath i)
    (runs_look hT stable_alone ?_ fun _ _ => trivial) ?_
  · rintro v i ⟨j, hj⟩ hopen
    rw [hj.1] at hopen
    cases hopen
    exact hj
  intro i
  have hsole : Stable layout fun v => v.files.Sole layout.partialPath i :=
    fun v v' h hv => h.files.sole (.inr rfl) hv
  have htouch : ∀ (v : Volume) bytes, v.files.Sole layout.partialPath i →
      Touches layout v { v with files := v.files.store i bytes } :=
    fun v bytes hv path hpath => hv.preserves_store (fun h => hpath (.inr h)) _
  refine Runs.bind (A := fun _ v => Alone layout v) (runs_onVolume hT hsole ?_ (fun _ _ => trivial)
    fun part v hv => ⟨htouch v _ hv, trivial⟩) ?_
  · intro pick v a v' hv hrun
    cases hrun
    exact ⟨htouch v _ hv, i, hv.store i _⟩
  rintro ⟨⟩
  exact runs_step hT stable_alone fun _ _ => trivial

theorem runs_finishRange_alone (hT : Agreed T layout) (sidecar : Sidecar) (task : Nat × Nat) :
    Runs volumeOf T (Alone layout)
      (finishRange b3 remote spec layout sidecar task : Prog W TransferError _)
      (fun _ v => Alone layout v) fun _ => True := by
  obtain ⟨offset, len⟩ := task
  unfold finishRange
  refine Runs.bind (A := fun _ v => Alone layout v)
    (runs_look hT stable_alone (fun _ _ hv _ => hv) fun _ _ => trivial) ?_
  intro bytes
  apply runs_guard fun _ _ => trivial
  intro _
  refine (runs_writeRange_alone hT offset bytes).bind fun _ => ?_
  refine Runs.bind (A := fun _ v => Alone layout v)
    (runs_save hT stable_alone (fun v hv => hv) (fun _ _ => trivial) fun _ _ => trivial) fun _ => ?_
  exact runs_pure fun _ hv => hv

theorem runs_drainTasks_alone (hT : Agreed T layout) (fuel : Nat) (tasks : List (Nat × Nat))
    (sidecar : Sidecar) :
    Runs volumeOf T (Alone layout)
      (drainTasks b3 remote spec layout fuel tasks sidecar : Prog W TransferError _)
      (fun _ v => Alone layout v) fun _ => True := by
  induction fuel generalizing tasks sidecar with
  | zero => exact runs_pure fun _ hv => hv
  | succ fuel ih =>
      refine Runs.bind (A := fun _ v => Alone layout v) (runs_onVolume hT stable_alone ?_
        (fun _ _ => trivial) fun _ v _ => ⟨Touches.refl layout v, trivial⟩) ?_
      · intro pick v k v' hv hrun
        cases hrun
        exact ⟨Touches.refl layout v, hv⟩
      intro k
      cases tasks[k]? with
      | none => exact runs_pure fun _ hv => hv
      | some task => exact (runs_finishRange_alone hT sidecar task).bind fun sidecar' => ih _ sidecar'

theorem runs_fetchRounds_alone (hT : Agreed T layout) (fuel : Nat) (todo : List (Nat × Nat))
    (sidecar : Sidecar) :
    Runs volumeOf T (Alone layout)
      (fetchRounds b3 remote spec layout fuel todo sidecar : Prog W TransferError _)
      (fun _ v => Alone layout v) fun _ => True := by
  induction fuel generalizing todo sidecar with
  | zero => exact runs_pure fun _ hv => hv
  | succ fuel ih =>
      apply runs_ite
      · exact fun _ => runs_pure fun _ hv => hv
      · intro _
        exact (runs_drainTasks_alone hT _ _ sidecar).bind fun sidecar' => ih _ sidecar'

omit [UnicodeTables] in
theorem safe_publish (hT : Agreed T layout) :
    Safe T (publish layout : Prog W TransferError _) := by
  refine Safe.bind ?_ fun _ => (safe_unlink hT _).bind fun _ => safe_step hT _
  exact safe_change hT _ fun _ _ hf _ _ => Files.preserves_link hf

theorem safe_fetchFile (hT : Agreed T layout) :
    Safe T (fetchFile b3 remote spec layout : Prog W TransferError _) := by
  refine (safe_resume hT).bind fun sidecar => ?_
  apply Runs.safe (A := fun _ _ => True) (H := fun _ => True)
  refine (runs_preparePartial_alone hT).bind fun _ => ?_
  refine (runs_fetchRounds_alone hT _ _ sidecar).bind fun _ => ?_
  exact ((safe_publish hT).bind fun _ => safe_pure _).runs _ _

theorem safe_pullFile (hlayout : StagingLayout.fromSpec spec = .ok layout) (hT : Agreed T layout) :
    Safe T (pullFile b3 remote spec : Prog W TransferError _) := by
  unfold pullFile
  rw [hlayout, Prog.lift_ok_bind]
  refine safe_guard (safe_guard ?_)
  refine (safe_step hT _).bind fun _ => (safe_step hT _).bind fun _ => ?_
  refine (safe_look hT _ _).attempt.bind ?_
  rintro (_ | _ | ⟨_ | _, _⟩)
  · exact safe_fetchFile hT
  · exact safe_fetchFile hT
  · exact safe_ite (safe_adoptStaged hT _) (safe_throw _)
  · exact safe_throw _

end Mediaops.Transfer
