import Mediaops.Transfer

namespace Mediaops.Transfer

-- What a pull and the rest of the world owe each other while it runs, and the
-- rules for its calls.

def StagingLayout.Private (layout : StagingLayout) (path : Text) : Prop :=
  path = layout.staged ∨ path = layout.partialPath

-- The writer lock and the private staging directory: others leave the staged file,
-- the partial file and the sidecar alone.
structure Quiet (layout : StagingLayout) (v v' : Volume) : Prop where
  files : Files.Apart layout.Private v.files v'.files
  sidecar : v'.sidecars layout.sidecar = v.sidecars layout.sidecar

-- A call of a pull leaves whatever stands at any other path as it is.
def Touches (layout : StagingLayout) (v v' : Volume) : Prop :=
  ∀ path, ¬layout.Private path → Files.Preserves path v.files v'.files

structure Agreed {W : Type} [Mounted W] (T : Terms W) (layout : StagingLayout) : Prop where
  rely : ∀ move, T.allowed move → ∀ w : W,
    Quiet layout (Mounted.volume w) (Mounted.volume (move.outside w))
  guar : ∀ past (w : W) v, Touches layout (Mounted.volume w) v →
    T.guar past w (Mounted.mount v w)

section Quiet

variable {layout : StagingLayout}

theorem Quiet.refl (layout : StagingLayout) (v : Volume) : Quiet layout v v :=
  ⟨Files.Apart.refl _ _, rfl⟩

theorem Quiet.trans {v v' v'' : Volume} (h : Quiet layout v v') (h' : Quiet layout v' v'') :
    Quiet layout v v'' := ⟨h.files.trans h'.files, h'.sidecar.trans h.sidecar⟩

theorem Touches.refl (layout : StagingLayout) (v : Volume) : Touches layout v v :=
  fun path _ => Files.Preserves.refl path v.files

end Quiet

-- A condition that others cannot break.
def Stable (layout : StagingLayout) (P : Volume → Prop) : Prop :=
  ∀ v v', Quiet layout v v' → P v → P v'

-- The conditions below speak of the volume only.
def volumeOf {W : Type} [Mounted W] (_ : List (W × W)) (w : W) : Volume := Mounted.volume w

section Rules

variable {W ε α : Type} [Mounted W] {T : Terms W} {layout : StagingLayout} {P : Volume → Prop}
  {A : α → Volume → Prop} {H : Volume → Prop}

theorem runs_onVolume (hT : Agreed T layout) (hP : Stable layout P) {c : Call Volume ε α}
    (hok : ∀ pick v a v', P v → c.run pick v = .ok (a, v') → Touches layout v v' ∧ A a v')
    (herr : ∀ v, P v → H v)
    (hpart : ∀ part v, P v → Touches layout v (c.partly part v) ∧ H (c.partly part v)) :
    Runs volumeOf T P (onVolume c : Prog W ε α) A H := by
  intro past w hw
  apply wp_perform
  rintro move hmove w₀ o w₁ rfl hanswer
  have hw₀ := hP _ _ (hT.rely move hmove w) hw
  unfold Call.answer at hanswer
  split at hanswer
  · simp only [Call.on] at hanswer
    cases hrun : c.run move.pick (Mounted.volume (move.outside w)) with
    | error e =>
        rw [hrun] at hanswer
        cases hanswer
        have hself := hT.guar past (move.outside w) _ (Touches.refl layout _)
        rw [Mounted.mount_volume] at hself
        exact ⟨hself, herr _ hw₀⟩
    | ok result =>
        obtain ⟨a, v⟩ := result
        rw [hrun] at hanswer
        cases hanswer
        obtain ⟨htouch, ha⟩ := hok _ _ _ _ hw₀ hrun
        refine ⟨hT.guar past _ v htouch, ?_⟩
        show A a (Mounted.volume (Mounted.mount v _))
        rwa [Mounted.volume_mount]
  · rename_i part _
    cases hanswer
    obtain ⟨htouch, hh⟩ := hpart part _ hw₀
    refine ⟨hT.guar past _ _ htouch, ?_⟩
    show H (Mounted.volume (Mounted.mount _ _))
    rwa [Mounted.volume_mount]
  · rename_i part _
    cases hanswer
    obtain ⟨htouch, hh⟩ := hpart part _ hw₀
    refine ⟨hT.guar past _ _ htouch, ?_⟩
    show H (Mounted.volume (Mounted.mount _ _))
    rwa [Mounted.volume_mount]

theorem runs_look (hT : Agreed T layout) (hP : Stable layout P) {fault : ε}
    {f : Volume → Except ε α} (hok : ∀ v a, P v → f v = .ok a → A a v) (hhalt : ∀ v, P v → H v) :
    Runs volumeOf T P (look fault f : Prog W ε α) A H := by
  apply runs_onVolume hT hP
  · intro pick v a v' hv hrun
    dsimp only at hrun
    cases hf : f v with
    | error e => rw [hf] at hrun; cases hrun
    | ok b =>
        rw [hf] at hrun
        cases hrun
        exact ⟨Touches.refl _ _, hok _ _ hv hf⟩
  · exact hhalt
  · intro part v hv
    exact ⟨Touches.refl _ _, hhalt v hv⟩

theorem runs_step (hT : Agreed T layout) (hP : Stable layout P) {fault : ε}
    (hhalt : ∀ v, P v → H v) : Runs volumeOf T P (step fault : Prog W ε Unit) (fun _ => P) H :=
  runs_look hT hP (fun _ _ hv _ => hv) hhalt

theorem runs_change (hT : Agreed T layout) (hP : Stable layout P) {fault : ε}
    {f : Files Text → Except FsError (Files Text)} {B : Volume → Prop}
    (hok : ∀ v files, P v → f v.files = .ok files →
      Touches layout v { v with files } ∧ B { v with files })
    (hhalt : ∀ v, P v → H v) : Runs volumeOf T P (change fault f : Prog W ε Unit) (fun _ => B) H := by
  apply runs_onVolume hT hP
  · intro pick v a v' hv hrun
    dsimp only at hrun
    split at hrun
    · rename_i files hf
      cases hrun
      exact hok v files hv hf
    · cases hrun
  · exact hhalt
  · intro part v hv
    exact ⟨Touches.refl _ _, hhalt v hv⟩

-- A sidecar is saved or it is not.
theorem runs_save (hT : Agreed T layout) (hP : Stable layout P) {sidecar : Sidecar}
    {B H : Volume → Prop} (hok : ∀ v, P v → B (v.saveSidecar layout.sidecar sidecar))
    (hold : ∀ v, P v → H v) (hnew : ∀ v, B v → H v) :
    Runs volumeOf T P (save layout.sidecar sidecar : Prog W TransferError Unit) (fun _ => B) H := by
  apply runs_onVolume hT hP
  · intro pick v a v' hv hrun
    cases hrun
    exact ⟨Touches.refl layout v, hok v hv⟩
  · exact hold
  · intro part v hv
    dsimp only
    split
    · exact ⟨Touches.refl layout v, hold v hv⟩
    · exact ⟨Touches.refl layout v, hnew _ (hok v hv)⟩

end Rules

end Mediaops.Transfer
