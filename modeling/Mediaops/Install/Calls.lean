import Mediaops.Install
import Mediaops.Transfer.Safety

namespace Mediaops.Install

open Transfer (Volume Mounted Sidecar onVolume look step change stat openFile load PullSpec
  StagingLayout TransferError)

-- What the worker and the rest of the world owe each other while one Job's file is
-- staged and placed. The library path itself belongs to nobody.

def Paths.Private (paths : Paths) (path : Text) : Prop :=
  paths.staging.Private path ∨ path = paths.data

-- Others leave the staging files and the slot of a copy alone, and write into no
-- file in place; they may do anything else to any name.
structure Quiet (paths : Paths) (v v' : Volume) : Prop where
  files : Files.Apart paths.Private v.files v'.files
  sidecar : v'.sidecars paths.staging.sidecar = v.sidecars paths.staging.sidecar

-- A call of the worker keeps every other entry, and its contents.
def Touches (paths : Paths) (v v' : Volume) : Prop :=
  ∀ path, ¬paths.Private path → Files.Preserves path v.files v'.files

structure Agreed {W : Type} [Mounted W] (T : Terms W) (paths : Paths) : Prop where
  rely : ∀ move, T.allowed move → ∀ w : W,
    Quiet paths (Mounted.volume w) (Mounted.volume (move.outside w))
  guar : ∀ past (w : W) v, Touches paths (Mounted.volume w) v →
    T.guar past w (Mounted.mount v w)

theorem Touches.refl (paths : Paths) (v : Volume) : Touches paths v v :=
  fun path _ => Files.Preserves.refl path v.files

section

variable {W : Type} [Mounted W] {T : Terms W} {paths : Paths}

-- A transfer is held to less, and others are held to less by it.
theorem Agreed.transfer (hT : Agreed T paths) : Transfer.Agreed T paths.staging where
  rely move hmove w :=
    ⟨(hT.rely move hmove w).files.mono fun _ hpath => .inl hpath, (hT.rely move hmove w).sidecar⟩
  guar past w v hv := hT.guar past w v fun path hpath => hv path fun h => hpath (.inl h)

theorem Agreed.idle (hT : Agreed T paths) (past : List (W × W)) (w : W) : T.guar past w w := by
  have hself := hT.guar past w (Mounted.volume w) (Touches.refl paths _)
  rwa [Mounted.mount_volume] at hself

-- A condition on the volume that others cannot break.
def Stable (paths : Paths) (P : Volume → Prop) : Prop := ∀ v v', Quiet paths v v' → P v → P v'

variable {ε α : Type} {P : Volume → Prop} {A : α → List (W × W) × W → Prop}
  {B : α → Volume → Prop} {H : Volume → Prop}

theorem runs_onVolume (hT : Agreed T paths) (hP : Stable paths P) {c : Call Volume ε α}
    (hok : ∀ pick past w a v, P (Mounted.volume w) → c.run pick (Mounted.volume w) = .ok (a, v) →
      Touches paths (Mounted.volume w) v ∧ A a (past ++ [(w, Mounted.mount v w)], Mounted.mount v w))
    (herr : ∀ v, P v → H v)
    (hpart : ∀ part v, P v → Touches paths v (c.partly part v) ∧ H (c.partly part v)) :
    Runs Prod.mk T (fun x => P (Mounted.volume x.2)) (onVolume c : Prog W ε α) A
      fun x => H (Mounted.volume x.2) := by
  intro past w hw
  apply wp_perform
  rintro move hmove w₀ o w₁ rfl hanswer
  have hw₀ := hP _ _ (hT.rely move hmove w) hw
  -- A call that fails or is stopped has done a part of its work.
  have hsome : ∀ part, T.guar past (move.outside w)
        (Mounted.mount (c.partly part (Mounted.volume (move.outside w))) (move.outside w)) ∧
      H (Mounted.volume (Mounted.mount (c.partly part (Mounted.volume (move.outside w)))
        (move.outside w))) := by
    intro part
    obtain ⟨htouch, hh⟩ := hpart part _ hw₀
    rw [Mounted.volume_mount]
    exact ⟨hT.guar past _ _ htouch, hh⟩
  unfold Call.answer at hanswer
  split at hanswer
  · simp only [Call.on] at hanswer
    cases hrun : c.run move.pick (Mounted.volume (move.outside w)) with
    | error e =>
        rw [hrun] at hanswer
        cases hanswer
        exact ⟨hT.idle past _, herr _ hw₀⟩
    | ok result =>
        obtain ⟨a, v⟩ := result
        rw [hrun] at hanswer
        cases hanswer
        obtain ⟨htouch, ha⟩ := hok _ past _ _ _ hw₀ hrun
        exact ⟨hT.guar past _ v htouch, ha⟩
  · cases hanswer
    exact hsome _
  · cases hanswer
    exact hsome _

theorem runs_look (hT : Agreed T paths) (hP : Stable paths P) {fault : ε}
    {f : Volume → Except ε α} (hok : ∀ v a, P v → f v = .ok a → B a v) (hhalt : ∀ v, P v → H v) :
    Runs Prod.mk T (fun x => P (Mounted.volume x.2)) (look fault f : Prog W ε α)
      (fun a x => B a (Mounted.volume x.2)) fun x => H (Mounted.volume x.2) := by
  apply runs_onVolume hT hP
  · intro pick past w a v hw hrun
    dsimp only at hrun
    cases hf : f (Mounted.volume w) with
    | error e => rw [hf] at hrun; cases hrun
    | ok b =>
        rw [hf] at hrun
        cases hrun
        refine ⟨Touches.refl _ _, ?_⟩
        dsimp only
        rw [Mounted.volume_mount]
        exact hok _ _ hw hf
  · exact hhalt
  · exact fun part v hv => ⟨Touches.refl _ _, hhalt v hv⟩

-- A look keeps whatever others cannot break.
theorem runs_glance (hT : Agreed T paths) (hP : Stable paths P) (fault : ε)
    (f : Volume → Except ε α) :
    Runs Prod.mk T (fun x => P (Mounted.volume x.2)) (look fault f : Prog W ε α)
      (fun _ x => P (Mounted.volume x.2)) fun _ => True :=
  runs_look hT hP (B := fun _ => P) (H := fun _ => True) (fun _ _ hv _ => hv) fun _ _ => trivial

theorem runs_step (hT : Agreed T paths) (hP : Stable paths P) (fault : ε) :
    Runs Prod.mk T (fun x => P (Mounted.volume x.2)) (step fault : Prog W ε Unit)
      (fun _ x => P (Mounted.volume x.2)) fun _ => True := runs_glance hT hP fault _

-- A look that may fail without harm.
theorem runs_look_attempt (hT : Agreed T paths) (hP : Stable paths P) (fault : ε)
    (f : Volume → Except ε α) :
    Runs Prod.mk T (fun x => P (Mounted.volume x.2)) (look fault f : Prog W ε α).attempt
      (fun _ x => P (Mounted.volume x.2)) fun _ => True :=
  Runs.attempt <| (runs_look hT hP (B := fun _ => P) (H := P) (fun _ _ hv _ => hv)
    fun _ hv => hv).mono (fun _ hx => hx) (fun _ _ hx => hx) fun _ hx => ⟨trivial, fun _ => hx⟩

theorem safe_onVolume (hT : Agreed T paths) {c : Call Volume ε α}
    (hok : ∀ pick v a v', c.run pick v = .ok (a, v') → Touches paths v v')
    (hpart : ∀ part v, Touches paths v (c.partly part v)) : Safe T (onVolume c : Prog W ε α) :=
  (runs_onVolume hT (P := fun _ => True) (A := fun _ _ => True) (H := fun _ => True)
    (fun _ _ _ h => h) (fun pick _ _ _ _ _ hrun => ⟨hok pick _ _ _ hrun, trivial⟩)
    (fun _ h => h) fun part v _ => ⟨hpart part v, trivial⟩).safe

theorem safe_look (hT : Agreed T paths) (fault : ε) (f : Volume → Except ε α) :
    Safe T (look fault f : Prog W ε α) := Transfer.safe_look hT.transfer fault f

theorem safe_step (hT : Agreed T paths) (fault : ε) : Safe T (step fault : Prog W ε Unit) :=
  Transfer.safe_step hT.transfer fault

theorem touches_unlink {path : Text} (hpath : paths.Private path) {v : Volume} {files : Files Text}
    (h : v.files.unlink path = .ok files) : Touches paths v { v with files } := by
  intro other hother
  refine Files.preserves_unlink ?_ h
  rintro rfl
  exact hother hpath

theorem runs_remove (hT : Agreed T paths) {path : Text} (hpath : paths.Private path)
    (hP : Stable paths P) (hdrop : ∀ v files, P v → v.files.unlink path = .ok files → P { v with files }) :
    Runs Prod.mk T (fun x => P (Mounted.volume x.2)) (remove path : Prog W InstallError Unit)
      (fun _ x => P (Mounted.volume x.2)) fun _ => True := by
  apply runs_onVolume hT hP (H := fun _ => True)
  · intro pick past w a v hw hrun
    dsimp only at hrun
    split at hrun
    · rename_i files hfiles
      cases hrun
      refine ⟨touches_unlink hpath hfiles, ?_⟩
      dsimp only
      rw [Mounted.volume_mount]
      exact hdrop _ _ hw hfiles
    · cases hrun
  · exact fun _ _ => trivial
  · exact fun part v _ => ⟨Touches.refl _ _, trivial⟩

theorem safe_remove (hT : Agreed T paths) {path : Text} (hpath : paths.Private path) :
    Safe T (remove path : Prog W InstallError Unit) :=
  (runs_remove hT hpath (P := fun _ => True) (fun _ _ _ h => h) fun _ _ h _ => h).safe

end

end Mediaops.Install
