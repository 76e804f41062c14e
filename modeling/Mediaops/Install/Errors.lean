import Mediaops.Install.Replace

namespace Mediaops.Install

-- What the calls of a replacement fail with, up to its last rename.

open Transfer (Mounted onVolume look step change stat openFile)
open InstallTemporary (directory marker openDir openMarker claim openOwner openSlot makeDir check
  copyIntoPlace)

-- An error that says neither that a backup is inside the library nor that a
-- replacement was not undone.
def Common : InstallError → Prop
  | .BackupInsideLibrary _ => False
  | .RollbackFailed _ => False
  | _ => True

section Errors

variable {W : Type} [Mounted W] {ε α : Type} {errors : ε → Prop}

theorem throws_onVolume {c : Call Transfer.Volume ε α} (hfault : errors c.fault)
    (hrun : ∀ pick v e, c.run pick v = .error e → errors e) :
    Throws errors (onVolume c : Prog W ε α) := by
  refine throws_perform ?_ ?_
  · exact hfault
  intro pick w e he
  simp only [Call.on] at he
  cases hanswer : c.run pick (Mounted.volume w) with
  | ok a => rw [hanswer] at he; cases he
  | error e' => rw [hanswer] at he; cases he; exact hrun _ _ _ hanswer

theorem throws_look {fault : ε} {f : Transfer.Volume → Except ε α} (hfault : errors fault)
    (hf : ∀ v e, f v = .error e → errors e) : Throws errors (look fault f : Prog W ε α) := by
  refine throws_onVolume ?_ ?_
  · exact hfault
  intro pick v e he
  dsimp only at he
  cases hanswer : f v with
  | ok a => rw [hanswer] at he; cases he
  | error e' => rw [hanswer] at he; cases he; exact hf v _ hanswer

theorem throws_step {fault : ε} (hfault : errors fault) :
    Throws errors (step fault : Prog W ε Unit) :=
  throws_look hfault fun _ _ he => nomatch he

theorem throws_stat {fault : ε} (hfault : errors fault) (path : Text) :
    Throws errors (stat fault path : Prog W ε (Option (Node × Nat))) :=
  throws_look hfault fun _ _ he => nomatch he

theorem throws_openFile {fault : ε} (hfault : errors fault) (path : Text) :
    Throws errors (openFile fault path : Prog W ε Nat) := by
  apply throws_look hfault
  intro v e he
  split at he
  · cases he
  · cases he; exact hfault

theorem throws_change {fault : ε} (hfault : errors fault)
    (f : Files Text → Except FsError (Files Text)) :
    Throws errors (change fault f : Prog W ε Unit) := by
  refine throws_onVolume ?_ ?_
  · exact hfault
  intro pick v e he
  dsimp only at he
  split at he
  · cases he
  · cases he; exact hfault

theorem throws_onSlot {dir : Text} {c : Call SlotDir ε α} (hfault : errors c.fault)
    (hrun : ∀ pick slot e, c.run pick slot = .error e → errors e) :
    Throws errors (onSlot dir c) := by
  refine throws_perform ?_ ?_
  · exact hfault
  intro pick disk e he
  simp only [Call.on] at he
  cases hanswer : c.run pick (disk.slots dir) with
  | ok a => rw [hanswer] at he; cases he
  | error e' => rw [hanswer] at he; cases he; exact hrun _ _ _ hanswer

theorem throws_lookSlot {dir : Text} {fault : ε} {f : SlotDir → Except ε α} (hfault : errors fault)
    (hf : ∀ slot e, f slot = .error e → errors e) : Throws errors (lookSlot dir fault f) := by
  refine throws_onSlot ?_ ?_
  · exact hfault
  intro pick slot e he
  dsimp only at he
  cases hanswer : f slot with
  | ok a => rw [hanswer] at he; cases he
  | error e' => rw [hanswer] at he; cases he; exact hf slot _ hanswer

end Errors

section Errors

variable {W : Type} [Mounted W] (paths : Paths)

theorem throws_links {fault : InstallError} (hfault : Common fault) (i : Nat) :
    Throws Common (links fault i : Prog W InstallError Nat) :=
  throws_look hfault fun _ _ he => nomatch he

theorem throws_remove (path : Text) :
    Throws Common (remove path : Prog W InstallError Unit) :=
  throws_change trivial _

theorem throws_ownedLinks (k : Nat) :
    Throws Common (ownedLinks paths k : Prog W InstallError Bool) := by
  unfold ownedLinks
  refine Throws.bind (throws_links ?_ k) fun count => ?_
  · exact trivial
  refine throws_ite ?_ ?_
  · refine Throws.bind (throws_attempt _) fun found => ?_
    split
    · exact throws_pure _
    · exact throws_pure _
  · exact throws_pure _

theorem throws_clearData : Throws Common (clearData paths : Prog W InstallError Unit) := by
  unfold clearData
  refine Throws.bind (throws_stat trivial paths.data) fun found => ?_
  split
  · exact throws_pure _
  · exact throws_throw trivial
  · refine Throws.bind (throws_ownedLinks paths _) fun owned => ?_
    refine throws_guard trivial ?_
    refine Throws.bind (throws_remove paths.data) fun _ => ?_
    exact throws_step trivial

theorem throws_hardLink (source dest : Text) :
    Throws Common (hardLink source dest : Prog W InstallError LinkResult) := by
  refine throws_onVolume ?_ ?_
  · exact trivial
  intro pick v e he
  dsimp only at he
  split at he
  · split at he <;> cases he <;> exact trivial
  · cases he

theorem throws_createNew (path : Text) :
    Throws Common (createNew path : Prog W InstallError Nat) := by
  refine throws_onVolume ?_ ?_
  · exact trivial
  intro pick v e he
  dsimp only at he
  split at he <;> cases he
  exact trivial

theorem throws_copyChunks (source k : Nat) :
    Throws Common (copyChunks paths source k : Prog W InstallError Unit) := by
  refine throws_onVolume ?_ ?_
  · exact trivial
  intro pick v e he
  cases he

end Errors

section Errors

variable (b3 : Bytes → Blake3Hex) (source dest : Text)

theorem throws_openDir (dir : Text) (create : Bool) : Throws Common (openDir dir create) := by
  refine throws_lookSlot trivial ?_
  intro slot e he
  split at he
  · split at he <;> cases he
    exact trivial
  · cases he
    exact trivial
  · cases he

theorem throws_openMarker (dir path : Text) (created : Bool) :
    Throws Common (openMarker dir path created) := by
  refine throws_onSlot ?_ ?_
  · exact trivial
  intro pick slot e he
  dsimp only at he
  split at he
  · split at he <;> cases he
    exact trivial
  · cases he
    exact trivial
  · split at he <;> cases he
    exact trivial
  · cases he
    exact trivial

theorem throws_claim (created : Bool) : Throws Common (claim b3 source dest created) := by
  unfold claim
  refine throws_ite ?_ ?_
  · refine Throws.bind (.fromTurn ?_ _) fun _ => ?_
    · refine throws_onSlot ?_ ?_
      · exact trivial
      intro pick slot e he
      cases he
    refine Throws.bind ((throws_step trivial).fromTurn _) fun _ => ?_
    refine Throws.bind ((throws_step trivial).fromTurn _) fun _ => ?_
    exact (throws_step trivial).fromTurn _
  · refine Throws.bind (.fromTurn ?_ _) fun saved => ?_
    · refine throws_lookSlot trivial ?_
      intro slot e he
      split at he <;> cases he
      exact trivial
    exact throws_ite (throws_throw trivial) (throws_pure _)

theorem throws_openOwner (create created : Bool) :
    Throws Common (openOwner b3 source dest create created) := by
  unfold openOwner
  refine Throws.bind ((throws_openDir _ create).fromTurn _) fun there => ?_
  refine throws_ite (throws_pure _) ?_
  refine Throws.bind (.fromTurn ?_ _) fun _ => ?_
  · refine throws_lookSlot trivial ?_
    intro slot e he
    split at he <;> cases he
    exact trivial
  refine Throws.bind ((throws_openMarker _ _ created).fromTurn _) fun _ => ?_
  refine Throws.bind (.fromTurn ?_ _) fun _ => ?_
  · refine throws_lookSlot trivial ?_
    intro slot e he
    split at he <;> cases he
    exact trivial
  refine Throws.bind ((throws_step trivial).fromTurn _) fun _ => ?_
  exact Throws.bind (throws_claim b3 source dest created) fun _ => throws_pure _

theorem throws_openSlot (create : Bool) : Throws Common (openSlot b3 source dest create) := by
  unfold openSlot
  refine throws_ite ?_ (throws_openOwner b3 source dest _ _)
  refine Throws.bind (.fromTurn ?_ _) fun created => throws_openOwner b3 source dest _ _
  refine throws_onSlot ?_ ?_
  · exact trivial
  intro pick slot e he
  dsimp only at he
  split at he <;> cases he

theorem throws_fillData (media : Bool) :
    Throws Common (InstallTemporary.fillData b3 source dest media) := by
  have hcheck : Throws Common (check media) := by
    cases media
    · exact throws_pure _
    · exact throws_step trivial
  unfold InstallTemporary.fillData
  refine Throws.bind ((throws_clearData _).fromTurn _) fun _ => ?_
  refine Throws.bind (hcheck.fromTurn _) fun _ => ?_
  refine Throws.bind ((throws_openFile trivial _).fromTurn _) fun i => ?_
  refine Throws.bind ((throws_step trivial).fromTurn _) fun _ => ?_
  refine Throws.bind ((throws_createNew _).fromTurn _) fun k => ?_
  refine Throws.bind ((throws_copyChunks _ i k).fromTurn _) fun _ => ?_
  refine Throws.bind ((throws_step trivial).fromTurn _) fun _ => ?_
  exact hcheck.fromTurn _

theorem throws_linkData : Throws Common (InstallTemporary.linkData b3 source dest) := by
  unfold InstallTemporary.linkData
  refine Throws.bind ((throws_hardLink _ _).fromTurn _) fun linked => ?_
  cases linked with
  | CrossesDevices => exact throws_throw trivial
  | Linked => exact throws_pure _

theorem throws_copyAcrossDevices (media : Bool) :
    Throws Common (InstallTemporary.copyAcrossDevices b3 source dest media) := by
  unfold InstallTemporary.copyAcrossDevices InstallTemporary.copyThrough
  refine Throws.bind (throws_openSlot b3 source dest true) fun _ => ?_
  refine Throws.bind (throws_fillData b3 source dest media) fun _ => ?_
  refine Throws.bind (throws_linkData b3 source dest) fun _ => ?_
  refine Throws.bind ((throws_clearData _).fromTurn _) fun _ => ?_
  exact (throws_step trivial).fromTurn _

theorem throws_copyIntoPlace : Throws Common (copyIntoPlace b3 source dest) := by
  unfold copyIntoPlace
  refine Throws.bind ((throws_hardLink _ _).fromTurn _) fun linked => ?_
  cases linked with
  | CrossesDevices => exact throws_copyAcrossDevices b3 source dest false
  | Linked => exact (throws_step trivial).fromTurn _

end Errors

section Checks

variable [UnicodeTables] {backup : Text} {titleId : TitleId} {handle : VerifiedConvertingHandle}

omit [UnicodeTables] in
theorem throws_checkLive (dest : Text) :
    Throws Common (checkLive dest : Prog Disk InstallError Unit) := by
  unfold checkLive
  refine Throws.bind (throws_stat trivial dest) fun found => ?_
  split
  · exact throws_pure _
  · exact throws_throw trivial

theorem throws_checkConversion (dest : Text) :
    Throws Common (checkConversion dest backup handle) := by
  unfold checkConversion
  refine Throws.bind ((throws_step trivial).fromTurn _) fun _ => ?_
  refine Throws.bind ((throws_openFile trivial _).fromTurn _) fun i => ?_
  refine Throws.bind (.fromTurn (throws_links ?_ i) _) fun count => ?_
  · exact trivial
  refine throws_guard trivial ?_
  refine Throws.bind ((throws_step trivial).fromTurn _) fun _ => ?_
  exact (throws_step trivial).fromTurn _

theorem checkTitle_error {destRel : Text} {e : InstallError}
    (h : checkTitle titleId destRel = .error e) : Common e := by
  unfold checkTitle at h
  cases hparse : (PathSchema.parse destRel).mapError InstallError.PathSchema with
  | error e' =>
      rw [hparse] at h
      cases h
      unfold Except.mapError at hparse
      split at hparse <;> cases hparse
      exact trivial
  | ok parsed =>
      rw [hparse] at h
      simp only [bind, Except.bind] at h
      split at h
      · split at h <;> cases h
        exact trivial
      · split at h <;> cases h
        exact trivial

end Checks

end Mediaops.Install
