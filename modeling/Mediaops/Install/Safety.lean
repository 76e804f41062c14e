import Mediaops.Install.Calls

namespace Mediaops.Install

open Transfer (Volume Mounted onVolume look step stat openFile load PullSpec TransferError)

-- The placement of a verified file, call by call: what stands at a path that is not
-- the worker's own stays, and a placement that succeeds saw the verified bytes at
-- the destination.

variable {W : Type} [Mounted W] {T : Terms W} {paths : Paths} {P : Volume → Prop}

-- One of the calls left these bytes at a path, or found them there.
def Shown (path : Text) (bytes : Bytes) (past : List (W × W)) : Prop :=
  ∃ call ∈ past, (Mounted.volume call.2).files.content path = some bytes

theorem Shown.append {path : Text} {bytes : Bytes} {past : List (W × W)}
    (h : Shown path bytes past) (calls : List (W × W)) : Shown path bytes (past ++ calls) := by
  obtain ⟨call, hcall, hbytes⟩ := h
  exact ⟨call, List.mem_append_left _ hcall, hbytes⟩

theorem shown_last {path : Text} {bytes : Bytes} {w : W}
    (h : (Mounted.volume w).files.content path = some bytes) (past : List (W × W)) (w₀ : W) :
    Shown path bytes (past ++ [(w₀, w)]) :=
  ⟨(w₀, w), List.mem_append_right _ List.mem_cons_self, h⟩

theorem runs_shown {ε α : Type} {m : Prog W ε α} (h : Safe T m) (path : Text) (bytes : Bytes) :
    Runs Prod.mk T (fun x => Shown path bytes x.1) m (fun _ x => Shown path bytes x.1)
      fun _ => True :=
  h.keeps fun _ calls hpast => hpast.append calls

theorem runs_ownedLinks (hT : Agreed T paths) (hP : Stable paths P) (k : Nat) :
    Runs Prod.mk T (fun x => P (Mounted.volume x.2)) (ownedLinks paths k : Prog W InstallError Bool)
      (fun _ x => P (Mounted.volume x.2)) fun _ => True := by
  refine Runs.bind (runs_glance hT hP _ _) fun count => ?_
  apply runs_ite
  · intro _
    refine Runs.bind (runs_look_attempt hT hP _ _) ?_
    rintro (_ | _ | _)
    · exact runs_pure fun _ hx => hx
    · exact runs_pure fun _ hx => hx
    · exact runs_pure fun _ hx => hx
  · exact fun _ => runs_pure fun _ hx => hx

theorem runs_clearData (hT : Agreed T paths) (hP : Stable paths P)
    (hdrop : ∀ v files, P v → v.files.unlink paths.data = .ok files → P { v with files }) :
    Runs Prod.mk T (fun x => P (Mounted.volume x.2)) (clearData paths : Prog W InstallError Unit)
      (fun _ x => P (Mounted.volume x.2)) fun _ => True := by
  refine Runs.bind (runs_glance hT hP _ _) ?_
  rintro (_ | ⟨k | _, _⟩)
  · exact runs_pure fun _ hx => hx
  · refine Runs.bind (runs_ownedLinks hT hP k) fun owned => ?_
    apply runs_guard fun _ _ => trivial
    intro _
    exact Runs.bind (runs_remove hT (.inr rfl) hP hdrop) fun _ => runs_step hT hP _
  · exact runs_throw fun _ _ => trivial

theorem safe_clearData (hT : Agreed T paths) : Safe T (clearData paths : Prog W InstallError Unit) :=
  (runs_clearData hT (P := fun _ => True) (fun _ _ _ h => h) fun _ _ h _ => h).safe

theorem safe_cleanupInstallTemporary (hT : Agreed T paths) :
    Safe T (cleanupInstallTemporary paths : Prog W InstallError Unit) :=
  Safe.bind (safe_step hT _) fun _ => safe_clearData hT

section Placement

variable {bytes : Bytes}

theorem stable_content {path : Text} (hpath : paths.Private path) :
    Stable paths fun v => v.files.content path = some bytes :=
  fun _ _ h hv => (h.files.content hpath).trans hv

-- A link never replaces, so it is safe whatever the two names are.
theorem runs_hardLink (hT : Agreed T paths) {source dest : Text} (hsource : paths.Private source) :
    Runs Prod.mk T (fun x => (Mounted.volume x.2).files.content source = some bytes)
      (hardLink source dest : Prog W InstallError LinkResult)
      (fun result x => (Mounted.volume x.2).files.content source = some bytes ∧
        (result = .Linked → Shown dest bytes x.1)) fun _ => True := by
  apply runs_onVolume hT (stable_content hsource) (H := fun _ => True)
  · intro pick past w result v hw hrun
    dsimp only at hrun ⊢
    rw [Mounted.volume_mount]
    split at hrun
    · split at hrun
      · rename_i files hlink
        cases hrun
        refine ⟨fun path _ => Files.preserves_link hlink, ?_, fun _ => shown_last ?_ past w⟩
        · exact (Files.preserves_link hlink).content hw
        · obtain ⟨i, hnode, hdata⟩ := Files.content_some hw
          obtain ⟨j, hsrc, -, hsame, -, hnew⟩ := Files.link_ok hlink
          rw [hnode] at hsrc
          cases hsrc
          rw [Mounted.volume_mount, Files.content_file (by rw [hnew, if_pos rfl]), hsame, hdata]
      · cases hrun
      · cases hrun
    · cases hrun
      exact ⟨Touches.refl _ _, hw, fun h => by cases h⟩
  · exact fun _ _ => trivial
  · exact fun part v _ => ⟨Touches.refl _ _, trivial⟩

-- The staged file is open and the slot's new file has no other name.
structure Copying (paths : Paths) (bytes : Bytes) (source k : Nat) (v : Volume) : Prop where
  staged : v.files.node paths.staging.staged = some (.File source)
  bytes : v.files.data source = bytes
  slot : v.files.Sole paths.data k
  distinct : k ≠ source

theorem stable_copying {source k : Nat} : Stable paths (Copying paths bytes source k) :=
  fun _ _ h hv => {
    staged := (h.files.names _ (.inl (.inl rfl))).trans hv.staged
    bytes := (h.files.data _ (Files.node_bound hv.staged)).trans hv.bytes
    slot := h.files.sole (.inr rfl) hv.slot
    distinct := hv.distinct }

theorem runs_openStaged (hT : Agreed T paths) (fault : InstallError) :
    Runs Prod.mk T (fun x => (Mounted.volume x.2).files.content paths.staging.staged = some bytes)
      (openFile fault paths.staging.staged : Prog W InstallError Nat)
      (fun source x =>
        (Mounted.volume x.2).files.node paths.staging.staged = some (.File source) ∧
          (Mounted.volume x.2).files.data source = bytes) fun _ => True := by
  refine runs_look hT (stable_content (.inl (.inl rfl))) (B := fun source v =>
    v.files.node paths.staging.staged = some (.File source) ∧ v.files.data source = bytes)
    (H := fun _ => True) ?_ fun _ _ => trivial
  intro v source hv hopen
  obtain ⟨i, hnode, hdata⟩ := Files.content_some hv
  rw [hnode] at hopen
  cases hopen
  exact ⟨hnode, hdata⟩

theorem runs_createNew (hT : Agreed T paths) (hne : paths.staging.staged ≠ paths.data)
    (source : Nat) :
    Runs Prod.mk T (fun x =>
        (Mounted.volume x.2).files.node paths.staging.staged = some (.File source) ∧
          (Mounted.volume x.2).files.data source = bytes)
      (createNew paths.data : Prog W InstallError Nat)
      (fun k x => Copying paths bytes source k (Mounted.volume x.2)) fun _ => True := by
  have hstable : Stable paths fun v =>
      v.files.node paths.staging.staged = some (.File source) ∧ v.files.data source = bytes :=
    fun v _ h hv => ⟨(h.files.names _ (.inl (.inl rfl))).trans hv.1,
      (h.files.data _ (Files.node_bound hv.1)).trans hv.2⟩
  apply runs_onVolume hT hstable (H := fun _ => True)
  · rintro pick past w k v ⟨hstaged, hbytes⟩ hrun
    dsimp only at hrun ⊢
    rw [Mounted.volume_mount]
    split at hrun
    · rename_i j files hcreate
      cases hrun
      obtain ⟨rfl, hfree, hdata, -, hnode⟩ := Files.create_ok hcreate
      have hbound := Files.node_bound hstaged
      refine ⟨fun path _ => Files.preserves_create hcreate, ?_⟩
      exact {
        staged := by rw [hnode, if_neg hne, hstaged]
        bytes := by rw [hdata, Function.update_of_ne (by omega), hbytes]
        slot := by
          refine ⟨by rw [hnode, if_pos rfl], fun m hm => ?_⟩
          by_contra hm'
          rw [hnode, if_neg hm'] at hm
          exact absurd (Files.node_bound hm) (Nat.lt_irrefl _)
        distinct := by omega }
    · cases hrun
  · exact fun _ _ => trivial
  · exact fun part v _ => ⟨Touches.refl _ _, trivial⟩

theorem runs_copyChunks (hT : Agreed T paths) (source k : Nat) :
    Runs Prod.mk T (fun x => Copying paths bytes source k (Mounted.volume x.2))
      (copyChunks paths source k : Prog W InstallError Unit)
      (fun _ x => (Mounted.volume x.2).files.content paths.data = some bytes) fun _ => True := by
  have htouch : ∀ (v : Volume) new, Copying paths bytes source k v →
      Touches paths v { v with files := v.files.store k new } :=
    fun v new hv path hpath => hv.slot.preserves_store (fun h => hpath (.inr h)) new
  apply runs_onVolume hT stable_copying (H := fun _ => True)
  · intro pick past w a v hw hrun
    cases hrun
    refine ⟨htouch _ _ hw, ?_⟩
    have hslot : ((Mounted.volume w).files.store k ((Mounted.volume w).files.data source)).node
        paths.data = some (.File k) := hw.slot.1
    dsimp only
    rw [Mounted.volume_mount]
    dsimp only
    rw [Files.content_file hslot, Files.data_store, hw.bytes]
  · exact fun _ _ => trivial
  · exact fun part v hv => ⟨htouch v _ hv, trivial⟩

theorem runs_copyAcrossDevices (hT : Agreed T paths) (hne : paths.staging.staged ≠ paths.data) :
    Runs Prod.mk T (fun x => (Mounted.volume x.2).files.content paths.staging.staged = some bytes)
      (copyAcrossDevices paths : Prog W InstallError Unit)
      (fun _ x => Shown paths.dest bytes x.1) fun _ => True := by
  have hstaged : Stable paths fun v => v.files.content paths.staging.staged = some bytes :=
    stable_content (.inl (.inl rfl))
  have hdata : Stable paths fun v => v.files.content paths.data = some bytes :=
    stable_content (.inr rfl)
  refine Runs.bind (runs_step hT hstaged _) fun _ => ?_
  refine (runs_clearData hT hstaged fun v files hv hdrop =>
    (Files.preserves_unlink hne hdrop).content hv).bind fun _ => ?_
  refine Runs.bind (runs_step hT hstaged _) fun _ => ?_
  refine Runs.bind (runs_openStaged hT _) fun source => ?_
  refine Runs.bind (runs_createNew hT hne source) fun k => ?_
  refine Runs.bind (runs_copyChunks hT source k) fun _ => ?_
  refine Runs.bind (runs_step hT hdata _) fun _ => ?_
  refine Runs.bind (runs_step hT hdata _) fun _ => ?_
  refine Runs.bind (runs_hardLink hT (.inr rfl)) ?_
  rintro (_ | _)
  · have hclear : Safe T (do
        clearData paths
        step (.Io (parentOf paths.dest)) : Prog W InstallError Unit) :=
      Safe.bind (safe_clearData hT) fun _ => safe_step hT _
    exact (runs_shown hclear paths.dest bytes).mono (fun x hx => hx.2 rfl) (fun _ _ hx => hx)
      fun _ hx => hx
  · exact runs_throw fun _ _ => trivial

theorem runs_copyIntoPlaceChecked (hT : Agreed T paths) (hne : paths.staging.staged ≠ paths.data) :
    Runs Prod.mk T (fun x => (Mounted.volume x.2).files.content paths.staging.staged = some bytes)
      (copyIntoPlaceChecked paths : Prog W InstallError Unit)
      (fun _ x => Shown paths.dest bytes x.1) fun _ => True := by
  refine (runs_step hT (stable_content (.inl (.inl rfl))) _).bind fun _ => ?_
  refine Runs.bind (runs_hardLink hT (.inl (.inl rfl))) ?_
  rintro (_ | _)
  · exact (runs_shown (safe_step hT _) paths.dest bytes).mono (fun x hx => hx.2 rfl)
      (fun _ _ hx => hx) fun _ hx => hx
  · exact (runs_copyAcrossDevices hT hne).mono (fun x hx => hx.1) (fun _ _ hx => hx) fun _ hx => hx

theorem runs_moveIntoPlaceChecked (hT : Agreed T paths) (hne : paths.staging.staged ≠ paths.data) :
    Runs Prod.mk T (fun x => (Mounted.volume x.2).files.content paths.staging.staged = some bytes)
      (moveIntoPlaceChecked paths : Prog W InstallError Unit)
      (fun _ x => Shown paths.dest bytes x.1) fun _ => True :=
  Runs.bind (runs_copyIntoPlaceChecked hT hne) fun _ => runs_shown
    (Safe.bind (safe_remove hT (.inl (.inl rfl))) fun _ => safe_step hT _) paths.dest bytes

end Placement

variable {b3 : Bytes → Blake3Hex}

-- Bytes with the expected digest have been at the path.
def Had (b3 : Bytes → Blake3Hex) (path : Text) (expected : Blake3Hex) (past : List (W × W)) :
    Prop :=
  ∃ bytes, b3 bytes = expected ∧ Shown path bytes past

theorem Had.append {path : Text} {expected : Blake3Hex} {past : List (W × W)}
    (h : Had b3 path expected past) (calls : List (W × W)) :
    Had b3 path expected (past ++ calls) := by
  obtain ⟨bytes, hdigest, hshown⟩ := h
  exact ⟨bytes, hdigest, hshown.append calls⟩

theorem runs_had {ε α : Type} {m : Prog W ε α} (h : Safe T m) (b3 : Bytes → Blake3Hex)
    (path : Text) (expected : Blake3Hex) :
    Runs Prod.mk T (fun x => Had b3 path expected x.1) m (fun _ x => Had b3 path expected x.1)
      fun _ => True :=
  h.keeps fun _ calls hpast => hpast.append calls

-- What the two ways to install have in common: the staged file is opened and read,
-- and its bytes stay what they were.
theorem runs_openSource (hT : Agreed T paths) (fault : InstallError) :
    Runs Prod.mk T (fun _ => True) (openFile fault paths.staging.staged : Prog W InstallError Nat)
      (fun i x => (Mounted.volume x.2).files.node paths.staging.staged = some (.File i))
      fun _ => True := by
  have htrue : Stable paths fun _ => True := fun _ _ _ h => h
  refine runs_look hT htrue (H := fun _ => True)
    (B := fun i v => v.files.node paths.staging.staged = some (.File i)) ?_ fun _ _ => trivial
  intro v i _ hopen
  split at hopen
  · rename_i j hj
    cases hopen
    exact hj
  · cases hopen

theorem stable_source {i : Nat} :
    Stable paths fun v => v.files.node paths.staging.staged = some (.File i) :=
  fun _ _ h hv => (h.files.names _ (.inl (.inl rfl))).trans hv

theorem runs_readSource (hT : Agreed T paths) (fault : InstallError) (i : Nat) :
    Runs Prod.mk T
      (fun x => (Mounted.volume x.2).files.node paths.staging.staged = some (.File i))
      (readAll fault i : Prog W InstallError Bytes)
      (fun bytes x => (Mounted.volume x.2).files.content paths.staging.staged = some bytes)
      fun _ => True := by
  refine runs_look hT stable_source (H := fun _ => True)
    (B := fun bytes v => v.files.content paths.staging.staged = some bytes) ?_ fun _ _ => trivial
  intro v bytes hv hread
  cases hread
  exact Files.content_file hv

theorem runs_installChecked (hT : Agreed T paths) (hne : paths.staging.staged ≠ paths.data)
    (expected : Blake3Hex) :
    Runs Prod.mk T (fun _ => True) (installChecked b3 paths expected : Prog W InstallError Unit)
      (fun _ x => Had b3 paths.dest expected x.1) fun _ => True := by
  have htrue : Stable paths fun _ => True := fun _ _ _ h => h
  unfold installChecked
  refine Runs.bind (runs_step hT htrue _) fun _ => ?_
  refine Runs.bind (runs_glance hT htrue _ _) ?_
  rintro (_ | _)
  · refine Runs.bind (runs_openSource hT _) fun i => ?_
    refine Runs.bind (runs_glance hT stable_source _ _) fun count => ?_
    apply runs_guard fun _ _ => trivial
    intro _
    refine Runs.bind (runs_readSource hT _ i) fun bytes => ?_
    apply runs_guard fun _ _ => trivial
    intro hdigest
    have hstaged : Stable paths fun v => v.files.content paths.staging.staged = some bytes :=
      stable_content (.inl (.inl rfl))
    refine Runs.bind (runs_step hT hstaged _) fun _ => ?_
    refine Runs.bind (runs_step hT hstaged _) fun _ => ?_
    refine Runs.bind (runs_step hT hstaged _) fun _ => ?_
    exact (runs_moveIntoPlaceChecked hT hne).mono (fun _ hx => hx)
      (fun _ _ hx => ⟨bytes, not_not.mp hdigest, hx⟩) fun _ hx => hx
  · exact runs_throw fun _ _ => trivial

theorem safe_install (hT : Agreed T paths) (hne : paths.staging.staged ≠ paths.data) :
    Safe T (install b3 paths : Prog W InstallError Blake3Hex) := by
  have htrue : Stable paths fun _ => True := fun _ _ _ h => h
  unfold install
  apply Runs.safe (A := fun _ _ => True) (H := fun _ => True)
  refine Runs.bind (runs_glance hT htrue _ _) ?_
  rintro (_ | _)
  · refine Runs.bind (runs_openSource hT _) fun i => ?_
    refine Runs.bind (runs_glance hT stable_source _ _) fun count => ?_
    apply runs_guard fun _ _ => trivial
    intro _
    refine Runs.bind (runs_readSource hT _ i) fun bytes => ?_
    have hstaged : Stable paths fun v => v.files.content paths.staging.staged = some bytes :=
      stable_content (.inl (.inl rfl))
    refine Runs.bind (runs_step hT hstaged _) fun _ => ?_
    refine Runs.bind (runs_step hT hstaged _) fun _ => ?_
    exact Runs.bind (runs_moveIntoPlaceChecked hT hne) fun _ => runs_pure fun _ _ => trivial
  · exact runs_throw fun _ _ => trivial

-- The file at the destination is read through one open file, so its bytes are those
-- that stood there when it was opened.
theorem runs_openDest (hT : Agreed T paths) (fault : PullError) :
    Runs Prod.mk T (fun _ => True) (openFile fault paths.dest : Prog W PullError Nat)
      (fun i x => ∃ bytes, Shown paths.dest bytes x.1 ∧
        (i < (Mounted.volume x.2).files.next ∧ (Mounted.volume x.2).files.data i = bytes))
      fun _ => True := by
  apply runs_onVolume hT (P := fun _ => True) (H := fun _ => True) fun _ _ _ h => h
  · intro pick past w i v _ hrun
    dsimp only at hrun ⊢
    split at hrun
    · rename_i j hj
      cases hrun
      refine ⟨Touches.refl _ _, (Mounted.volume w).files.data i, shown_last ?_ past w, ?_⟩
      · rw [Mounted.volume_mount]
        exact Files.content_file hj
      · rw [Mounted.volume_mount]
        exact ⟨Files.node_bound hj, rfl⟩
    · cases hrun
  · exact fun _ h => h
  · exact fun part v _ => ⟨Touches.refl _ _, trivial⟩

theorem runs_installedMatches (hT : Agreed T paths) (fileLen : Nat) (expected : Blake3Hex) :
    Runs Prod.mk T (fun _ => True)
      (installedMatches b3 paths fileLen expected : Prog W PullError Bool)
      (fun found x => found = true → Had b3 paths.dest expected x.1) fun _ => True := by
  refine (safe_look hT _ _).runs Prod.mk (fun _ => True) |>.bind ?_
  rintro (_ | ⟨_ | _, len⟩)
  · exact runs_pure fun _ _ h => by cases h
  · apply runs_guard fun _ _ => trivial
    intro _
    refine Runs.bind (runs_openDest hT _) fun i => runs_exists fun bytes => ?_
    have hopened : Stable paths fun v => i < v.files.next ∧ v.files.data i = bytes :=
      fun v _ h hv => ⟨Nat.lt_of_lt_of_le hv.1 h.files.next, (h.files.data i hv.1).trans hv.2⟩
    refine Runs.bind (A := fun read x => Shown paths.dest bytes x.1 ∧ read = bytes)
      (((runs_look hT hopened (B := fun read _ => read = bytes) (H := fun _ => True) ?_
        fun _ _ => trivial).frame (K := Shown paths.dest bytes) fun _ calls h => h.append calls).mono
        (fun _ hx => hx) (fun _ _ hx => hx) fun _ _ => trivial) fun read => ?_
    · intro v read hv hread
      cases hread
      exact hv.2
    refine Runs.of_pre (fun x hx => hx.2) ?_
    rintro rfl
    apply runs_guard fun _ _ => trivial
    intro _
    apply runs_guard fun _ _ => trivial
    intro hdigest
    have hsteps : Safe T (do
        step (PullError.retryable (.install (.Io paths.dest)))
        step (PullError.retryable (.install (.Io paths.dest)))
        step (PullError.retryable (.install (.Io paths.dest)))
        pure true : Prog W PullError Bool) :=
      Safe.bind (safe_step hT _) fun _ => Safe.bind (safe_step hT _) fun _ =>
        Safe.bind (safe_step hT _) fun _ => safe_pure _
    exact (runs_shown hsteps paths.dest read).mono (fun _ hx => hx.1)
      (fun _ _ hx _ => ⟨read, not_not.mp hdigest, hx⟩) fun _ hx => hx
  · exact runs_throw fun _ _ => trivial

theorem safe_forgetSidecar (hT : Agreed T paths) (path : Text) :
    Safe T (forgetSidecar path : Prog W TransferError Unit) := by
  apply safe_onVolume hT
  · intro pick v a v' hrun
    cases hrun
    exact fun path _ => Files.Preserves.refl path v.files
  · exact fun part v => Touches.refl _ _

theorem safe_removeStaged (hT : Agreed T paths) :
    Safe T (removeStaged paths.staging.staged : Prog W TransferError Unit) := by
  apply safe_onVolume hT
  · intro pick v a v' hrun
    dsimp only at hrun
    split at hrun
    · rename_i files hfiles
      cases hrun
      exact touches_unlink (.inl (.inl rfl)) hfiles
    · cases hrun
      exact Touches.refl _ _
  · exact fun part v => Touches.refl _ _

section

variable [UnicodeTables] {pull : PullSpec}

theorem safe_cleanupVerifiedStaging (hT : Agreed T paths) :
    Safe T (cleanupVerifiedStaging paths pull : Prog W TransferError Unit) := by
  have hrest : Safe T (do
      removeStaged paths.staging.staged
      forgetSidecar paths.staging.sidecar
      step (.Io (parentOf paths.staging.staged)) : Prog W TransferError Unit) :=
    Safe.bind (safe_removeStaged hT) fun _ =>
      Safe.bind (safe_forgetSidecar hT _) fun _ => safe_step hT _
  have hload : ∀ next : Option Transfer.Sidecar → Prog W TransferError Unit, Safe T (next none) →
      (∀ proof, Safe T (next (some proof))) → Safe T (load paths.staging.sidecar >>= next) := by
    intro next hnone hsome
    refine (Transfer.safe_load hT.transfer _).bind ?_
    rintro (_ | proof)
    · exact hnone
    · exact hsome proof
  refine Safe.bind (safe_step hT _) fun _ => Safe.bind (safe_look hT _ _) ?_
  rintro (_ | ⟨_ | _, _⟩)
  · exact hload _ hrest fun _ => Safe.bind (safe_lift _) fun _ => safe_guard hrest
  · exact hload _ hrest fun _ => Safe.bind (safe_lift _) fun _ => safe_guard hrest
  · exact Safe.bind (safe_throw _) fun _ =>
      hload _ hrest fun _ => Safe.bind (safe_lift _) fun _ => safe_guard hrest

theorem safe_cleanupOwnedStaging (hT : Agreed T paths) :
    Safe T (cleanupOwnedStaging paths pull : Prog W PullError Unit) :=
  (safe_cleanupVerifiedStaging hT).mapError

omit [UnicodeTables] in
theorem safe_roomLeft (hT : Agreed T paths) : Safe T (roomLeft paths : Prog W PullError Bool) := by
  apply safe_onVolume hT
  · intro pick v a v' hrun
    cases hrun
    exact Touches.refl _ _
  · exact fun part v => Touches.refl _ _

omit [UnicodeTables] in
theorem safe_verifyStaged (hT : Agreed T paths) :
    Safe T (verifyStaged paths : Prog W InstallError Unit) := by
  refine Safe.bind (safe_look hT _ _) ?_
  rintro (_ | ⟨_ | _, _⟩)
  · exact safe_throw _
  · exact safe_pure _
  · exact safe_throw _

theorem runs_placeVerified (hT : Agreed T paths) (hne : paths.staging.staged ≠ paths.data)
    (expected : Blake3Hex) :
    Runs Prod.mk T (fun _ => True) (placeVerified b3 paths pull expected : Prog W PullError Unit)
      (fun _ x => Had b3 paths.dest expected x.1) fun _ => True := by
  have hcleanup : Safe T (do
      cleanupOwnedStaging paths pull
      (cleanupInstallTemporary paths).mapError fun e => .Retryable e.display :
        Prog W PullError Unit) :=
    Safe.bind (safe_cleanupOwnedStaging hT) fun _ => (safe_cleanupInstallTemporary hT).mapError
  have hdone := runs_had hcleanup b3 paths.dest expected
  refine Runs.bind (runs_installedMatches hT _ _) fun found => ?_
  apply runs_ite
  · intro hfound
    exact hdone.mono (fun _ hx => hx hfound) (fun _ _ hx => hx) fun _ hx => hx
  · intro _
    refine Runs.mono (P := fun _ => True) (H := fun _ => True) ?_ (fun _ _ => trivial)
      (fun _ _ hx => hx) fun _ hx => hx
    have hstart : Safe T ((cleanupInstallTemporary paths : Prog W InstallError Unit).mapError
        PullError.install) := (safe_cleanupInstallTemporary hT).mapError
    refine (hstart.runs Prod.mk fun _ => True).bind fun _ => ?_
    refine ((safe_step hT _).runs Prod.mk _).bind fun _ => ?_
    refine ((safe_roomLeft hT).runs Prod.mk _).bind fun room => ?_
    apply runs_guard fun _ _ => trivial
    intro _
    refine ((safe_verifyStaged hT).mapError.runs Prod.mk _).bind fun _ => ?_
    refine Runs.bind (A := fun result x => ∀ a, result = .ok a → Had b3 paths.dest expected x.1)
      (((runs_installChecked hT hne expected).mapError.mono (fun _ hx => hx)
        (fun _ _ hx _ _ => hx) fun _ _ => ⟨trivial, fun _ _ h => by cases h⟩).attempt) ?_
    rintro (e | ⟨⟩)
    · refine Runs.mono (P := fun _ => True) (H := fun _ => True) ?_ (fun _ _ => trivial)
        (fun _ _ hx => hx) fun _ hx => hx
      refine Runs.bind (runs_installedMatches hT _ _) fun found => ?_
      apply runs_ite
      · intro hfound
        exact hdone.mono (fun _ hx => hx hfound) (fun _ _ hx => hx) fun _ hx => hx
      · intro _
        exact (hstart.runs Prod.mk _).bind fun _ => runs_throw fun _ _ => trivial
    · exact (runs_had (safe_cleanupOwnedStaging hT) b3 paths.dest expected).mono
        (fun _ hx => hx () rfl) (fun _ _ hx => hx) fun _ hx => hx

end

end Mediaops.Install
