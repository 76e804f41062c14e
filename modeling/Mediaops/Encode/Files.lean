import Mediaops.Encode
import Mediaops.HomeLibrary.Publication
import Mediaops.Install.Preserve

namespace Mediaops.Encode

-- What an encoding does to the files of the library: the conversion is written beside
-- them, and takes the place of one of them.

open HomeLibrary
open TitleIndex (TitleIndexEntry)
open Transfer (Volume)
open Install (VerifiedConvertingHandle Holds standing exchanged)

variable [UnicodeTables] {b3 : Bytes → Blake3Hex} {root : Text} {known : Set Proof}

section Paths

-- A place under the library root that no file of the library has.
def Beside (root path : Text) : Prop := ∃ rel : Text, rel.head? = some '_' ∧ path = Path.join root rel

theorem Beside.ne {path converting : Text} (h : Beside root converting) (hspelled : Spelled path) :
    Path.join root path ≠ converting := by
  obtain ⟨rel, hhead, rfl⟩ := h
  obtain ⟨key, placement, hparsed, -⟩ := hspelled
  obtain ⟨hrel, hfirst, -⟩ := PathSchema.parsePlacement_shape hparsed
  intro hsame
  rw [Path.join_inj hrel (Path.isAbsolute_of_head hhead (by decide)) hsame] at hfirst
  exact hfirst hhead

theorem convertingPath_beside {titleId : TitleId} {filename path : Text}
    (h : convertingPath root titleId filename = .ok path) : Beside root path := by
  obtain ⟨staged, hstaged, h⟩ := Checks.bind_ok h
  cases h
  exact ⟨staged, (PathSchema.stagingPath_ok (Checks.mapError_ok hstaged)).1, rfl⟩

theorem fileName_spelled {path : Text} (h : Spelled path) :
    ∃ name, Path.fileName path = some name ∧ '.' ∈ name := by
  obtain ⟨key, placement, hparsed, hrendered⟩ := h
  obtain ⟨-, -, hdot⟩ := PathSchema.parsePlacement_shape hparsed
  obtain ⟨names, rfl, hne, hnames⟩ := PathSchema.renderPlacement_names hrendered
  obtain ⟨init, last, rfl⟩ := (List.eq_nil_or_concat' names).resolve_left hne
  have hname : Path.fileName (Text.joinWith '/' (init ++ [last])) = some last := by
    unfold Path.fileName
    rw [PathSchema.components_join hnames]
    simp
  exact ⟨last, hname, hdot last hname⟩

theorem ne_slot {path : Text} (h : Spelled path) (source dest : Text) :
    Path.join root path ≠ (Install.InstallTemporary.paths b3 source dest).data := by
  obtain ⟨name, hname, hdot⟩ := fileName_spelled h
  intro hsame
  have hjoined : Path.fileName (Path.join root path) = some name := Path.fileName_join h.relative hname
  rw [hsame, show Path.fileName (Install.InstallTemporary.paths b3 source dest).data = _ from
    Install.slotData_fileName source dest, Option.some_inj] at hjoined
  rw [← hjoined] at hdot
  exact absurd hdot (by decide)

end Paths

section Kept

variable {w w' : World}

omit [UnicodeTables] in
theorem there (h : HomeLibrary.Kept b3 root known w) {proof : Proof} (hknown : proof ∈ known) :
    ∃ bytes, w.disk.volume.files.content (Path.join root proof.path) = some bytes := by
  obtain ⟨current, hcurrent⟩ := (h.known proof).mpr hknown
  have hactual : ∃ digest, hashAt b3 root w proof.path = some digest := by
    rcases h.covered proof current hcurrent with hsame | ⟨next, -, hsame⟩
    · exact ⟨_, hsame⟩
    · exact ⟨_, hsame⟩
  obtain ⟨digest, hdigest⟩ := hactual
  obtain ⟨bytes, hbytes, -⟩ := Option.map_eq_some_iff.mp hdigest
  exact ⟨bytes, hbytes⟩

omit [UnicodeTables] in
theorem recorded_still (hstore : w'.store = w.store) (proof : Proof) :
    (handover b3 root w').recorded proof ⊆ (handover b3 root w).recorded proof := by
  show recorded w'.store proof ⊆ recorded w.store proof
  rw [hstore]

omit [UnicodeTables] in
theorem noted_still (hproofs : w'.proofs = w.proofs) (proof : Proof) :
    (handover b3 root w).noted proof ⊆ (handover b3 root w').noted proof := by
  intro entry hentry
  simp only [handover, World.note, World.entries, hproofs] at hentry ⊢
  exact hentry

omit [UnicodeTables] in
theorem known_of_recorded (h : HomeLibrary.Kept b3 root known w) (hstore : w'.store = w.store)
    {proof : Proof} {current : Blake3Hex} (hcurrent : current ∈ (handover b3 root w').recorded proof) :
    proof ∈ known :=
  (h.known proof).mp ⟨current, recorded_still (w := w) hstore proof hcurrent⟩

-- A file that is known has its bytes before, and so its digest afterwards.
omit [UnicodeTables] in
theorem hash_still (h : HomeLibrary.Kept b3 root known w) {proof : Proof} (hknown : proof ∈ known)
    (hfile : ∀ bytes, w.disk.volume.files.content (Path.join root proof.path) = some bytes →
      w'.disk.volume.files.content (Path.join root proof.path) = some bytes) :
    hashAt b3 root w' proof.path = hashAt b3 root w proof.path := by
  obtain ⟨bytes, hbytes⟩ := there h hknown
  unfold hashAt
  rw [hfile bytes hbytes, hbytes]

-- The files of the library stay as they are.
omit [UnicodeTables] in
theorem kept_still (h : HomeLibrary.Kept b3 root known w) (hstore : w'.store = w.store)
    (hproofs : w'.proofs = w.proofs)
    (hfiles : ∀ proof ∈ known, ∀ bytes,
      w.disk.volume.files.content (Path.join root proof.path) = some bytes →
        w'.disk.volume.files.content (Path.join root proof.path) = some bytes) :
    HomeLibrary.Kept b3 root known w' := by
  refine h.apart hstore (h.covered.idle (recorded_still hstore) ?_ (noted_still hproofs))
  intro proof current hcurrent
  have hknown := known_of_recorded h hstore hcurrent
  exact hash_still h hknown (hfiles proof hknown)

-- One file of the library is replaced, as its note says.
omit [UnicodeTables] in
theorem kept_exchanged {k : Proof} {converted : Blake3Hex} (h : HomeLibrary.Kept b3 root known w)
    (hstore : w'.store = w.store) (hproofs : w'.proofs = w.proofs)
    (hready : ∀ current ∈ recorded w.store k, (current, converted) ∈ (handover b3 root w).noted k)
    (hplaced : hashAt b3 root w' k.path = some converted)
    (hothers : ∀ proof ∈ known, proof ≠ k → ∀ bytes,
      w.disk.volume.files.content (Path.join root proof.path) = some bytes →
        w'.disk.volume.files.content (Path.join root proof.path) = some bytes) :
    HomeLibrary.Kept b3 root known w' := by
  refine h.apart hstore (h.covered.replace (recorded_still hstore) hready hplaced ?_ (noted_still hproofs))
  intro proof current hcurrent hne
  have hknown := known_of_recorded h hstore hcurrent
  exact hash_still h hknown (hothers proof hknown hne)

end Kept

section Transcode

-- The encoder writes its output and no other file.
def Tidy (host : Host) : Prop :=
  ∀ pick live converting v path, path ≠ converting →
    Files.Preserves path v.files (host.ffmpeg pick live converting v).2.files

-- What does not look at the disk.
def Blind (P : World → Prop) : Prop := ∀ w disk, P w → P { w with disk }

variable {P : World → Prop} {α ε : Type}

omit [UnicodeTables] in
theorem secure_hashOf {path : Text} (hstable : Stable root P) :
    Secure b3 root known P (hashOf b3 path) fun digest w =>
      P w ∧ (w.disk.volume.files.content path).map b3 = some digest :=
  Runs.mapError (secure_hashFile hstable)

-- A call that writes one file beside the library.
theorem secure_beside (premise : Premise root known) {converting : Text} (hbeside : Beside root converting)
    (hstable : Stable root P) (hblind : Blind P) {c : Call Volume ε α}
    (hrun : ∀ pick v a v', c.run pick v = .ok (a, v') →
      ∀ path, path ≠ converting → Files.Preserves path v.files v'.files)
    (hpart : ∀ part v path, path ≠ converting → Files.Preserves path v.files (c.partly part v).files) :
    Secure b3 root known P (Transfer.onVolume c) fun _ => P := by
  have hkeep : ∀ (w : World) (v : Volume), (∀ path, path ≠ converting →
      Files.Preserves path w.disk.volume.files v.files) → HomeLibrary.Kept b3 root known w → P w →
      HomeLibrary.Kept b3 root known { w with disk := { w.disk with volume := v } } ∧
        P { w with disk := { w.disk with volume := v } } := by
    intro w v hfiles hkept hw
    refine ⟨kept_still hkept rfl rfl fun proof hknown bytes hbytes => ?_, hblind w _ hw⟩
    exact (hfiles _ (hbeside.ne (premise.spelled proof hknown))).content hbytes
  apply secure_perform hstable
  · intro w pick a w' hkept hw hok
    obtain ⟨⟨a', v⟩, hv, heq⟩ := Checks.map_ok hok
    cases heq
    exact hkeep w v (hrun pick _ _ _ hv) hkept hw
  · intro w part hkept hw
    exact (hkeep w _ (hpart part _) hkept hw).1

theorem secure_transcode (premise : Premise root known) {host : Host} (htidy : Tidy host)
    {live converting : Text} (hbeside : Beside root converting) (hstable : Stable root P) (hblind : Blind P) :
    Secure b3 root known P (transcode host live converting) fun _ => P := by
  apply secure_beside premise hbeside hstable hblind
  · intro pick v a v' hok path hpath
    have hwritten : host.ffmpeg pick live converting v = (a, v') := Except.ok.inj hok
    have hkept := htidy pick live converting v path hpath
    rw [hwritten] at hkept
    exact hkept
  · exact fun part v path hpath => htidy part live converting v path hpath

theorem secure_removeFile (premise : Premise root known) {converting : Text}
    (hbeside : Beside root converting) (hstable : Stable root P) (hblind : Blind P) :
    Secure b3 root known P (removeFile converting) fun _ => P := by
  apply Runs.mapError
  apply secure_beside premise hbeside hstable hblind
  · intro pick v a v' hok path hpath
    dsimp only at hok
    split at hok
    · next files hfiles =>
      cases hok
      exact Files.preserves_unlink hpath hfiles
    · cases hok
  · exact fun _ v path _ => .refl path v.files

theorem secure_encodeToConverting (premise : Premise root known) {host : Host} (htidy : Tidy host)
    (titleId : TitleId) (placement : Placement) (hstable : Stable root P) (hblind : Blind P) :
    Secure b3 root known P (encodeToConverting host root titleId placement) fun converting w =>
      P w ∧ Beside root converting := by
  unfold encodeToConverting
  refine Runs.bind (A := fun _ w => HomeLibrary.Kept b3 root known w ∧ P w) (secure_lift fun _ _ _ hw => hw)
    fun found => ?_
  obtain ⟨destRel, filename⟩ := found
  dsimp only
  refine Runs.bind (A := fun converting w => HomeLibrary.Kept b3 root known w ∧ P w ∧
    Beside root converting) ?_
    fun converting => ?_
  · exact secure_lift fun converting hconverting w hw => ⟨hw, convertingPath_beside hconverting⟩
  apply Runs.of_pre fun _ hw => hw.2.2
  intro hbeside
  refine Runs.bind (A := fun _ w => HomeLibrary.Kept b3 root known w ∧ P w) ?_ fun _ => ?_
  · exact (secure_step _ hstable).mono (fun _ hw => hw.1) fun _ _ hw => hw
  refine Runs.bind (secure_transcode premise htidy hbeside hstable hblind) fun status => ?_
  apply runs_ite
  · intro _
    refine Runs.bind (A := fun _ w => HomeLibrary.Kept b3 root known w) ?_ fun _ => ?_
    · apply Runs.attempt
      exact Runs.mono (secure_removeFile premise hbeside hstable hblind) (fun _ hw => hw)
        (fun _ _ hw => hw.1) fun _ hw => ⟨hw, fun _ => hw⟩
    · exact (runs_throw fun _ hw => hw).bind (A := fun _ _ => False) fun _ _ _ h => h.elim
  · exact fun _ => secure_pure fun w hw => ⟨hw, hbeside⟩

end Transcode

section Replace

variable {P : World → Prop}

theorem secure_verify {titleId : TitleId} {source : Text} {placement : Placement} (hstable : Stable root P) :
    Secure b3 root known P
      (VerifiedConvertingHandle.verify titleId source placement : Prog World InstallError _)
      fun handle w => P w ∧ handle.source = source ∧
        PathSchema.render titleId placement = .ok handle.destRel := by
  unfold VerifiedConvertingHandle.verify
  split
  · exact secure_throw
  split
  · exact secure_throw
  next destRel hrender =>
  split
  · exact secure_throw
  split
  · exact secure_throw
  split
  · refine Runs.bind (A := fun _ w => HomeLibrary.Kept b3 root known w ∧ P w) ?_ fun _ => ?_
    · unfold Install.rejectSymlinkFile
      refine Runs.bind (A := fun _ w => HomeLibrary.Kept b3 root known w ∧ P w) ?_ fun found => ?_
      · exact secure_look hstable fun _ _ hw _ => hw
      · split
        · exact secure_throw
        · exact secure_throw
        · exact secure_pure fun _ hw => hw
    · exact secure_pure fun w hw => ⟨hw, rfl, hrender⟩
  · exact secure_throw

theorem render_spelled {titleId : TitleId} {placement : Placement} {destRel path : Text}
    (h : PathSchema.render titleId placement = .ok destRel)
    (hrendered : PathSchema.renderPlacement placement = .ok path) : destRel = path := by
  unfold PathSchema.render at h
  split at h
  · cases h
  · rw [hrendered] at h
    cases h
    rfl

-- The conversion of the row's file, hashed and noted.
structure Converted (b3 : Bytes → Blake3Hex) (root : Text) (row : TitleIndexEntry) (converting : Text)
    (converted : Blake3Hex) (w : World) : Prop where
  conversion : (w.disk.volume.files.content converting).map b3 = some converted
  noted : ∀ current ∈ recorded w.store (Proof.of row),
    (current, converted) ∈ (handover b3 root w).noted (Proof.of row)

-- Wherever the replacement ends, the row's file is the old one or the noted one, and the
-- other files of the library are as they were.
theorem kept_replace (premise : Premise root known) {row : TitleIndexEntry} (hrow : Listed known row)
    {titleId : TitleId} {handle : VerifiedConvertingHandle} (hdest : handle.destRel = row.path)
    (hbeside : Beside root handle.source) {converted : Blake3Hex} {w : World}
    (hkept : HomeLibrary.Kept b3 root known w)
    (hconverted : Converted b3 root row handle.source converted w) {backup : Text}
    {moves : Nat → Move Install.Disk} (hmoves : Undisturbed moves) :
    let ran := Install.replace b3 root titleId handle backup moves 0 w.disk
    HomeLibrary.Kept b3 root known { w with disk := ran.world } ∧
      ∀ path, ran.outcome = .Done path → path = Path.join root row.path := by
  intro ran
  obtain ⟨live, hlive⟩ := there hkept hrow.1
  obtain ⟨conversion, hconversion, hdigest⟩ := Option.map_eq_some_iff.mp hconverted.conversion
  have hlive' : w.disk.volume.files.content (Path.join root handle.destRel) = some live := by
    rw [hdest]
    exact hlive
  have hsafe : ∀ others : List (Text × Bytes), (∀ entry ∈ others, ∃ proof ∈ known, proof ≠ Proof.of row ∧
      entry.1 = Path.join root proof.path ∧ w.disk.volume.files.content entry.1 = some entry.2) →
      Install.Safe handle.source (Path.join root handle.destRel) backup live conversion others ran.world ∧
        ∀ path, ran.outcome = .Done path → path = Path.join root handle.destRel ∧
          Holds (exchanged (Path.join root handle.destRel) backup live conversion others) ran.world := by
    intro others hothers
    refine Install.replace_safe others hmoves (fun entry hentry => ?_) (fun entry hentry => ?_)
      fun entry hentry => ?_
    · obtain ⟨proof, hknown, hne, hpath, -⟩ := hothers entry hentry
      have hspelled := premise.spelled proof hknown
      rw [hpath, hdest]
      refine ⟨fun hsame => hne ?_, hbeside.ne hspelled⟩
      exact premise.once _ hknown _ hrow.1 (Path.join_inj hspelled.relative hrow.2.relative hsame)
    · obtain ⟨proof, hknown, -, hpath, -⟩ := hothers entry hentry
      rw [hpath]
      exact ne_slot (premise.spelled proof hknown) _ _
    · rcases List.mem_cons.mp hentry with rfl | hentry
      · exact hlive'
      · rcases List.mem_cons.mp hentry with rfl | hentry
        · exact hconversion
        · obtain ⟨proof, -, -, -, hcontent⟩ := hothers entry hentry
          exact hcontent
  have hfar : ∀ proof ∈ known, proof ≠ Proof.of row → ∀ bytes,
      w.disk.volume.files.content (Path.join root proof.path) = some bytes →
        ran.world.volume.files.content (Path.join root proof.path) = some bytes := by
    intro proof hknown hne bytes hbytes
    have hboth := (hsafe [(Path.join root proof.path, bytes)] fun entry hentry => by
      obtain rfl := List.mem_singleton.mp hentry
      exact ⟨proof, hknown, hne, rfl, hbytes⟩).1
    rcases hboth with hstanding | hexchanged
    · exact hstanding (Path.join root proof.path, bytes) (by simp [standing])
    · exact hexchanged (Path.join root proof.path, bytes) (by simp [exchanged])
  obtain ⟨hboth, hplaced⟩ := hsafe [] fun entry hentry => absurd hentry List.not_mem_nil
  rw [hdest] at hboth hplaced
  refine ⟨?_, fun path hdone => (hplaced path hdone).1⟩
  rcases hboth with hstanding | hexchanged
  · refine kept_still hkept rfl rfl fun proof hknown bytes hbytes => ?_
    by_cases hsame : proof = Proof.of row
    · subst hsame
      cases hlive.symm.trans hbytes
      exact hstanding (Path.join root row.path, live) (by simp [standing])
    · exact hfar proof hknown hsame bytes hbytes
  · have hthere : ran.world.volume.files.content (Path.join root row.path) = some conversion :=
      hexchanged (Path.join root row.path, conversion) (by simp [exchanged])
    refine kept_exchanged hkept rfl rfl hconverted.noted ?_ hfar
    show (ran.world.volume.files.content (Path.join root row.path)).map b3 = some converted
    rw [hthere]
    exact congrArg some hdigest

theorem secure_replace (premise : Premise root known) {row : TitleIndexEntry} (hrow : Listed known row)
    {titleId : TitleId} {handle : VerifiedConvertingHandle} (hdest : handle.destRel = row.path)
    (hbeside : Beside root handle.source) {converted : Blake3Hex} (hblind : Blind P) (backup : Text) :
    Secure b3 root known (fun w => P w ∧ Converted b3 root row handle.source converted w)
      (onDisk (Install.replace b3 root titleId handle backup)) fun path w =>
        P w ∧ path = Path.join root row.path := by
  apply Runs.mapError
  apply runs_zoom
  · exact fun _ _ _ => trivial
  · rintro w ⟨hkept, hw, hconverted⟩ moves hmoves
    obtain ⟨hafter, hpath⟩ := kept_replace premise hrow hdest hbeside hkept hconverted hmoves
    exact ⟨fun path hdone => ⟨hafter, hblind w _ hw, hpath path hdone⟩, fun _ => hafter⟩

end Replace

end Mediaops.Encode
