import Mediaops.Install.Atomic

namespace Mediaops.Install

-- What a replacement keeps of the bytes it is about, wherever it ends: with a result, with
-- an error, or stopped at any call.

open Transfer (Volume Mounted onVolume look step change stat openFile)
open InstallTemporary

-- Nobody else changes the disk.
def unshared : Terms Disk where
  allowed move := ∀ disk, move.outside disk = disk
  guar _ _ _ := True

abbrev Calm {ε α : Type} (P : Disk → Prop) (m : Prog Disk ε α) (A : α → Disk → Prop) (H : Disk → Prop) :
    Prop :=
  Runs (fun _ disk => disk) unshared P m A H

def Disk.withVolume (disk : Disk) (volume : Volume) : Disk := { disk with volume }

-- What is at these paths.
def Holds (spec : List (Text × Bytes)) (disk : Disk) : Prop :=
  ∀ entry ∈ spec, disk.volume.files.content entry.1 = some entry.2

section Rules

variable {ε α : Type} {P H : Disk → Prop} {A : α → Disk → Prop}

theorem calm_perform {c : Call Disk ε α}
    (hrun : ∀ disk pick a after, P disk → c.run pick disk = .ok (a, after) → A a after)
    (hhalt : ∀ disk, P disk → H disk) (hpart : ∀ disk part, P disk → H (c.partly part disk)) :
    Calm P (Prog.perform c) A H := by
  intro past disk hdisk
  apply wp_perform
  rintro move hmove _ o after rfl hanswer
  rw [hmove disk] at hanswer
  refine ⟨trivial, ?_⟩
  unfold Call.answer at hanswer
  split at hanswer
  · split at hanswer
    · next hok =>
      cases hanswer
      exact hrun disk _ _ _ hdisk hok
    · cases hanswer
      exact hhalt disk hdisk
  · cases hanswer
    exact hpart disk _ hdisk
  · cases hanswer
    exact hpart disk _ hdisk

theorem calm_onVolume {c : Call Volume ε α}
    (hrun : ∀ disk pick a v, P disk → c.run pick disk.volume = .ok (a, v) → A a (disk.withVolume v))
    (hhalt : ∀ disk, P disk → H disk)
    (hpart : ∀ disk part, P disk → H (disk.withVolume (c.partly part disk.volume))) :
    Calm P (onVolume c) A H := by
  apply calm_perform _ hhalt hpart
  intro disk pick a after hdisk hok
  obtain ⟨⟨a', v⟩, hv, heq⟩ := Checks.map_ok hok
  cases heq
  exact hrun disk pick _ v hdisk hv

theorem calm_look {fault : ε} {f : Volume → Except ε α}
    (hok : ∀ disk a, P disk → f disk.volume = .ok a → A a disk) (hhalt : ∀ disk, P disk → H disk) :
    Calm P (look fault f) A H := by
  apply calm_onVolume
  · intro disk pick a v hdisk hv
    obtain ⟨a', ha, heq⟩ := Checks.map_ok hv
    cases heq
    exact hok disk _ hdisk ha
  · exact hhalt
  · exact fun disk _ hdisk => hhalt disk hdisk

theorem calm_step (fault : ε) (hhalt : ∀ disk, P disk → H disk) :
    Calm P (step fault) (fun _ => P) H :=
  calm_look (fun _ _ hdisk _ => hdisk) hhalt

theorem calm_at {m : Prog Disk ε α} (h : Calm P m A H) (turn : Nat) : Calm P (m.fromTurn turn) A H :=
  fun past disk hdisk => wp_fromTurn (h past disk hdisk)

theorem calm_stat {fault : ε} (path : Text) (hhalt : ∀ disk, P disk → H disk) :
    Calm P (stat fault path) (fun _ => P) H :=
  calm_look (fun _ _ hdisk _ => hdisk) hhalt

end Rules

-- A part that leaves these files alone.
abbrev Keeps {ε α : Type} (spec : List (Text × Bytes)) (m : Prog Disk ε α) : Prop :=
  Calm (Holds spec) m (fun _ => Holds spec) (Holds spec)

section Calls

variable {ε α : Type} {spec : List (Text × Bytes)} {path : Text} {bytes : Bytes}

theorem Holds.preserved {disk after : Disk} (h : Holds spec disk)
    (hkept : ∀ entry ∈ spec, Files.Preserves entry.1 disk.volume.files after.volume.files) :
    Holds spec after :=
  fun entry hentry => (hkept entry hentry).content (h entry hentry)

theorem keeps_step (fault : ε) : Keeps spec (step fault : Prog Disk ε Unit) :=
  calm_step fault fun _ hdisk => hdisk

-- A slot is no file.
theorem keeps_onSlot (dir : Text) (c : Call SlotDir ε α) :
    Keeps spec (onSlot dir c) := by
  apply calm_perform
  · intro disk pick a after hdisk hok
    obtain ⟨⟨a', slot⟩, -, heq⟩ := Checks.map_ok hok
    cases heq
    exact hdisk
  · exact fun _ hdisk => hdisk
  · exact fun _ _ hdisk => hdisk

theorem calm_openFile (fault : ε) (path : Text) :
    Calm (Holds spec) (openFile fault path)
      (fun i disk => Holds spec disk ∧ disk.volume.files.node path = some (.File i)) (Holds spec) := by
  apply calm_look
  · intro disk i hdisk hok
    refine ⟨hdisk, ?_⟩
    split at hok
    · next hnode =>
      cases hok
      exact hnode
    · cases hok
  · exact fun _ hdisk => hdisk

theorem keeps_remove (hpath : ∀ entry ∈ spec, entry.1 ≠ path) :
    Keeps spec (remove path) := by
  apply calm_onVolume
  · intro disk pick a v hdisk hok
    dsimp only at hok
    split at hok
    · next files hfiles =>
      cases hok
      exact hdisk.preserved fun entry hentry => Files.preserves_unlink (hpath entry hentry) hfiles
    · cases hok
  · exact fun _ hdisk => hdisk
  · exact fun _ _ hdisk => hdisk

-- A link that goes through makes a name that was free.
theorem calm_hardLink {source dest : Text} (hsource : (source, bytes) ∈ spec) :
    Calm (Holds spec) (hardLink source dest)
      (fun result disk => match result with
        | .Linked => (∀ entry ∈ spec, entry.1 ≠ dest) ∧ Holds ((dest, bytes) :: spec) disk
        | .CrossesDevices => Holds spec disk) (Holds spec) := by
  apply calm_onVolume
  · intro disk pick a v hdisk hok
    dsimp only at hok
    split at hok
    · split at hok
      · next files hfiles =>
        cases hok
        obtain ⟨i, hnode, hfree, hdata, -, hnodes⟩ := Files.link_ok hfiles
        have hkept : Holds spec (disk.withVolume { disk.volume with files }) :=
          hdisk.preserved fun _ _ => Files.preserves_link hfiles
        refine ⟨fun entry hentry hsame => ?_, ?_⟩
        · obtain ⟨j, hj, -⟩ := Files.content_some (hdisk entry hentry)
          rw [hsame, hfree] at hj
          cases hj
        · intro entry hentry
          rcases List.mem_cons.mp hentry with rfl | hentry
          · have hlive := hdisk _ hsource
            rw [Files.content_file hnode] at hlive
            have hdest : files.node dest = some (.File i) := by rw [hnodes, if_pos rfl]
            show files.content dest = some bytes
            rw [Files.content_file hdest, hdata, hlive]
          · exact hkept entry hentry
      · cases hok
      · cases hok
    · cases hok
      exact hdisk
  · exact fun _ hdisk => hdisk
  · exact fun _ _ hdisk => hdisk

end Calls

section Copy

variable {spec : List (Text × Bytes)} {b3 : Bytes → Blake3Hex} {dest backup : Text} {live : Bytes}

theorem keeps_ownedLinks (paths : Paths) (k : Nat) :
    Keeps spec (ownedLinks paths k) := by
  unfold ownedLinks
  apply Runs.bind (A := fun _ => Holds spec)
  · exact calm_look (fun _ _ hdisk _ => hdisk) fun _ hdisk => hdisk
  · intro count
    apply runs_ite
    · intro _
      apply Runs.bind (A := fun _ => Holds spec)
      · apply Runs.attempt
        exact (calm_stat _ fun _ hdisk => hdisk).mono (fun _ hdisk => hdisk) (fun _ _ hdisk => hdisk)
          fun _ hdisk => ⟨hdisk, fun _ => hdisk⟩
      · intro found
        split
        · exact runs_pure fun _ hdisk => hdisk
        · exact runs_pure fun _ hdisk => hdisk
    · intro _
      exact runs_pure fun _ hdisk => hdisk

theorem keeps_clearData (paths : Paths) (hdata : ∀ entry ∈ spec, entry.1 ≠ paths.data) :
    Keeps spec (clearData paths) := by
  unfold clearData
  apply Runs.bind (calm_stat paths.data fun _ hdisk => hdisk)
  rintro (_ | ⟨node, len⟩)
  · exact runs_pure fun _ hdisk => hdisk
  cases node with
  | Other => exact runs_throw fun _ hdisk => hdisk
  | File k =>
      apply (keeps_ownedLinks paths k).bind
      intro owned
      apply runs_guard
      · exact fun _ hdisk => hdisk
      · intro _
        apply (keeps_remove hdata).bind
        intro _
        exact keeps_step _

-- The file under way, of a source that is open.
structure Filling (spec : List (Text × Bytes)) (data : Text) (bytes : Bytes) (i k : Nat) (disk : Disk) :
    Prop where
  holds : Holds spec disk
  source : disk.volume.files.data i = bytes
  target : disk.volume.files.node data = some (.File k)
  apart : ∀ entry ∈ spec, disk.volume.files.node entry.1 ≠ some (.File k)

theorem calm_createNew {data source : Text} {bytes : Bytes} {i : Nat} (hsource : (source, bytes) ∈ spec) :
    Calm (fun disk => Holds spec disk ∧ disk.volume.files.node source = some (.File i)) (createNew data)
      (fun k => Filling spec data bytes i k) (Holds spec) := by
  apply calm_onVolume
  · intro disk pick k v ⟨hdisk, hnode⟩ hok
    dsimp only at hok
    split at hok
    · next i' files hfiles =>
      cases hok
      obtain ⟨rfl, hfree, hdata, -, hnodes⟩ := Files.create_ok hfiles
      have hcontent := hdisk _ hsource
      rw [Files.content_file hnode] at hcontent
      refine ⟨hdisk.preserved fun _ _ => Files.preserves_create hfiles, ?_, ?_, fun entry hentry hsame => ?_⟩
      · have hne : i ≠ disk.volume.files.next := Nat.ne_of_lt (Files.node_bound hnode)
        show files.data i = bytes
        rw [hdata, Function.update_of_ne hne]
        exact Option.some.inj hcontent
      · show files.node data = _
        rw [hnodes, if_pos rfl]
      · obtain ⟨j, hj, -⟩ := Files.content_some (hdisk entry hentry)
        have hne : entry.1 ≠ data := by
          intro heq
          rw [heq, hfree] at hj
          cases hj
        change files.node entry.1 = _ at hsame
        rw [hnodes, if_neg hne] at hsame
        exact absurd (Files.node_bound hsame) (Nat.lt_irrefl _)
    · cases hok
  · exact fun _ hdisk => hdisk.1
  · exact fun _ _ hdisk => hdisk.1

theorem Filling.stored {data : Text} {bytes : Bytes} {i k : Nat} {disk : Disk}
    (h : Filling spec data bytes i k disk) (new : Bytes) : Holds spec
      (disk.withVolume { disk.volume with files := disk.volume.files.store k new }) :=
  h.holds.preserved fun entry hentry => Files.preserves_store (h.apart entry hentry) new

theorem calm_copyChunks (paths : Paths) {bytes : Bytes} {i k : Nat} :
    Calm (Filling spec paths.data bytes i k) (copyChunks paths i k)
      (fun _ => Holds ((paths.data, bytes) :: spec)) (Holds spec) := by
  apply calm_onVolume
  · intro disk pick a v hdisk hok
    cases hok
    intro entry hentry
    rcases List.mem_cons.mp hentry with rfl | hentry
    · show (disk.volume.files.store k (disk.volume.files.data i)).content paths.data = some bytes
      have hnode : (disk.volume.files.store k (disk.volume.files.data i)).node paths.data =
          some (.File k) := hdisk.target
      rw [Files.content_file hnode, Files.data_store, hdisk.source]
    · exact hdisk.stored _ entry hentry
  · exact fun _ hdisk => hdisk.holds
  · exact fun _ part hdisk => hdisk.stored _

theorem keeps_check (media : Bool) :
    Keeps spec (check media : Prog Disk InstallError Unit) := by
  unfold check
  cases media with
  | true => exact keeps_step _
  | false => exact runs_pure fun _ hdisk => hdisk

theorem keeps_openOwner (source dest : Text) (create created : Bool) :
    Keeps spec (openOwner b3 source dest create created) := by
  have hslot : ∀ {α : Type} (site : Site) (dir : Text) (c : Call SlotDir InstallError α),
      Keeps spec (site.run (onSlot dir c)) := fun site dir c => calm_at (keeps_onSlot dir c) _
  have hstep : ∀ (site : Site) (fault : InstallError), Keeps spec (site.run (step fault)) :=
    fun site fault => calm_at (keeps_step fault) _
  have hclaim : Keeps spec (claim b3 source dest created) := by
    unfold claim
    apply runs_ite
    · intro _
      refine (hslot .WriteMarker _ _).bind fun _ => ?_
      refine (hstep .SyncMarker _).bind fun _ => ?_
      refine (hstep .SyncDir _).bind fun _ => ?_
      exact hstep .SyncDirParent _
    · intro _
      refine (hslot .ReadMarker _ _).bind fun saved => ?_
      exact runs_ite (fun _ => runs_throw fun _ hdisk => hdisk) fun _ => runs_pure fun _ hdisk => hdisk
  unfold openOwner
  refine (hslot .OpenDir _ _).bind fun opened => ?_
  apply runs_ite
  · exact fun _ => runs_pure fun _ hdisk => hdisk
  · intro _
    refine (hslot .DirMetadata _ _).bind fun _ => ?_
    refine (hslot .OpenMarker _ _).bind fun _ => ?_
    refine (hslot .MarkerMetadata _ _).bind fun _ => ?_
    refine (hstep .Lock _).bind fun _ => ?_
    exact hclaim.bind fun _ => runs_pure fun _ hdisk => hdisk

theorem keeps_openSlot (source dest : Text) (create : Bool) :
    Keeps spec (openSlot b3 source dest create) := by
  unfold openSlot
  apply runs_ite
  · intro _
    exact (calm_at (keeps_onSlot _ _) _).bind fun created => keeps_openOwner source dest true created
  · exact fun _ => keeps_openOwner source dest false false

-- The copy in the slot has the bytes of the live file.
theorem calm_fillData (hlive : (dest, live) ∈ spec)
    (hdata : ∀ entry ∈ spec, entry.1 ≠ (paths b3 dest backup).data) :
    Calm (Holds spec) (fillData b3 dest backup false)
      (fun _ => Holds (((paths b3 dest backup).data, live) :: spec)) (Holds spec) := by
  have htail : ∀ disk, Holds (((paths b3 dest backup).data, live) :: spec) disk → Holds spec disk :=
    fun disk h entry hentry => h entry (List.mem_cons_of_mem _ hentry)
  unfold fillData
  refine (calm_at (keeps_clearData _ hdata) _).bind fun _ => ?_
  refine (calm_at (keeps_check false) _).bind fun _ => ?_
  refine (calm_at (calm_openFile _ dest) _).bind fun i => ?_
  refine (calm_at (calm_step _ fun _ hdisk => hdisk.1) _).bind fun _ => ?_
  refine (calm_at (calm_createNew hlive) _).bind fun k => ?_
  refine (calm_at (calm_copyChunks _) _).bind fun _ => ?_
  refine (calm_at (calm_step _ htail) _).bind fun _ => ?_
  exact (calm_at (keeps_check false) _).mono (fun _ hdisk => hdisk) (fun _ _ hdisk => hdisk) htail

theorem Holds.tail {entry : Text × Bytes} {disk : Disk} (h : Holds (entry :: spec) disk) : Holds spec disk :=
  fun other hother => h other (List.mem_cons_of_mem _ hother)

theorem calm_linkData (source : Text) :
    Calm (Holds (((paths b3 source backup).data, live) :: spec)) (linkData b3 source backup)
      (fun _ disk => (∀ entry ∈ spec, entry.1 ≠ backup) ∧ Holds ((backup, live) :: spec) disk)
      (Holds spec) := by
  unfold linkData
  apply Runs.bind
  · apply calm_at
    exact (calm_hardLink List.mem_cons_self).mono (fun _ hdisk => hdisk) (fun _ _ hdisk => hdisk)
      fun _ hdisk => hdisk.tail
  · intro result
    cases result with
    | CrossesDevices => exact runs_throw fun _ hdisk => Holds.tail hdisk
    | Linked =>
        apply runs_pure
        intro disk ⟨hfree, hdisk⟩
        refine ⟨fun entry hentry => hfree entry (List.mem_cons_of_mem _ hentry), fun entry hentry => ?_⟩
        rcases List.mem_cons.mp hentry with rfl | hentry
        · exact hdisk _ List.mem_cons_self
        · exact hdisk.tail.tail entry hentry

-- Once it is there, the backup has the bytes of the live file.
theorem calm_copyIntoPlace (hlive : (dest, live) ∈ spec)
    (hdata : ∀ entry ∈ spec, entry.1 ≠ (paths b3 dest backup).data)
    (hbackup : backup ≠ (paths b3 dest backup).data) :
    Calm (Holds spec) (copyIntoPlace b3 dest backup)
      (fun _ disk => (∀ entry ∈ spec, entry.1 ≠ backup) ∧ Holds ((backup, live) :: spec) disk)
      (Holds spec) := by
  have hstep : ∀ (site : Site) (fault : InstallError), Calm
      (fun disk => (∀ entry ∈ spec, entry.1 ≠ backup) ∧ Holds ((backup, live) :: spec) disk)
      (site.run (step fault))
      (fun _ disk => (∀ entry ∈ spec, entry.1 ≠ backup) ∧ Holds ((backup, live) :: spec) disk)
      (Holds spec) :=
    fun site fault => calm_at (calm_step fault fun _ hdisk => hdisk.2.tail) _
  unfold copyIntoPlace
  refine (calm_at (calm_hardLink hlive) _).bind fun result => ?_
  cases result with
  | Linked => exact hstep .SyncParent _
  | CrossesDevices =>
      refine (keeps_openSlot dest backup true).bind fun _ => ?_
      refine (calm_fillData hlive hdata).bind fun _ => ?_
      refine (calm_linkData dest).bind fun _ => ?_
      refine Runs.bind (A := fun _ disk =>
        (∀ entry ∈ spec, entry.1 ≠ backup) ∧ Holds ((backup, live) :: spec) disk) ?_ fun _ =>
          hstep .SyncLinked _
      apply Runs.of_pre fun _ hdisk => hdisk.1
      intro hfree
      have hclear : ∀ entry ∈ (backup, live) :: spec, entry.1 ≠ (paths b3 dest backup).data := by
        intro entry hentry
        rcases List.mem_cons.mp hentry with rfl | hentry
        · exact hbackup
        · exact hdata entry hentry
      exact (calm_at (keeps_clearData _ hclear) _).mono (fun _ hdisk => hdisk.2)
        (fun _ _ hdisk => ⟨hfree, hdisk⟩) fun _ hdisk => hdisk.tail

theorem keeps_checkLive (dest : Text) : Keeps spec (checkLive dest : Prog Disk InstallError Unit) := by
  unfold checkLive
  refine (calm_stat dest fun _ hdisk => hdisk).bind fun found => ?_
  split
  · exact runs_pure fun _ hdisk => hdisk
  · exact runs_throw fun _ hdisk => hdisk

end Copy

section Exchange

variable [UnicodeTables] {b3 : Bytes → Blake3Hex} {source dest backup : Text} {live conversion : Bytes}
  {others : List (Text × Bytes)}

theorem keeps_checkConversion {spec : List (Text × Bytes)} (dest backup : Text)
    (handle : VerifiedConvertingHandle) : Keeps spec (checkConversion dest backup handle) := by
  have hstep : ∀ (site : Site) (fault : InstallError), Keeps spec (site.run (step fault)) :=
    fun site fault => calm_at (keeps_step fault) _
  unfold checkConversion
  refine (hstep .Parents _).bind fun _ => ?_
  refine Runs.bind (A := fun _ => Holds spec) ?_ fun i => ?_
  · apply calm_at
    exact (calm_openFile _ handle.source).mono (fun _ hdisk => hdisk) (fun _ _ hdisk => hdisk.1)
      fun _ hdisk => hdisk
  refine Runs.bind (A := fun _ => Holds spec) ?_ fun count => ?_
  · exact calm_at (calm_look (fun _ _ hdisk _ => hdisk) fun _ hdisk => hdisk) _
  apply runs_guard
  · exact fun _ hdisk => hdisk
  · intro _
    exact (hstep .Schema _).bind fun _ => hstep .Readable _

-- The live file and its conversion, until the one takes the place of the other.
def standing (source dest : Text) (live conversion : Bytes) (others : List (Text × Bytes)) :
    List (Text × Bytes) :=
  (dest, live) :: (source, conversion) :: others

def exchanged (dest backup : Text) (live conversion : Bytes) (others : List (Text × Bytes)) :
    List (Text × Bytes) :=
  (dest, conversion) :: (backup, live) :: others

-- Nothing is lost: the two are where they were, or the live file is in the backup.
def Safe (source dest backup : Text) (live conversion : Bytes) (others : List (Text × Bytes))
    (disk : Disk) : Prop :=
  Holds (standing source dest live conversion others) disk ∨
    Holds (exchanged dest backup live conversion others) disk

omit [UnicodeTables] in
theorem calm_rename (hbackup : backup ≠ dest ∧ backup ≠ source)
    (hothers : ∀ entry ∈ others, entry.1 ≠ dest ∧ entry.1 ≠ source) :
    Calm (Holds ((backup, live) :: standing source dest live conversion others))
      (change (InstallError.Io source) fun files => files.rename source dest)
      (fun _ => Holds (exchanged dest backup live conversion others))
      (Holds ((backup, live) :: standing source dest live conversion others)) := by
  apply calm_onVolume
  · intro disk pick a v hdisk hok
    dsimp only at hok
    split at hok
    · next files hfiles =>
      cases hok
      obtain ⟨i, hi, hdata, hplaced, hfar⟩ := Files.rename_ok hfiles
      have hkept : ∀ path bytes, path ≠ dest ∧ path ≠ source →
          disk.volume.files.content path = some bytes → files.content path = some bytes := by
        intro path bytes ⟨hdest, hsource⟩ hcontent
        obtain ⟨j, hj, hbytes⟩ := Files.content_some hcontent
        rw [Files.content_file ((hfar path hdest hsource).trans hj), hdata, hbytes]
      have hconv : disk.volume.files.content source = some conversion :=
        hdisk (source, conversion) (by simp [standing])
      rw [Files.content_file hi] at hconv
      intro entry hentry
      rcases List.mem_cons.mp hentry with rfl | hentry
      · show files.content dest = some conversion
        rw [Files.content_file hplaced, hdata, hconv]
      · rcases List.mem_cons.mp hentry with rfl | hentry
        · exact hkept backup live hbackup (hdisk (backup, live) List.mem_cons_self)
        · exact hkept _ _ (hothers entry hentry) (hdisk entry (by simp [standing, hentry]))
    · cases hok
  · exact fun _ hdisk => hdisk
  · exact fun _ _ hdisk => hdisk

omit [UnicodeTables] in
theorem calm_promote (hbackup : ∀ entry ∈ standing source dest live conversion others, entry.1 ≠ backup)
    (hothers : ∀ entry ∈ others, entry.1 ≠ dest ∧ entry.1 ≠ source) :
    Calm (Holds ((backup, live) :: standing source dest live conversion others))
      (promote source dest backup)
      (fun path disk => path = dest ∧ Holds (exchanged dest backup live conversion others) disk)
      (Safe source dest backup live conversion others) := by
  have hdest : backup ≠ dest := (hbackup (dest, live) List.mem_cons_self).symm
  have hsource : backup ≠ source := (hbackup (source, conversion) (by simp [standing])).symm
  unfold promote
  refine Runs.bind (A := fun result disk =>
    (result = .ok () → Holds (exchanged dest backup live conversion others) disk) ∧
      ∀ e, result = .error e → Holds (standing source dest live conversion others) disk) ?_
    fun result => ?_
  · apply Runs.attempt
    refine (calm_at (calm_rename ⟨hdest, hsource⟩ hothers) _).mono (fun _ hdisk => hdisk)
      (fun _ _ hdisk => ⟨fun _ => hdisk, fun _ h => by cases h⟩) fun _ hdisk =>
        ⟨.inl hdisk.tail, fun _ => ⟨fun h => (by cases h), fun _ _ => hdisk.tail⟩⟩
  · cases result with
    | ok =>
        refine Runs.bind (A := fun _ => Holds (exchanged dest backup live conversion others)) ?_ fun _ =>
          runs_pure fun _ hdisk => ⟨rfl, hdisk⟩
        exact (calm_at (calm_step _ fun _ hdisk => .inr hdisk) _).mono (fun _ hdisk => hdisk.1 rfl)
          (fun _ _ hdisk => hdisk) fun _ hdisk => hdisk
    | error e =>
        refine Runs.bind (A := fun _ => Holds (standing source dest live conversion others)) ?_ fun _ =>
          runs_throw fun _ hdisk => .inl hdisk
        apply calm_at
        apply Runs.mapError
        exact (keeps_remove hbackup).mono (fun _ hdisk => hdisk.2 e rfl) (fun _ _ hdisk => hdisk)
          fun _ hdisk => .inl hdisk

theorem calm_exchange (handle : VerifiedConvertingHandle)
    (hdata : ∀ entry ∈ standing handle.source dest live conversion others,
      entry.1 ≠ (paths b3 dest backup).data)
    (hbackup : backup ≠ (paths b3 dest backup).data)
    (hothers : ∀ entry ∈ others, entry.1 ≠ dest ∧ entry.1 ≠ handle.source) :
    Calm (Holds (standing handle.source dest live conversion others)) (exchange b3 dest backup handle)
      (fun path disk => path = dest ∧ Holds (exchanged dest backup live conversion others) disk)
      (Safe handle.source dest backup live conversion others) := by
  have hkeeps : ∀ {α : Type} {m : Prog Disk InstallError α},
      Keeps (standing handle.source dest live conversion others) m →
      Calm (Holds (standing handle.source dest live conversion others)) m
        (fun _ => Holds (standing handle.source dest live conversion others))
        (Safe handle.source dest backup live conversion others) :=
    fun h => h.mono (fun _ hdisk => hdisk) (fun _ _ hdisk => hdisk) fun _ => .inl
  unfold exchange
  refine (hkeeps (calm_at (keeps_checkLive dest) _)).bind fun _ => ?_
  refine Runs.bind (A := fun _ => Holds (standing handle.source dest live conversion others)) ?_
    fun found => ?_
  · apply Runs.attempt
    exact (calm_at (calm_stat backup fun _ hdisk => hdisk) _).mono (fun _ hdisk => hdisk)
      (fun _ _ hdisk => hdisk) fun _ hdisk => ⟨.inl hdisk, fun _ => hdisk⟩
  split
  · exact runs_throw fun _ => .inl
  refine (hkeeps (keeps_checkConversion dest backup handle)).bind fun _ => ?_
  refine ((calm_copyIntoPlace List.mem_cons_self hdata hbackup).mono (fun _ hdisk => hdisk)
    (fun _ _ hdisk => hdisk) fun _ => .inl).bind fun _ => ?_
  apply Runs.of_pre fun _ hdisk => hdisk.1
  intro hfree
  exact (calm_promote hfree hothers).mono (fun _ hdisk => hdisk.2) (fun _ _ hdisk => hdisk)
    fun _ hdisk => hdisk

end Exchange

section

variable [UnicodeTables] {b3 : Bytes → Blake3Hex} {libraryRoot : Text} {titleId : TitleId}
  {handle : VerifiedConvertingHandle} {backup : Text} {moves : Nat → Move Disk} {turn : Nat} {disk : Disk}
  {live conversion : Bytes}

theorem replace_safe (others : List (Text × Bytes)) (hmoves : Undisturbed moves)
    (hothers : ∀ entry ∈ others, entry.1 ≠ Path.join libraryRoot handle.destRel ∧ entry.1 ≠ handle.source)
    (hdata : ∀ entry ∈ others, entry.1 ≠ (paths b3 (Path.join libraryRoot handle.destRel) backup).data)
    (hdisk : Holds
      (standing handle.source (Path.join libraryRoot handle.destRel) live conversion others) disk) :
    Safe handle.source (Path.join libraryRoot handle.destRel) backup live conversion others
        (replace b3 libraryRoot titleId handle backup moves turn disk).world ∧
      ∀ path, (replace b3 libraryRoot titleId handle backup moves turn disk).outcome = .Done path →
        path = Path.join libraryRoot handle.destRel ∧
          Holds (exchanged (Path.join libraryRoot handle.destRel) backup live conversion others)
            (replace b3 libraryRoot titleId handle backup moves turn disk).world := by
  by_cases haccepted : Accepted libraryRoot titleId handle backup
  · obtain ⟨hdest, hsource, -⟩ := handle_apart b3 handle libraryRoot
      (Path.join libraryRoot handle.destRel) backup
    have hstanding : ∀ entry ∈ standing handle.source (Path.join libraryRoot handle.destRel) live
        conversion others, entry.1 ≠ (paths b3 (Path.join libraryRoot handle.destRel) backup).data := by
      intro entry hentry
      rcases List.mem_cons.mp hentry with rfl | hentry
      · exact hdest
      · rcases List.mem_cons.mp hentry with rfl | hentry
        · exact hsource
        · exact hdata entry hentry
    have hran := (calm_exchange handle hstanding (dest_ne_slotData b3 _ backup) hothers [] disk hdisk
      moves turn fun n disk => hmoves n disk).2
    rw [replace_accepted haccepted]
    cases ho : (exchange b3 (Path.join libraryRoot handle.destRel) backup handle moves turn disk).outcome with
    | Done path =>
        rw [ho] at hran
        refine ⟨.inr hran.2, fun _ h => ?_⟩
        cases h
        exact hran
    | Failed e =>
        rw [ho] at hran
        exact ⟨hran, fun _ h => by cases h⟩
    | Stopped =>
        rw [ho] at hran
        exact ⟨hran, fun _ h => by cases h⟩
  · have hrefused := @replace_unaccepted _ b3 libraryRoot titleId handle backup moves turn disk haccepted
    rw [hrefused.2]
    exact ⟨.inl hdisk, fun path h => absurd h (hrefused.1 path)⟩

end

section

variable [UnicodeTables] (b3 : Bytes → Blake3Hex) (libraryRoot : Text) (titleId : TitleId)
  (handle : VerifiedConvertingHandle) (backup : Text) (moves : Nat → Move Disk) (turn : Nat) (disk : Disk)
  (live conversion : Bytes)

-- What is on the disk at the end of a replacement, whichever end it has.
structure MediaKept : Prop where
  both : Safe handle.source (Path.join libraryRoot handle.destRel) backup live conversion []
    (replace b3 libraryRoot titleId handle backup moves turn disk).world
  placed : ∀ path, (replace b3 libraryRoot titleId handle backup moves turn disk).outcome = .Done path →
    Holds (exchanged (Path.join libraryRoot handle.destRel) backup live conversion [])
      (replace b3 libraryRoot titleId handle backup moves turn disk).world
  others : ∀ path bytes, path ≠ Path.join libraryRoot handle.destRel → path ≠ handle.source →
    path ≠ (paths b3 (Path.join libraryRoot handle.destRel) backup).data →
    disk.volume.files.content path = some bytes →
      (replace b3 libraryRoot titleId handle backup moves turn disk).world.volume.files.content path =
        some bytes

variable {b3 libraryRoot titleId handle backup moves turn disk live conversion}

-- Wherever it fails or is stopped, a replacement has the live bytes and the converted ones
-- at a path of their own, and no other file has changed.
theorem replace_keeps_media (hmoves : Undisturbed moves)
    (hlive : disk.volume.files.content (Path.join libraryRoot handle.destRel) = some live)
    (hconversion : disk.volume.files.content handle.source = some conversion) :
    MediaKept b3 libraryRoot titleId handle backup moves turn disk live conversion := by
  have hstanding : Holds
      (standing handle.source (Path.join libraryRoot handle.destRel) live conversion []) disk := by
    intro entry hentry
    rcases List.mem_cons.mp hentry with rfl | hentry
    · exact hlive
    · obtain rfl := List.mem_singleton.mp hentry
      exact hconversion
  have hsafe := @replace_safe _ b3 libraryRoot titleId handle backup moves turn disk live conversion
  obtain ⟨hboth, hplaced⟩ := hsafe [] hmoves nofun nofun hstanding
  refine ⟨hboth, fun path hdone => (hplaced path hdone).2,
    fun path bytes hdest hsource hdata hcontent => ?_⟩
  have hwith : Holds (standing handle.source (Path.join libraryRoot handle.destRel) live conversion
      [(path, bytes)]) disk := by
    intro entry hentry
    rcases List.mem_append.mp (show entry ∈ [_, _] ++ [(path, bytes)] from hentry) with hentry | hentry
    · exact hstanding entry hentry
    · obtain rfl := List.mem_singleton.mp hentry
      exact hcontent
  have hfar : ∀ entry ∈ [(path, bytes)], entry.1 ≠ Path.join libraryRoot handle.destRel ∧
      entry.1 ≠ handle.source := by
    simpa using ⟨hdest, hsource⟩
  rcases (hsafe [(path, bytes)] hmoves hfar (by simpa using hdata) hwith).1 with hholds | hholds
  · exact hholds (path, bytes) (by simp [standing])
  · exact hholds (path, bytes) (by simp [exchanged])

end

namespace Sample

-- The backup is on another device, and the machine goes down while it is written.
def downAtCopy (turn : Nat) : Move Disk :=
  if turn = Site.Chunks.turn then { fate := .Stops 1, pick := 1 } else { pick := 1 }

theorem undisturbed_downAtCopy : Undisturbed downAtCopy := by
  intro turn disk
  unfold downAtCopy
  split <;> rfl

end Sample

theorem replace_keeps_media_down :
    let := UnicodeTables.ascii
    MediaKept InstallTemporary.Sample.b3 "/lib".toList Sample.up Sample.conversion Sample.upBackup
      Sample.downAtCopy 0 Sample.converted [1, 2, 3] [4] := by
  intro tables
  exact replace_keeps_media Sample.undisturbed_downAtCopy (by decide) (by decide)

end Mediaops.Install
