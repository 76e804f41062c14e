import Mediaops.Install.Slot
import Mediaops.Library.Fates

namespace Mediaops.Install

-- The calls on a disk in one environment, and those that make or open a slot and
-- clear it.

open Transfer (Volume onVolume look step change stat openFile)

def Disk.withFiles (disk : Disk) (files : Files Text) : Disk :=
  { disk with volume := { disk.volume with files } }

def Disk.withSlot (disk : Disk) (dir : Text) (slot : SlotDir) : Disk :=
  { disk with slots := Function.update disk.slots dir slot }

@[simp] theorem Disk.withFiles_files (disk : Disk) (files : Files Text) :
    (disk.withFiles files).volume.files = files := rfl

@[simp] theorem Disk.withSlot_self (disk : Disk) (dir : Text) (slot : SlotDir) :
    (disk.withSlot dir slot).slots dir = slot := Function.update_self ..

section Calls

variable {ε α : Type} {moves : Nat → Move Disk} {turn : Nat} {disk : Disk} {turns : List Nat}
  {H : Disk → Prop} {a : α} {e : ε}

theorem Site.answers {site : Site} {m : Prog Disk ε α} {t : Nat} {w : Disk}
    (h : Answers moves site.turn m t disk a w H) : Answers moves turn (site.run m) t disk a w H :=
  h

theorem Site.passes {site : Site} {m : Prog Disk ε α} {turns : List Nat}
    {A : α → Nat → Disk → Prop} (h : Passes moves site.turn m turns disk A H) :
    Passes moves turn (site.run m) turns disk A H :=
  h

theorem Site.refused {site : Site} {m : Prog Disk ε α} (h : Refused moves site.turn m disk H) :
    Refused moves turn (site.run m) disk H :=
  h

theorem Disk.withSlot_same (disk : Disk) (dir : Text) :
    disk.withSlot dir (disk.slots dir) = disk := by
  simp [Disk.withSlot]

variable (hmoves : Undisturbed moves)

include hmoves

theorem answers_onVolume {c : Call Volume ε α} {v : Volume}
    (hrun : c.run (moves turn).pick disk.volume = .ok (a, v))
    (hhalt : ∀ part, (moves turn).fate.Cuts part →
      H { disk with volume := c.partly part disk.volume }) :
    Answers moves turn (onVolume c : Prog Disk ε α) turn disk a { disk with volume := v } H := by
  refine answers_perform hmoves ?_ hhalt
  simp only [Call.on, Transfer.Mounted.volume, hrun]
  rfl

theorem refused_onVolume {c : Call Volume ε α}
    (hrun : c.run (moves turn).pick disk.volume = .error e) (hsame : H disk)
    (hhalt : ∀ part, H { disk with volume := c.partly part disk.volume }) :
    Refused moves turn (onVolume c : Prog Disk ε α) disk H := by
  refine refused_perform hmoves (e := e) ?_ hsame hhalt
  simp only [Call.on, Transfer.Mounted.volume, hrun]
  rfl

theorem answers_look {fault : ε} {f : Volume → Except ε α} (hf : f disk.volume = .ok a)
    (hhalt : H disk) :
    Answers moves turn (look fault f : Prog Disk ε α) turn disk a disk H := by
  refine answers_perform hmoves ?_ fun _ _ => hhalt
  simp only [Call.on, Transfer.Mounted.volume, hf]
  rfl

theorem refused_look {fault : ε} {f : Volume → Except ε α} (hf : f disk.volume = .error e)
    (hhalt : H disk) : Refused moves turn (look fault f : Prog Disk ε α) disk H := by
  refine refused_perform hmoves (e := e) ?_ hhalt fun _ => hhalt
  simp only [Call.on, Transfer.Mounted.volume, hf]
  rfl

theorem answers_step {fault : ε} (hhalt : H disk) :
    Answers moves turn (step fault : Prog Disk ε Unit) turn disk () disk H :=
  answers_look hmoves rfl hhalt

theorem answers_openFile {fault : ε} {path : Text} {i : Nat}
    (hnode : disk.volume.files.node path = some (.File i)) (hhalt : H disk) :
    Answers moves turn (openFile fault path : Prog Disk ε Nat) turn disk i disk H :=
  answers_look hmoves (by rw [hnode]; rfl) hhalt

theorem answers_change {fault : ε} {f : Files Text → Except FsError (Files Text)}
    {files : Files Text} (hf : f disk.volume.files = .ok files) (hhalt : H disk) :
    Answers moves turn (change fault f : Prog Disk ε Unit) turn disk ()
      (disk.withFiles files) H := by
  refine answers_perform hmoves ?_ fun _ _ => hhalt
  simp only [Call.on, Transfer.Mounted.volume, hf]
  rfl

theorem answers_onSlot {dir : Text} {c : Call SlotDir ε α} {slot : SlotDir}
    (hrun : ∀ pick, c.run pick (disk.slots dir) = .ok (a, slot))
    (hhalt : ∀ part, (moves turn).fate.Cuts part →
      H (disk.withSlot dir (c.partly part (disk.slots dir)))) :
    Answers moves turn (onSlot dir c) turn disk a (disk.withSlot dir slot) H := by
  refine answers_perform hmoves ?_ hhalt
  simp only [Call.on, hrun]
  rfl

theorem refused_onSlot {dir : Text} {c : Call SlotDir ε α}
    (hrun : ∀ pick, c.run pick (disk.slots dir) = .error e) (hsame : H disk)
    (hhalt : ∀ part, H (disk.withSlot dir (c.partly part (disk.slots dir)))) :
    Refused moves turn (onSlot dir c) disk H := by
  refine refused_perform hmoves (e := e) ?_ hsame hhalt
  simp only [Call.on, hrun]
  rfl

theorem answers_lookSlot {dir : Text} {fault : ε} {f : SlotDir → Except ε α}
    (hf : f (disk.slots dir) = .ok a) (hhalt : H disk) :
    Answers moves turn (lookSlot dir fault f) turn disk a disk H := by
  have hanswers : Answers moves turn (lookSlot dir fault f) turn disk a
      (disk.withSlot dir (disk.slots dir)) H := by
    refine answers_onSlot hmoves ?_ fun _ _ => ?_
    · intro pick
      simp only [hf]
      rfl
    · rwa [Disk.withSlot_same]
  rwa [Disk.withSlot_same] at hanswers

theorem refused_lookSlot {dir : Text} {fault : ε} {f : SlotDir → Except ε α}
    (hf : f (disk.slots dir) = .error e) (hhalt : H disk) :
    Refused moves turn (lookSlot dir fault f) disk H := by
  refine refused_onSlot hmoves (e := e) ?_ hhalt ?_
  · intro pick
    simp only [hf]
    rfl
  · intro part
    rwa [Disk.withSlot_same]

end Calls

-- The copy of an earlier attempt is nobody else's, or published and nothing more.
def Clean (paths : Paths) (files : Files Text) : Prop :=
  ∀ node, files.node paths.data = some node → ∃ k, node = .File k ∧
    (files.nlink k = 1 ∨ files.nlink k = 2 ∧ files.node paths.dest = some (.File k))

def cleared (paths : Paths) (files : Files Text) : Files Text :=
  if files.node paths.data = none then files else files.drop paths.data

-- The calls that clear a clean slot.
def clearTurns (paths : Paths) (files : Files Text) (turn : Nat) : List Nat :=
  match files.node paths.data with
  | some (.File k) =>
      if files.nlink k = 2 then [turn, turn + 1, turn + 2, turn + 3, turn + 4]
      else [turn, turn + 1, turn + 2, turn + 3]
  | _ => [turn]

section Clear

variable {moves : Nat → Move Disk} {turn : Nat} {disk : Disk} {paths : Paths}
  (hmoves : Undisturbed moves)

theorem node_cleared (paths : Paths) (files : Files Text) (path : Text) :
    (cleared paths files).node path = if path = paths.data then none else files.node path := by
  unfold cleared
  by_cases hdata : files.node paths.data = none
  · rw [if_pos hdata]
    by_cases hpath : path = paths.data
    · rw [if_pos hpath, hpath, hdata]
    · rw [if_neg hpath]
  · rw [if_neg hdata, Files.node_drop]

theorem data_cleared (paths : Paths) (files : Files Text) :
    (cleared paths files).data = files.data := by
  unfold cleared
  split <;> rfl

theorem next_cleared (paths : Paths) (files : Files Text) :
    (cleared paths files).next = files.next := by
  unfold cleared
  split <;> rfl

include hmoves

theorem passes_clearData (hclean : Clean paths disk.volume.files) :
    Passes moves turn (clearData paths : Prog Disk InstallError Unit)
      (clearTurns paths disk.volume.files turn) disk
      (fun _ _ w => w = disk.withFiles (cleared paths disk.volume.files))
      (fun w => w = disk ∨ w = disk.withFiles (cleared paths disk.volume.files)) := by
  have hsame : disk = disk ∨ disk = disk.withFiles (cleared paths disk.volume.files) := .inl rfl
  unfold clearData clearTurns
  cases hdata : disk.volume.files.node paths.data with
  | none =>
      refine Answers.bind (answers_look hmoves rfl hsame) ?_
      rw [hdata]
      refine passes_pure ?_
      rw [cleared, if_pos hdata]
      rfl
  | some node =>
      obtain ⟨k, rfl, hlinks⟩ := hclean node hdata
      have hcleared : cleared paths disk.volume.files = disk.volume.files.drop paths.data :=
        if_neg (by rw [hdata]; simp)
      have hremove : disk.volume.files.unlink paths.data =
          .ok (cleared paths disk.volume.files) := by
        rw [hcleared]
        exact Files.unlink_present (by rw [hdata]; simp)
      rcases hlinks with hone | ⟨htwo, hdest⟩
      · dsimp only
        rw [if_neg (by omega)]
        refine Answers.bind (answers_look hmoves rfl hsame) ?_
        rw [hdata]
        dsimp only [Option.map_some]
        unfold ownedLinks
        rw [Prog.bind_assoc]
        refine Answers.bind (answers_look hmoves rfl hsame) ?_
        rw [if_neg (by omega), Prog.pure_bind, if_neg (by simp [hone])]
        refine Answers.bind (answers_change hmoves hremove hsame) ?_
        exact Answers.passes (answers_step hmoves (.inr rfl)) rfl
      · dsimp only
        rw [if_pos htwo]
        refine Answers.bind (answers_look hmoves rfl hsame) ?_
        rw [hdata]
        dsimp only [Option.map_some]
        unfold ownedLinks
        rw [Prog.bind_assoc]
        refine Answers.bind (answers_look hmoves rfl hsame) ?_
        rw [if_pos htwo, Prog.bind_assoc]
        -- A look at the destination that fails leaves the second link unexplained.
        refine Answers.attempt_bind (answers_look hmoves rfl hsame) ?_ ?_
        · rw [hdest]
          dsimp only [Option.map_some]
          rw [Prog.pure_bind, if_neg (by simp)]
          refine Answers.bind (answers_change hmoves hremove hsame) ?_
          exact Answers.passes (answers_step hmoves (.inr rfl)) rfl
        · intro e next w hw
          exact ⟨⟨_, rfl⟩, hw⟩

theorem refused_clearData (hclean : ¬Clean paths disk.volume.files) :
    Refused moves turn (clearData paths : Prog Disk InstallError Unit) disk (· = disk) := by
  unfold clearData
  cases hdata : disk.volume.files.node paths.data with
  | none =>
      refine absurd ?_ hclean
      intro node hnode
      rw [hdata] at hnode
      cases hnode
  | some node =>
      refine Answers.refused (answers_look hmoves rfl rfl) ?_
      rw [hdata]
      dsimp only [Option.map_some]
      cases node with
      | Other => exact refused_throw rfl
      | File k =>
          dsimp only
          unfold ownedLinks
          rw [Prog.bind_assoc]
          refine Answers.refused (answers_look hmoves rfl rfl) ?_
          have howned : disk.volume.files.nlink k ≠ 1 ∧ ¬(disk.volume.files.nlink k = 2 ∧
              disk.volume.files.node paths.dest = some (.File k)) := by
            constructor
            · intro hone
              apply hclean
              intro node hnode
              rw [hdata] at hnode
              cases hnode
              exact ⟨k, rfl, .inl hone⟩
            · intro htwo
              apply hclean
              intro node hnode
              rw [hdata] at hnode
              cases hnode
              exact ⟨k, rfl, .inr htwo⟩
          by_cases htwo : disk.volume.files.nlink k = 2
          · rw [if_pos htwo, Prog.bind_assoc]
            refine Answers.attempt_refused (answers_look hmoves rfl rfl) ?_ ?_
            · cases hdest : disk.volume.files.node paths.dest with
              | none => exact refused_throw rfl
              | some found =>
                  have hne : found ≠ .File k := fun he => howned.2 ⟨htwo, he ▸ hdest⟩
                  dsimp only [Option.map_some]
                  rw [Prog.pure_bind, if_pos (by simpa using hne)]
                  exact Refused.bind (refused_throw rfl) _
            · intro e next w hw
              exact ⟨fun _ ha => (nomatch ha), hw⟩
          · rw [if_neg htwo, Prog.pure_bind, if_pos (by simpa using howned.1)]
            exact Refused.bind (refused_throw rfl) _

end Clear

namespace InstallTemporary

variable {moves : Nat → Move Disk} {turn : Nat} {disk : Disk} {b3 : Bytes → Blake3Hex}
  {source dest : Text} (hmoves : Undisturbed moves)

-- The calls that come between a slot's directory and the identity in its marker.
def joinTurns : List Nat :=
  [Site.OpenDir.turn, Site.DirMetadata.turn, Site.OpenMarker.turn, Site.MarkerMetadata.turn,
    Site.Lock.turn]

def newTurns : List Nat :=
  Site.MakeDir.turn :: joinTurns ++ [Site.WriteMarker.turn, Site.SyncMarker.turn,
    Site.SyncDir.turn, Site.SyncDirParent.turn]

-- The slot is made by this run, which ends before the whole identity is in its marker.
def Cut (b3 : Bytes → Blake3Hex) (source dest : Text) (moves : Nat → Move Disk) (disk : Disk) :
    Prop :=
  disk.slots (directory b3 source dest) = .Absent ∧
    (moves Site.MakeDir.turn).fate = .Goes ∧
    (¬AllGo moves joinTurns ∨ ∃ part, (moves Site.WriteMarker.turn).fate.Cuts part ∧
      (identity source dest).take part ≠ identity source dest)

-- The slot stands with its marker.
def claimed (b3 : Bytes → Blake3Hex) (source dest : Text) (disk : Disk) : Disk :=
  disk.withSlot (directory b3 source dest) (.Made (.Saved (identity source dest)))

section Calls

variable {dir path : Text} {bytes : Bytes} {found : Marker} {create : Bool} {H : Disk → Prop}

include hmoves

theorem answers_makeDir (hslot : disk.slots dir = .Absent) (hhalt : H disk) :
    Answers moves turn (makeDir dir) turn disk true (disk.withSlot dir (.Made .Missing)) H := by
  refine answers_onSlot hmoves ?_ fun _ _ => ?_
  · intro pick
    rw [hslot]
    rfl
  · rwa [Disk.withSlot_same]

theorem answers_makeDir_there (hslot : disk.slots dir ≠ .Absent) (hhalt : H disk) :
    Answers moves turn (makeDir dir) turn disk false disk H := by
  have hanswers : Answers moves turn (makeDir dir) turn disk false
      (disk.withSlot dir (disk.slots dir)) H := by
    refine answers_onSlot hmoves ?_ fun _ _ => ?_
    · intro pick
      cases hfound : disk.slots dir with
      | Absent => exact absurd hfound hslot
      | NotDirectory => rfl
      | Foreign => rfl
      | Made found => rfl
    · rwa [Disk.withSlot_same]
  rwa [Disk.withSlot_same] at hanswers

theorem answers_openDir (hslot : disk.slots dir = .Made found) (hhalt : H disk) :
    Answers moves turn (openDir dir create) turn disk true disk H :=
  answers_lookSlot hmoves (by rw [hslot]; rfl) hhalt

theorem answers_checkDir (hslot : disk.slots dir = .Made found) (hhalt : H disk) :
    Answers moves turn (checkDir dir) turn disk () disk H :=
  answers_lookSlot hmoves (by rw [hslot]; rfl) hhalt

theorem answers_newMarker (hslot : disk.slots dir = .Made .Missing) (hhalt : H disk) :
    Answers moves turn (openMarker dir path true) turn disk ()
      (disk.withSlot dir (.Made (.Saved []))) H := by
  refine answers_onSlot hmoves ?_ fun _ _ => ?_
  · intro pick
    rw [hslot]
    rfl
  · rwa [Disk.withSlot_same]

theorem answers_openMarker (hslot : disk.slots dir = .Made found) (hmissing : found ≠ .Missing)
    (hopened : found ≠ .NotOpened) (hhalt : H disk) :
    Answers moves turn (openMarker dir path false) turn disk () disk H := by
  have hanswers : Answers moves turn (openMarker dir path false) turn disk ()
      (disk.withSlot dir (disk.slots dir)) H := by
    refine answers_onSlot hmoves ?_ fun _ _ => ?_
    · intro pick
      rw [hslot]
      cases found with
      | Missing => exact absurd rfl hmissing
      | NotOpened => exact absurd rfl hopened
      | Foreign => rfl
      | Saved bytes => rfl
    · rwa [Disk.withSlot_same]
  rwa [Disk.withSlot_same] at hanswers

theorem answers_checkMarker (hslot : disk.slots dir = .Made (.Saved bytes)) (hhalt : H disk) :
    Answers moves turn (checkMarker dir path) turn disk () disk H :=
  answers_lookSlot hmoves (by rw [hslot]; rfl) hhalt

theorem answers_readMarker (hslot : disk.slots dir = .Made (.Saved bytes)) (hhalt : H disk) :
    Answers moves turn (readMarker dir path) turn disk bytes disk H :=
  answers_lookSlot hmoves (by rw [hslot]; rfl) hhalt

theorem answers_writeMarker
    (hhalt : ∀ part, (moves turn).fate.Cuts part →
      H (disk.withSlot dir (.Made (.Saved (bytes.take part))))) :
    Answers moves turn (writeMarker dir path bytes) turn disk ()
      (disk.withSlot dir (.Made (.Saved bytes))) H :=
  answers_onSlot hmoves (fun _ => rfl) hhalt

end Calls

include hmoves

theorem passes_openOwner (create : Bool)
    (hslot : disk.slots (directory b3 source dest) = .Made (.Saved (identity source dest))) :
    Passes moves turn (openOwner b3 source dest create false) (joinTurns ++ [Site.ReadMarker.turn])
      disk (fun there _ w => there = true ∧ w = disk) (· = disk) := by
  unfold openOwner joinTurns
  dsimp only
  refine Answers.bind (Site.answers (answers_openDir hmoves hslot rfl)) ?_
  rw [if_neg (by simp)]
  refine Answers.bind (Site.answers (answers_checkDir hmoves hslot rfl)) ?_
  refine Answers.bind (Site.answers (answers_openMarker hmoves hslot nofun nofun rfl)) ?_
  refine Answers.bind (Site.answers (answers_checkMarker hmoves hslot rfl)) ?_
  refine Answers.bind (Site.answers (answers_step hmoves rfl)) ?_
  unfold claim
  rw [if_neg (by simp), Prog.bind_assoc]
  refine Answers.bind (Site.answers (answers_readMarker hmoves hslot rfl)) ?_
  rw [if_neg (by simp)]
  exact passes_pure ⟨rfl, rfl⟩

theorem passes_openSlot_made
    (hslot : disk.slots (directory b3 source dest) = .Made (.Saved (identity source dest))) :
    Passes moves turn (openSlot b3 source dest true)
      (Site.MakeDir.turn :: joinTurns ++ [Site.ReadMarker.turn])
      disk (fun there _ w => there = true ∧ w = disk) (· = disk) := by
  unfold openSlot
  rw [if_pos rfl]
  have hthere : disk.slots (directory b3 source dest) ≠ .Absent := by simp [hslot]
  refine Answers.bind (Site.answers (answers_makeDir_there hmoves hthere rfl)) ?_
  exact passes_openOwner hmoves true hslot

-- Whatever else stands in the slot's place is refused.
theorem refused_openOwner (create : Bool) (hthere : disk.slots (directory b3 source dest) ≠ .Absent)
    (hslot : disk.slots (directory b3 source dest) ≠ .Made (.Saved (identity source dest))) :
    Refused moves turn (openOwner b3 source dest create false) disk (· = disk) := by
  unfold openOwner
  dsimp only
  cases hfound : disk.slots (directory b3 source dest) with
  | Absent => exact absurd hfound hthere
  | NotDirectory =>
      refine Refused.bind ?_ _
      exact Site.refused (refused_lookSlot hmoves (e := .Io (directory b3 source dest))
        (by rw [hfound]; rfl) rfl)
  | Foreign =>
      have hopened : Answers moves Site.OpenDir.turn (openDir (directory b3 source dest) create)
          Site.OpenDir.turn disk true disk (· = disk) :=
        answers_lookSlot hmoves (by rw [hfound]; rfl) rfl
      refine Answers.refused (Site.answers hopened) ?_
      rw [if_neg (by simp)]
      refine Refused.bind ?_ _
      exact Site.refused (refused_lookSlot hmoves
        (e := .UnsafeTemporary (directory b3 source dest)) (by rw [hfound]; rfl) rfl)
  | Made found =>
      refine Answers.refused (Site.answers (answers_openDir hmoves hfound rfl)) ?_
      rw [if_neg (by simp)]
      refine Answers.refused (Site.answers (answers_checkDir hmoves hfound rfl)) ?_
      cases found with
      | Missing =>
          refine Refused.bind ?_ _
          refine Site.refused (refused_onSlot hmoves (e := .Io (marker b3 source dest)) ?_ rfl ?_)
          · intro pick
            rw [hfound]
            rfl
          · exact fun _ => Disk.withSlot_same ..
      | NotOpened =>
          refine Refused.bind ?_ _
          refine Site.refused (refused_onSlot hmoves (e := .Io (marker b3 source dest)) ?_ rfl ?_)
          · intro pick
            rw [hfound]
            rfl
          · exact fun _ => Disk.withSlot_same ..
      | Foreign =>
          refine Answers.refused (Site.answers (answers_openMarker hmoves hfound nofun nofun rfl)) ?_
          refine Refused.bind ?_ _
          exact Site.refused (refused_lookSlot hmoves
            (e := .UnsafeTemporary (marker b3 source dest)) (by rw [hfound]; rfl) rfl)
      | Saved bytes =>
          have hother : bytes ≠ identity source dest := by
            rintro rfl
            exact hslot hfound
          refine Answers.refused (Site.answers (answers_openMarker hmoves hfound nofun nofun rfl)) ?_
          refine Answers.refused (Site.answers (answers_checkMarker hmoves hfound rfl)) ?_
          refine Answers.refused (Site.answers (answers_step hmoves rfl)) ?_
          unfold claim
          rw [if_neg (by simp), Prog.bind_assoc]
          refine Answers.refused (Site.answers (answers_readMarker hmoves hfound rfl)) ?_
          rw [if_pos hother]
          exact Refused.bind (refused_throw rfl) _

theorem refused_openSlot (create : Bool) (hthere : disk.slots (directory b3 source dest) ≠ .Absent)
    (hslot : disk.slots (directory b3 source dest) ≠ .Made (.Saved (identity source dest))) :
    Refused moves turn (openSlot b3 source dest create) disk (· = disk) := by
  unfold openSlot
  cases create with
  | false => exact refused_openOwner hmoves false hthere hslot
  | true =>
      rw [if_pos rfl]
      refine Answers.refused (Site.answers (answers_makeDir_there hmoves hthere rfl)) ?_
      exact refused_openOwner hmoves true hthere hslot

theorem passes_openSlot_absent (hslot : disk.slots (directory b3 source dest) = .Absent) :
    Passes moves turn (openSlot b3 source dest false) [Site.OpenDir.turn] disk
      (fun there _ w => there = false ∧ w = disk) (· = disk) := by
  unfold openSlot openOwner
  rw [if_neg (by simp)]
  dsimp only
  refine Answers.bind (Site.answers (answers_lookSlot hmoves (by rw [hslot]; rfl) rfl)) ?_
  rw [if_pos (by simp)]
  exact passes_pure ⟨rfl, rfl⟩

theorem passes_openSlot_new (hslot : disk.slots (directory b3 source dest) = .Absent) :
    Passes moves turn (openSlot b3 source dest true) newTurns disk
      (fun there _ w => there = true ∧ w = claimed b3 source dest disk) fun _ => True := by
  unfold openSlot openOwner claim newTurns joinTurns
  rw [if_pos rfl]
  dsimp only
  refine Answers.bind (Site.answers (answers_makeDir hmoves hslot trivial)) ?_
  have hmade : (disk.withSlot (directory b3 source dest) (.Made .Missing)).slots
      (directory b3 source dest) = .Made .Missing := Disk.withSlot_self ..
  refine Answers.bind (Site.answers (answers_openDir hmoves hmade trivial)) ?_
  rw [if_neg (by simp)]
  refine Answers.bind (Site.answers (answers_checkDir hmoves hmade trivial)) ?_
  refine Answers.bind (Site.answers (answers_newMarker hmoves hmade trivial)) ?_
  refine Answers.bind (Site.answers (answers_checkMarker hmoves (Disk.withSlot_self ..) trivial)) ?_
  refine Answers.bind (Site.answers (answers_step hmoves trivial)) ?_
  rw [if_pos rfl, Prog.bind_assoc]
  refine Answers.bind (Site.answers (answers_writeMarker hmoves fun _ _ => trivial)) ?_
  rw [Prog.bind_assoc]
  refine Answers.bind (Site.answers (answers_step hmoves trivial)) ?_
  rw [Prog.bind_assoc]
  refine Answers.bind (Site.answers (answers_step hmoves trivial)) ?_
  refine Answers.bind (Site.answers (answers_step hmoves trivial)) ?_
  refine passes_pure ⟨rfl, ?_⟩
  simp [claimed, Disk.withSlot]

-- What a run leaves that found no slot and made its directory.
def Left (b3 : Bytes → Blake3Hex) (source dest : Text) (moves : Nat → Move Disk) (disk w : Disk) :
    Prop :=
  ∃ found, w = disk.withSlot (directory b3 source dest) (.Made found) ∧
    (found = .Saved (identity source dest) ↔ ¬Cut b3 source dest moves disk)

theorem openOwner_new_world (hslot : disk.slots (directory b3 source dest) = .Absent)
    (hmade : (moves Site.MakeDir.turn).fate = .Goes) :
    Left b3 source dest moves disk (openOwner b3 source dest true true moves turn
      (disk.withSlot (directory b3 source dest) (.Made .Missing))).world := by
  have hmissing : (disk.withSlot (directory b3 source dest) (.Made .Missing)).slots
      (directory b3 source dest) = .Made .Missing := Disk.withSlot_self ..
  have hagain : ∀ old new, (disk.withSlot (directory b3 source dest) old).withSlot
      (directory b3 source dest) new = disk.withSlot (directory b3 source dest) new := by
    intro old new
    simp [Disk.withSlot]
  -- The calls between the directory and the identity leave less than the identity.
  have hleft : ∀ t ∈ joinTurns, ∀ found, found ≠ .Saved (identity source dest) →
      (moves t).fate ≠ .Goes → ∀ w, disk.withSlot (directory b3 source dest) (.Made found) = w →
        Left b3 source dest moves disk w := by
    intro t ht found hfound hhalt w hw
    have hcut : Cut b3 source dest moves disk := ⟨hslot, hmade, .inl fun hgo => hhalt (hgo t ht)⟩
    exact ⟨found, hw.symm, fun h => absurd h hfound, fun h => absurd hcut h⟩
  have hempty : Marker.Saved [] ≠ .Saved (identity source dest) := nofun
  unfold openOwner claim
  dsimp only
  refine Answers.world (Site.answers (answers_openDir hmoves hmissing rfl)) ?_
    (hleft Site.OpenDir.turn (by simp [joinTurns]) .Missing nofun)
  intro hopenDir
  rw [if_neg (by simp)]
  refine Answers.world (Site.answers (answers_checkDir hmoves hmissing rfl)) ?_
    (hleft Site.DirMetadata.turn (by simp [joinTurns]) .Missing nofun)
  intro hcheckDir
  refine Answers.world (Site.answers (answers_newMarker hmoves hmissing rfl)) ?_
    (hleft Site.OpenMarker.turn (by simp [joinTurns]) .Missing nofun)
  intro hopenMarker
  rw [hagain]
  refine Answers.world (Site.answers (answers_checkMarker hmoves (Disk.withSlot_self ..) rfl)) ?_
    (hleft Site.MarkerMetadata.turn (by simp [joinTurns]) (.Saved []) hempty)
  intro hcheckMarker
  refine Answers.world (Site.answers (answers_step hmoves rfl)) ?_
    (hleft Site.Lock.turn (by simp [joinTurns]) (.Saved []) hempty)
  intro hlock
  have hjoined : AllGo moves joinTurns := by
    simp [AllGo, joinTurns, hopenDir, hcheckDir, hopenMarker, hcheckMarker, hlock]
  rw [if_pos rfl, Prog.bind_assoc]
  refine Answers.world (H := fun w => ∃ part, (moves Site.WriteMarker.turn).fate.Cuts part ∧
      w = disk.withSlot (directory b3 source dest)
        (.Made (.Saved ((identity source dest).take part))))
    (Site.answers (answers_writeMarker hmoves fun part hcut => ⟨part, hcut, hagain _ _⟩)) ?_ ?_
  · intro hwritten
    have hkept : ∀ w, disk.withSlot (directory b3 source dest)
        (.Made (.Saved (identity source dest))) = w → Left b3 source dest moves disk w := by
      rintro w rfl
      refine ⟨_, rfl, fun _ hcut => ?_, fun _ => rfl⟩
      rcases hcut.2.2 with hjoin | ⟨part, hcut, -⟩
      · exact hjoin hjoined
      · rw [hwritten] at hcut
        exact Fate.not_cuts_goes hcut
    rw [hagain, Prog.bind_assoc]
    refine Answers.world (Site.answers (answers_step hmoves rfl)) ?_ fun _ => hkept
    intro _
    rw [Prog.bind_assoc]
    refine Answers.world (Site.answers (answers_step hmoves rfl)) ?_ fun _ => hkept
    intro _
    refine Answers.world (Site.answers (answers_step hmoves rfl)) ?_ fun _ => hkept
    exact fun _ => hkept _ rfl
  · rintro hhalt w ⟨part, hcut, rfl⟩
    refine ⟨_, rfl, ?_⟩
    rw [Marker.Saved.injEq]
    constructor
    · intro hwhole hcut'
      rcases hcut'.2.2 with hjoin | ⟨part', hpart, hless⟩
      · exact hjoin hjoined
      · exact hless (hcut.unique hpart ▸ hwhole)
    · intro hcut'
      by_contra hless
      exact hcut' ⟨hslot, hmade, .inr ⟨part, hcut, hless⟩⟩

-- What a run leaves that found no slot.
def Begun (b3 : Bytes → Blake3Hex) (source dest : Text) (moves : Nat → Move Disk) (disk w : Disk) :
    Prop :=
  ((moves Site.MakeDir.turn).fate ≠ .Goes ∧ w = disk) ∨
    ((moves Site.MakeDir.turn).fate = .Goes ∧ Left b3 source dest moves disk w)

theorem openSlot_new_world (hslot : disk.slots (directory b3 source dest) = .Absent) :
    Begun b3 source dest moves disk (openSlot b3 source dest true moves turn disk).world := by
  unfold openSlot
  rw [if_pos rfl]
  refine Answers.world (P := Begun b3 source dest moves disk)
    (Site.answers (answers_makeDir hmoves hslot rfl)) ?_ ?_
  · exact fun hmade => .inr ⟨hmade, openOwner_new_world hmoves hslot hmade⟩
  · rintro hmade w rfl
    exact .inl ⟨hmade, rfl⟩

end InstallTemporary

end Mediaops.Install
