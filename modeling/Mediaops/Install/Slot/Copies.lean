import Mediaops.Core.Paths
import Mediaops.Install.Paths
import Mediaops.Install.Slot.Calls

namespace Mediaops.Install

open Transfer (Volume onVolume look step change stat openFile)

-- The copy in a slot, call by call: what the disk holds when it is linked to its
-- destination, and what it holds when the run ends before.

section Names

-- A name that is a component on its own.
structure Plain (name : Text) : Prop where
  noSlash : '/' ∉ name
  nonempty : name ≠ []
  noDot : name ≠ ".".toList

variable {front name : Text}

theorem Plain.split (h : Plain name) : Text.split (· == '/') name = [name] :=
  Text.split_of_free fun c hc => by
    simp only [beq_eq_false_iff_ne, ne_eq]
    rintro rfl
    exact h.noSlash hc

theorem Plain.split_append (h : Plain name) (front : Text) :
    Text.split (· == '/') (front ++ '/' :: name) = Text.split (· == '/') front ++ [name] := by
  rw [← h.split]
  exact Text.split_append (by simp) ..

theorem Plain.named (h : Plain name) (init : List Text) :
    parentOf.named (init ++ [name]) = init ++ [name] := by
  have hkept : ¬(decide (name = []) || decide (name = ".".toList)) = true := by
    rw [decide_eq_false h.nonempty, decide_eq_false h.noDot]
    simp
  unfold parentOf.named
  rw [List.rdropWhile_concat, if_neg hkept]

theorem Plain.parentOf (h : Plain name) (front : Text) :
    parentOf (front ++ '/' :: name) =
      Text.joinWith '/' (parentOf.named (Text.split (· == '/') front)) := by
  rw [Install.parentOf, h.split_append, h.named, List.dropLast_concat]

theorem Plain.relative (h : Plain name) : Path.isAbsolute name = false := by
  obtain ⟨c, rest, rfl⟩ := List.exists_cons_of_ne_nil h.nonempty
  refine Path.isAbsolute_of_head rfl ?_
  rintro rfl
  exact h.noSlash List.mem_cons_self

-- A joined path ends with the name as its last piece.
theorem Plain.split_join (h : Plain name) (root : Text) :
    ∃ init, Text.split (· == '/') (Path.join root name) = init ++ [name] := by
  unfold Path.join
  rw [h.relative, if_neg Bool.false_ne_true]
  by_cases hroot : root = [] ∨ root.getLast? = some '/'
  · rw [if_pos hroot]
    rcases hroot with rfl | hroot
    · exact ⟨[], h.split⟩
    · obtain ⟨front, rfl⟩ := List.getLast?_eq_some_iff.mp hroot
      rw [List.append_assoc]
      exact ⟨_, h.split_append front⟩
  · rw [if_neg hroot, List.append_assoc]
    exact ⟨_, h.split_append root⟩

theorem Plain.parentOf_join (h : Plain name) {last root : Text} (hlast : Plain last) :
    Install.parentOf (Path.join (Path.join root last) name) = Path.join root last := by
  obtain ⟨init, hinit⟩ := hlast.split_join root
  have hends : ¬(Path.join root last = [] ∨ (Path.join root last).getLast? = some '/') := by
    rintro (hnil | hslash)
    · rw [hnil] at hinit
      have hlen := congrArg List.getLast? hinit
      rw [List.getLast?_concat] at hlen
      exact hlast.nonempty (Option.some.inj hlen).symm
    · obtain ⟨front, hfront⟩ := List.getLast?_eq_some_iff.mp hslash
      have hsplit : Text.split (· == '/') (front ++ '/' :: []) =
          Text.split (· == '/') front ++ Text.split (· == '/') [] := Text.split_append (by simp) ..
      have hempty : Text.split (· == '/') [] = [[]] := rfl
      rw [hfront, hsplit, hempty] at hinit
      have hlen := congrArg List.getLast? hinit
      rw [List.getLast?_concat, List.getLast?_concat] at hlen
      exact hlast.nonempty (Option.some.inj hlen).symm
  have hjoin : Path.join (Path.join root last) name = Path.join root last ++ '/' :: name := by
    conv_lhs => rw [Path.join]
    rw [h.relative, if_neg Bool.false_ne_true, if_neg hends, List.append_assoc]
    rfl
  rw [hjoin, h.parentOf, hinit, hlast.named, ← hinit, Text.joinWith_split]

theorem plain_slot (b3 : Bytes → Blake3Hex) (source dest : Text) :
    Plain (".mediaops-install-".toList ++ (b3 (InstallTemporary.identity source dest)).text) where
  noSlash hmem := by
    rcases List.mem_append.mp hmem with hmem | hmem
    · exact absurd hmem (by decide)
    · have hvalid := (b3 (InstallTemporary.identity source dest)).valid
      simp only [isLowercaseB3Hex, Bool.and_eq_true, List.all_eq_true] at hvalid
      exact absurd (hvalid.2 _ hmem) (by decide)
  nonempty := by simp
  noDot h := by
    have hlen := congrArg List.length h
    simp at hlen

-- The copy in the slot is another file than the destination.
theorem dest_ne_slotData (b3 : Bytes → Blake3Hex) (source dest : Text) :
    dest ≠ (InstallTemporary.paths b3 source dest).data := by
  intro hsame
  have hdata : Plain "data".toList := ⟨by decide, by decide, by decide⟩
  have hparent : parentOf dest = Path.join (parentOf dest)
      (".mediaops-install-".toList ++ (b3 (InstallTemporary.identity source dest)).text) := by
    conv_lhs => rw [hsame]
    exact hdata.parentOf_join (plain_slot b3 source dest)
  have hlen := congrArg List.length hparent
  unfold Path.join at hlen
  rw [(plain_slot b3 source dest).relative, if_neg Bool.false_ne_true] at hlen
  split at hlen
  · simp at hlen
  · simp at hlen

end Names

section Calls

variable {moves : Nat → Move Disk} {turn : Nat} {disk : Disk} {H : Disk → Prop} {files : Files Text}
  (hmoves : Undisturbed moves)

include hmoves

theorem answers_createNew {path : Text} {k : Nat}
    (hcreate : disk.volume.files.create path = .ok (k, files)) (hhalt : H disk) :
    Answers moves turn (createNew path : Prog Disk InstallError Nat) turn disk k
      (disk.withFiles files) H := by
  refine answers_onVolume hmoves ?_ fun _ _ => hhalt
  simp only [hcreate]
  rfl

theorem answers_copyChunks {paths : Paths} {i k : Nat}
    (hhalt : ∀ bytes, H (disk.withFiles (disk.volume.files.store k bytes))) :
    Answers moves turn (copyChunks paths i k : Prog Disk InstallError Unit) turn disk ()
      (disk.withFiles (disk.volume.files.store k (disk.volume.files.data i))) H :=
  answers_onVolume hmoves rfl fun _ _ => hhalt _

theorem answers_hardLink {source dest : Text} (hpick : (moves turn).pick = 0)
    (hlink : disk.volume.files.link source dest = .ok files) (hhalt : H disk) :
    Answers moves turn (hardLink source dest : Prog Disk InstallError LinkResult) turn disk
      .Linked (disk.withFiles files) H := by
  refine answers_onVolume hmoves ?_ fun _ _ => hhalt
  simp only [hpick, hlink]
  rfl

theorem answers_crossing {source dest : Text} (hpick : (moves turn).pick ≠ 0) (hhalt : H disk) :
    Answers moves turn (hardLink source dest : Prog Disk InstallError LinkResult) turn disk
      .CrossesDevices disk H := by
  refine answers_onVolume hmoves ?_ fun _ _ => hhalt
  simp only [hpick, if_false]
  rfl

-- A link never replaces.
theorem refused_hardLink {source dest : Text} (hpick : (moves turn).pick = 0)
    (hdest : disk.volume.files.node dest ≠ none) (hhalt : H disk) :
    Refused moves turn (hardLink source dest : Prog Disk InstallError LinkResult) disk H := by
  cases hlink : disk.volume.files.link source dest with
  | ok files =>
      obtain ⟨i, -, hfree, -⟩ := Files.link_ok hlink
      exact absurd hfree hdest
  | error e =>
      cases e with
      | AlreadyExists =>
          refine refused_onVolume hmoves (e := .DestinationExists dest) ?_ hhalt fun _ => hhalt
          simp only [hpick, hlink]
          rfl
      | NotFound =>
          refine refused_onVolume hmoves (e := .Io source) ?_ hhalt fun _ => hhalt
          simp only [hpick, hlink]
          rfl
      | NotFile =>
          refine refused_onVolume hmoves (e := .Io source) ?_ hhalt fun _ => hhalt
          simp only [hpick, hlink]
          rfl

end Calls

namespace InstallTemporary

variable {moves : Nat → Move Disk} {turn : Nat} {disk : Disk} {b3 : Bytes → Blake3Hex}
  {source dest : Text} {media : Bool}

def checkTurns (site : Site) (media : Bool) : List Nat := if media then [site.turn] else []

-- The calls of the copy in the slot.
def fillTurns (paths : Paths) (files : Files Text) (media : Bool) : List Nat :=
  clearTurns paths files Site.Clear.turn ++ (checkTurns .Check media ++
    Site.Source.turn :: Site.SourceMetadata.turn :: Site.Create.turn :: Site.Chunks.turn ::
      Site.SyncData.turn :: checkTurns .CheckCopied media)

-- Nothing is at the destination through this run: at most the slot's data is gone, or
-- is a new file.
def Unlinked (paths : Paths) (disk w : Disk) : Prop :=
  w = disk ∨ ∃ files, w = disk.withFiles files ∧
    (files = cleared paths disk.volume.files ∨
      Files.Adds (cleared paths disk.volume.files) files [paths.data])

-- The whole copy is a new file, at these names.
def Copied (paths : Paths) (bytes : Bytes) (names : List Text) (disk w : Disk) : Prop :=
  ∃ files, w = disk.withFiles files ∧
    Files.Adds (cleared paths disk.volume.files) files names ∧
    files.data (cleared paths disk.volume.files).next = bytes

theorem Copied.unlinked {paths : Paths} {bytes : Bytes} {w : Disk}
    (h : Copied paths bytes [paths.data] disk w) : Unlinked paths disk w := by
  obtain ⟨files, hw, hadds, -⟩ := h
  exact .inr ⟨files, hw, .inr hadds⟩

variable (hmoves : Undisturbed moves)

include hmoves

theorem passes_check {H : Disk → Prop} (site : Site) (hhalt : H disk) :
    Passes moves turn (site.run (check media)) (checkTurns site media) disk
      (fun _ _ w => w = disk) H := by
  cases media with
  | false => exact passes_pure (A := fun _ _ w => w = disk) rfl
  | true => exact Answers.passes (Site.answers (answers_step hmoves hhalt)) rfl

theorem passes_fillData {i : Nat} (hclean : Clean (paths b3 source dest) disk.volume.files)
    (hsource : (cleared (paths b3 source dest) disk.volume.files).node source =
      some (.File i)) :
    Passes moves turn (fillData b3 source dest media)
      (fillTurns (paths b3 source dest) disk.volume.files media) disk
      (fun _ _ w => Copied (paths b3 source dest) (disk.volume.files.data i)
        [(paths b3 source dest).data] disk w)
      (Unlinked (paths b3 source dest) disk) := by
  unfold fillData fillTurns
  dsimp only
  refine Passes.bind (Site.passes (Passes.mono (passes_clearData hmoves hclean)
    (fun _ _ _ hw => hw) ?_)) ?_
  · rintro w (rfl | rfl)
    · exact .inl rfl
    · exact .inr ⟨_, rfl, .inl rfl⟩
  rintro _ turn _ rfl
  have hcleared : Unlinked (paths b3 source dest) disk
      (disk.withFiles (cleared (paths b3 source dest) disk.volume.files)) :=
    .inr ⟨_, rfl, .inl rfl⟩
  refine Passes.bind (passes_check hmoves .Check hcleared) ?_
  rintro _ turn _ rfl
  refine Answers.bind (Site.answers (answers_openFile hmoves hsource hcleared)) ?_
  refine Answers.bind (Site.answers (answers_step hmoves hcleared)) ?_
  have hdata : (cleared (paths b3 source dest) disk.volume.files).node
      (paths b3 source dest).data = none := by
    rw [node_cleared, if_pos rfl]
  obtain ⟨created, hcreate⟩ := Files.create_free hdata
  obtain ⟨-, hadds⟩ := Files.adds_create hcreate
  have hunfinished : ∀ bytes, Unlinked (paths b3 source dest) disk
      (disk.withFiles (created.store (cleared (paths b3 source dest) disk.volume.files).next
        bytes)) :=
    fun bytes => .inr ⟨_, rfl, .inr (hadds.store bytes)⟩
  refine Answers.bind (Site.answers (answers_createNew hmoves hcreate hcleared)) ?_
  refine Answers.bind (Site.answers (answers_copyChunks hmoves hunfinished)) ?_
  refine Answers.bind (Site.answers (answers_step hmoves (hunfinished _))) ?_
  refine Passes.mono (passes_check hmoves .CheckCopied (hunfinished _)) ?_ fun _ hw => hw
  rintro _ _ _ rfl
  refine ⟨_, rfl, hadds.store _, ?_⟩
  have hbytes : created.data i = disk.volume.files.data i := by
    rw [hadds.data i (Files.node_bound hsource), data_cleared]
  exact (Files.data_store ..).trans hbytes

theorem refused_fillData (h : Clean (paths b3 source dest) disk.volume.files →
      ∀ i, (cleared (paths b3 source dest) disk.volume.files).node source ≠ some (.File i)) :
    Refused moves turn (fillData b3 source dest media) disk
      (Unlinked (paths b3 source dest) disk) := by
  unfold fillData
  dsimp only
  by_cases hclean : Clean (paths b3 source dest) disk.volume.files
  · have hcleared : Unlinked (paths b3 source dest) disk
        (disk.withFiles (cleared (paths b3 source dest) disk.volume.files)) :=
      .inr ⟨_, rfl, .inl rfl⟩
    refine Passes.refused (Site.passes (Passes.mono (passes_clearData hmoves hclean)
      (fun _ _ _ hw => hw) ?_)) ?_
    · rintro w (rfl | rfl)
      · exact .inl rfl
      · exact hcleared
    rintro _ turn _ rfl
    refine Passes.refused (passes_check hmoves .Check hcleared) ?_
    rintro _ turn _ rfl
    refine Refused.bind (Site.refused (refused_look hmoves (e := .Io source) ?_ hcleared)) _
    split
    · rename_i i hnode
      exact absurd hnode (h hclean i)
    · rfl
  · refine Refused.bind (Refused.mono (Site.refused (refused_clearData hmoves hclean)) ?_) _
    rintro w rfl
    exact .inl rfl

-- From a whole copy, on one device, to a destination that is free.
theorem passes_linkData {bytes : Bytes} {w : Disk}
    (h : Copied (paths b3 source dest) bytes [(paths b3 source dest).data] disk w)
    (hdest : (cleared (paths b3 source dest) disk.volume.files).node dest = none)
    (hpick : (moves Site.LinkData.turn).pick = 0) :
    Passes moves turn (linkData b3 source dest) [Site.LinkData.turn] w
      (fun _ _ w => Copied (paths b3 source dest) bytes [dest, (paths b3 source dest).data] disk w)
      (Unlinked (paths b3 source dest) disk) := by
  have hunlinked := h.unlinked
  obtain ⟨files, rfl, hadds, hbytes⟩ := h
  have hfrom : files.node (paths b3 source dest).data =
      some (.File (cleared (paths b3 source dest) disk.volume.files).next) := by
    rw [hadds.node, if_pos List.mem_cons_self]
  have hto : files.node dest = none := by
    rw [hadds.node, if_neg (by simpa using dest_ne_slotData b3 source dest)]
    exact hdest
  obtain ⟨linked, hlink⟩ := Files.link_free hfrom hto
  obtain ⟨hlinked, hdata⟩ := hadds.link List.mem_cons_self hlink
  unfold linkData
  refine Answers.bind (Site.answers (answers_hardLink hmoves hpick hlink hunlinked)) ?_
  refine passes_pure ⟨linked, rfl, hlinked, ?_⟩
  rw [hdata, hbytes]

theorem refused_linkData {bytes : Bytes} {w : Disk}
    (h : Copied (paths b3 source dest) bytes [(paths b3 source dest).data] disk w)
    (hdest : (cleared (paths b3 source dest) disk.volume.files).node dest ≠ none ∨
      (moves Site.LinkData.turn).pick ≠ 0) :
    Refused moves turn (linkData b3 source dest) w (Unlinked (paths b3 source dest) disk) := by
  have hunlinked := h.unlinked
  obtain ⟨files, rfl, hadds, -⟩ := h
  unfold linkData
  by_cases hpick : (moves Site.LinkData.turn).pick = 0
  · have hthere : files.node dest ≠ none := by
      rw [hadds.node, if_neg (by simpa using dest_ne_slotData b3 source dest)]
      exact hdest.resolve_right fun h => h hpick
    exact Refused.bind (Site.refused (refused_hardLink hmoves hpick hthere hunlinked)) _
  · refine Answers.refused (Site.answers (answers_crossing hmoves hpick hunlinked)) ?_
    exact refused_throw hunlinked

-- The slot is cleared after the link.
def finishTurns : List Nat :=
  [Site.ClearLinked.turn, Site.ClearLinked.turn + 1, Site.ClearLinked.turn + 2,
    Site.ClearLinked.turn + 3, Site.ClearLinked.turn + 4, Site.SyncLinked.turn]

-- The copy is at its destination through this run.
def Placed (paths : Paths) (bytes : Bytes) (disk w : Disk) : Prop :=
  (cleared paths disk.volume.files).node paths.dest = none ∧
    (Copied paths bytes [paths.dest, paths.data] disk w ∨ Copied paths bytes [paths.dest] disk w)

theorem passes_finish {bytes : Bytes} {w : Disk}
    (hdest : (cleared (paths b3 source dest) disk.volume.files).node dest = none)
    (h : Copied (paths b3 source dest) bytes [dest, (paths b3 source dest).data] disk w) :
    Passes moves turn (do
        Site.ClearLinked.run (clearData (paths b3 source dest))
        Site.SyncLinked.run (step (.Io (parentOf dest)))) finishTurns w
      (fun _ _ w => Copied (paths b3 source dest) bytes [dest] disk w)
      (Placed (paths b3 source dest) bytes disk) := by
  have hplaced : Placed (paths b3 source dest) bytes disk w := ⟨hdest, .inl h⟩
  obtain ⟨files, rfl, hadds, hbytes⟩ := h
  have hnodup : [dest, (paths b3 source dest).data].Nodup := by
    simpa using dest_ne_slotData b3 source dest
  have hnode : files.node (paths b3 source dest).data =
      some (.File (cleared (paths b3 source dest) disk.volume.files).next) := by
    rw [hadds.node, if_pos (by simp)]
  have htwo : files.nlink (cleared (paths b3 source dest) disk.volume.files).next = 2 :=
    hadds.nlink_new hnodup
  have hclean : Clean (paths b3 source dest) files := by
    intro node hfound
    rw [hnode] at hfound
    cases hfound
    refine ⟨_, rfl, .inr ⟨htwo, ?_⟩⟩
    exact (hadds.node _).trans (if_pos List.mem_cons_self)
  have hturns : clearTurns (paths b3 source dest) files Site.ClearLinked.turn =
      [Site.ClearLinked.turn, Site.ClearLinked.turn + 1, Site.ClearLinked.turn + 2,
        Site.ClearLinked.turn + 3, Site.ClearLinked.turn + 4] := by
    unfold clearTurns
    rw [hnode]
    exact if_pos htwo
  have hdone : Copied (paths b3 source dest) bytes [dest] disk
      (disk.withFiles (cleared (paths b3 source dest) files)) := by
    refine ⟨_, rfl, ?_, ?_⟩
    · have hdrop : cleared (paths b3 source dest) files =
          files.drop (paths b3 source dest).data := if_neg (by rw [hnode]; simp)
      rw [hdrop]
      have hboth : Files.Adds (cleared (paths b3 source dest) disk.volume.files) files
          ([dest] ++ [(paths b3 source dest).data]) := hadds
      apply hboth.drop
      · simpa using (dest_ne_slotData b3 source dest).symm
      · rw [node_cleared, if_pos rfl]
    · rw [data_cleared, hbytes]
  have hclear : Passes moves Site.ClearLinked.turn
      (clearData (paths b3 source dest) : Prog Disk InstallError Unit)
      [Site.ClearLinked.turn, Site.ClearLinked.turn + 1, Site.ClearLinked.turn + 2,
        Site.ClearLinked.turn + 3, Site.ClearLinked.turn + 4] (disk.withFiles files)
      (fun _ _ w => w = disk.withFiles (cleared (paths b3 source dest) files))
      (fun w => w = disk.withFiles files ∨
        w = disk.withFiles (cleared (paths b3 source dest) files)) := by
    rw [← hturns]
    exact @passes_clearData moves _ (disk.withFiles files) _ hmoves hclean
  refine Passes.bind (Site.passes (Passes.mono hclear (fun _ _ _ hw => hw) ?_)) ?_
  · rintro w (rfl | rfl)
    · exact hplaced
    · exact ⟨hdest, .inr hdone⟩
  · rintro _ _ _ rfl
    exact Answers.passes (Site.answers (answers_step hmoves ⟨hdest, .inr hdone⟩)) hdone

-- What a copy needs of the disk, once there is a slot.
structure Linkable (b3 : Bytes → Blake3Hex) (source dest : Text) (disk : Disk) (i : Nat) :
    Prop where
  clean : Clean (paths b3 source dest) disk.volume.files
  copied : (cleared (paths b3 source dest) disk.volume.files).node source = some (.File i)
  free : (cleared (paths b3 source dest) disk.volume.files).node dest = none

def copyTurns (paths : Paths) (files : Files Text) (media : Bool) : List Nat :=
  fillTurns paths files media ++ ([Site.LinkData.turn] ++ finishTurns)

theorem passes_copyThrough {i : Nat} (h : Linkable b3 source dest disk i)
    (hpick : (moves Site.LinkData.turn).pick = 0) :
    Passes moves turn (copyThrough b3 source dest media)
      (copyTurns (paths b3 source dest) disk.volume.files media) disk
      (fun _ _ w => Copied (paths b3 source dest) (disk.volume.files.data i) [dest] disk w)
      (fun w => Unlinked (paths b3 source dest) disk w ∨
        Placed (paths b3 source dest) (disk.volume.files.data i) disk w) := by
  unfold copyThrough copyTurns
  refine Passes.bind (Passes.mono (passes_fillData hmoves h.clean h.copied)
    (fun _ _ _ hw => hw) fun _ => .inl) ?_
  intro _ next w hw
  refine Passes.bind (Passes.mono (passes_linkData hmoves hw h.free hpick)
    (fun _ _ _ hw => hw) fun _ => .inl) ?_
  intro _ next w hw
  exact Passes.mono (passes_finish hmoves h.free hw) (fun _ _ _ hw => hw) fun _ => .inr

theorem refused_copyThrough
    (h : ∀ i, Linkable b3 source dest disk i → (moves Site.LinkData.turn).pick ≠ 0) :
    Refused moves turn (copyThrough b3 source dest media) disk
      (Unlinked (paths b3 source dest) disk) := by
  unfold copyThrough
  by_cases hgood : Clean (paths b3 source dest) disk.volume.files ∧
      ∃ i, (cleared (paths b3 source dest) disk.volume.files).node source = some (.File i)
  · obtain ⟨hclean, i, hsource⟩ := hgood
    refine Passes.refused (passes_fillData hmoves hclean hsource) ?_
    intro _ next w hw
    refine Refused.bind (refused_linkData hmoves hw ?_) _
    by_cases hdest : (cleared (paths b3 source dest) disk.volume.files).node dest = none
    · exact .inr (h i ⟨hclean, hsource, hdest⟩)
    · exact .inl hdest
  · refine Refused.bind (refused_fillData hmoves ?_) _
    exact fun hclean i hsource => hgood ⟨hclean, i, hsource⟩

end InstallTemporary

end Mediaops.Install
