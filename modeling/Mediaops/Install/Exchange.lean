import Mediaops.Install.Errors
import Mediaops.Install.Slot.Theorems

namespace Mediaops.Install

-- The exits of a replacement: at which call it ends, and what the disk is then.

open Transfer (Volume look step change stat openFile)
open InstallTemporary

-- The files are as they were, but for the data in a slot.
structure Mended (data : Text) (files files' : Files Text) : Prop where
  node : ∀ path, path ≠ data → files'.node path = files.node path
  bytes : ∀ i, i < files.next → files'.data i = files.data i
  slot : files'.node data = files.node data ∨ files'.node data = none ∨
    files'.node data = some (.File files.next)

section Mended

variable {data path dest : Text} {files files' : Files Text} {paths : Paths} {disk w : Disk}
  {bytes : Bytes}

theorem Mended.refl (data : Text) (files : Files Text) : Mended data files files where
  node _ _ := rfl
  bytes _ _ := rfl
  slot := .inl rfl

theorem Mended.content (h : Mended data files files') (hpath : path ≠ data) :
    files'.content path = files.content path := by
  unfold Files.content
  rw [h.node path hpath]
  cases hnode : files.node path with
  | none => rfl
  | some node =>
      cases node with
      | File i => simp only [h.bytes i (Files.node_bound hnode)]
      | Other => rfl

-- The slot's data never becomes another name of a file that was there.
theorem Mended.node_old (h : Mended data files files') {i : Nat} (hi : i < files.next)
    (hnode : files'.node path = some (.File i)) : files.node path = some (.File i) := by
  by_cases hpath : path = data
  · subst hpath
    rcases h.slot with hsame | hnone | hnew
    · rw [← hsame, hnode]
    · rw [hnone] at hnode
      cases hnode
    · rw [hnew] at hnode
      simp only [Option.some.injEq, Node.File.injEq] at hnode
      omega
  · rw [← h.node path hpath, hnode]

theorem Mended.nlink (h : Mended data files files') (hpath : path ≠ data) {i : Nat}
    (hnode : files.node path = some (.File i)) (hone : files.nlink i = 1) :
    files'.nlink i = 1 := by
  have hsole : files.Sole path i := Files.sole_of_nlink hnode hone
  apply Files.nlink_eq (List.nodup_singleton path)
  intro m
  rw [List.mem_singleton]
  constructor
  · intro hm
    exact hsole.2 m (h.node_old (Files.node_bound hnode) hm)
  · rintro rfl
    rw [h.node m hpath, hnode]

theorem Mended.clean (h : Mended paths.data files files')
    (hclean : Clean paths files) : Clean paths files' := by
  intro node hnode
  rcases h.slot with hsame | hnone | hnew
  · obtain ⟨k, rfl, hlinks⟩ := hclean node (by rw [← hsame, hnode])
    have hall : ∀ m, files'.node m = files.node m := by
      intro m
      by_cases hm : m = paths.data
      · rw [hm, hsame]
      · exact h.node m hm
    have hcount : files'.nlink k = files.nlink k := by
      apply Files.nlink_congr
      intro m
      rw [hall m]
    rw [← hcount, ← hall] at hlinks
    exact ⟨k, rfl, hlinks⟩
  · rw [hnone] at hnode
    cases hnode
  · rw [hnew] at hnode
    cases hnode
    refine ⟨_, rfl, .inl ?_⟩
    apply Files.nlink_eq (List.nodup_singleton paths.data)
    intro m
    rw [List.mem_singleton]
    constructor
    · intro hm
      by_contra hne
      rw [h.node m hne] at hm
      exact absurd (Files.node_bound hm) (Nat.lt_irrefl _)
    · rintro rfl
      exact hnew

theorem mended_cleared (paths : Paths) (files : Files Text) :
    Mended paths.data files (cleared paths files) where
  node path hpath := (node_cleared ..).trans (if_neg hpath)
  bytes i _ := by rw [data_cleared]
  slot := .inr (.inl ((node_cleared ..).trans (if_pos rfl)))

theorem mended_adds {names : List Text} (hadds : Files.Adds (cleared paths files) files' names)
    (hnames : ∀ name ∈ names, name = paths.data) : Mended paths.data files files' where
  node path hpath := by
    have hother : path ∉ names := fun hmem => hpath (hnames path hmem)
    rw [hadds.node, if_neg hother, node_cleared, if_neg hpath]
  bytes i hi := by rw [hadds.data i (by rwa [next_cleared]), data_cleared]
  slot := by
    rw [hadds.node, next_cleared]
    by_cases hmem : paths.data ∈ names
    · rw [if_pos hmem]
      exact .inr (.inr rfl)
    · rw [if_neg hmem, node_cleared, if_pos rfl]
      exact .inr (.inl rfl)

theorem InstallTemporary.Unlinked.mended (h : Unlinked paths disk w) :
    Mended paths.data disk.volume.files w.volume.files := by
  rcases h with rfl | ⟨files, rfl, rfl | hadds⟩
  · exact Mended.refl _ _
  · exact mended_cleared paths _
  · exact mended_adds hadds fun name hmem => List.mem_singleton.mp hmem

-- A copy that loses its name again.
theorem InstallTemporary.Copied.mended (h : Copied paths bytes [dest] disk w)
    (hfree : (cleared paths disk.volume.files).node dest = none) :
    Mended paths.data disk.volume.files (w.volume.files.drop dest) := by
  obtain ⟨files, rfl, hadds, -⟩ := h
  have hnames : Files.Adds (cleared paths disk.volume.files) files ([] ++ [dest]) := hadds
  have hnone : Files.Adds (cleared paths disk.volume.files) (files.drop dest) [] :=
    hnames.drop List.not_mem_nil hfree
  exact mended_adds hnone fun name hmem => absurd hmem List.not_mem_nil

theorem mended_link {source : Text} (hlink : files.link source dest = .ok files') :
    Mended data files (files'.drop dest) := by
  obtain ⟨i, -, hfree, hdata, -, hnode⟩ := Files.link_ok hlink
  have hsame : ∀ path, (files'.drop dest).node path = files.node path := by
    intro path
    rw [Files.node_drop, hnode]
    by_cases hpath : path = dest
    · rw [if_pos hpath, hpath, hfree]
    · rw [if_neg hpath, if_neg hpath]
  exact ⟨fun path _ => hsame path, fun i _ => congrFun hdata i, .inl (hsame data)⟩

end Mended

section Stages

variable (b3 : Bytes → Blake3Hex) (moves : Nat → Move Disk) (source dest backup : Text)

-- What a disk has when the live file can be replaced, on one device or across.
structure Replaceable (disk : Disk) : Prop where
  live : ∃ l, disk.volume.files.node dest = some (.File l)
  free : disk.volume.files.node backup = none
  converted : ∃ i, disk.volume.files.node source = some (.File i) ∧ disk.volume.files.nlink i = 1
  crossing : (moves Site.Link.turn).pick ≠ 0 →
    Joined b3 dest backup disk ∧ Clean (paths b3 dest backup) disk.volume.files ∧
      (moves Site.LinkData.turn).pick = 0

-- The calls before the backup is made, but for the look at its place.
def lookTurns : List Nat :=
  [Site.Live.turn, Site.Parents.turn, Site.Conversion.turn, Site.Metadata.turn, Site.Schema.turn,
    Site.Readable.turn]

structure Looked : Prop where
  looks : AllGo moves lookTurns
  seen : ∀ part, (moves Site.Backup.turn).fate ≠ .Stops part

def slotTurns (disk : Disk) : List Nat :=
  if disk.slots (directory b3 dest backup) = .Absent then newTurns
  else Site.MakeDir.turn :: joinTurns ++ [Site.ReadMarker.turn]

-- The calls that make the backup, the last of them its link.
def publishTurns (disk : Disk) : List Nat :=
  if (moves Site.Link.turn).pick = 0 then [Site.Link.turn]
  else Site.Link.turn :: (slotTurns b3 dest backup disk ++
    (fillTurns (paths b3 dest backup) disk.volume.files false ++ [Site.LinkData.turn]))

def settleTurns : List Nat :=
  if (moves Site.Link.turn).pick = 0 then [Site.SyncParent.turn] else finishTurns

-- The slot of the backup is left without its identity.
def SlotCut (disk : Disk) : Prop :=
  (moves Site.Link.turn).pick ≠ 0 ∧ (moves Site.Link.turn).fate = .Goes ∧
    Cut b3 dest backup moves disk

-- There is a backup, and without it the disk is as it was.
structure Backed (disk w : Disk) : Prop where
  there : w.volume.files.node backup ≠ none
  mended : Mended (paths b3 dest backup).data disk.volume.files (w.volume.files.drop backup)
  joined : Joined b3 dest backup disk → Joined b3 dest backup w

-- How a replacement ends, and what it leaves.
inductive Exit (disk : Disk) : Outcome InstallError Text → Disk → Prop
  | Refused {o w} (hnot : ¬Replaceable b3 moves source dest backup disk)
      (hdone : ∀ a, o ≠ .Done a)
      (hmended : Mended (paths b3 dest backup).data disk.volume.files w.volume.files) :
      Exit disk o w
  | Stayed {o} (hnot : ¬Looked moves) (hdone : ∀ a, o ≠ .Done a) : Exit disk o disk
  | Unmade {e w} (hlooked : Looked moves)
      (hfails : FailsFirst moves (publishTurns b3 moves dest backup disk))
      (hcommon : Common e)
      (hmended : Mended (paths b3 dest backup).data disk.volume.files w.volume.files)
      (hjoined : Joined b3 dest backup w ↔
        Joined b3 dest backup disk ∧ ¬SlotCut b3 moves dest backup disk) :
      Exit disk (.Failed e) w
  | Unsettled {e w} (h : Replaceable b3 moves source dest backup disk) (hlooked : Looked moves)
      (hgo : AllGo moves (publishTurns b3 moves dest backup disk))
      (hfails : FailsFirst moves (settleTurns moves)) (hcommon : Common e)
      (hthere : w.volume.files.node backup ≠ none) : Exit disk (.Failed e) w
  | Halted {w}
      (hstops : StopsFirst moves (publishTurns b3 moves dest backup disk ++ settleTurns moves)) :
      Exit disk .Stopped w
  | Undone {e w}
      (hgo : AllGo moves (publishTurns b3 moves dest backup disk ++ settleTurns moves))
      (hfails : FailsFirst moves [Site.Rename.turn])
      (hmended : Mended (paths b3 dest backup).data disk.volume.files w.volume.files)
      (hjoined : Joined b3 dest backup disk → Joined b3 dest backup w) : Exit disk (.Failed e) w
  | NotUndone {w}
      (hgo : AllGo moves (publishTurns b3 moves dest backup disk ++ settleTurns moves))
      (hfails : FailsFirst moves [Site.Rename.turn]) (path : Text) :
      Exit disk (.Failed (.RollbackFailed path)) w
  | Unsynced {e w} (h : Replaceable b3 moves source dest backup disk) (hlooked : Looked moves)
      (hgo : AllGo moves (publishTurns b3 moves dest backup disk ++ settleTurns moves))
      (hrename : (moves Site.Rename.turn).fate = .Goes)
      (hfails : FailsFirst moves [Site.SyncLive.turn]) (hcommon : Common e)
      (hthere : w.volume.files.node backup ≠ none) : Exit disk (.Failed e) w
  | Dropped {w}
      (hgo : AllGo moves (publishTurns b3 moves dest backup disk ++ settleTurns moves))
      (hnot : FailsFirst moves [Site.Rename.turn] ∨
        StopsFirst moves [Site.Rename.turn, Site.SyncLive.turn]) : Exit disk .Stopped w
  | Finished {a w} (h : Replaceable b3 moves source dest backup disk)
      (hgo : AllGo moves (publishTurns b3 moves dest backup disk ++ settleTurns moves))
      (hlast : AllGo moves [Site.Rename.turn, Site.SyncLive.turn]) : Exit disk (.Done a) w

end Stages

section Backup

variable {b3 : Bytes → Blake3Hex} {moves : Nat → Move Disk} {turn : Nat} {dest backup : Text}
  {disk : Disk} {i : Nat} (hmoves : Undisturbed moves)

include hmoves

-- The copy through a slot that is there: its backup stands from the link on.
theorem copyThrough_backs (hlinkable : Linkable b3 dest backup disk i)
    (hpick : (moves Site.LinkData.turn).pick = 0) :
    Passes moves turn (copyThrough b3 dest backup false)
      (fillTurns (paths b3 dest backup) disk.volume.files false ++
        ([Site.LinkData.turn] ++ finishTurns)) disk
      (fun _ _ w => w.volume.files.node backup ≠ none ∧
        Mended (paths b3 dest backup).data disk.volume.files (w.volume.files.drop backup))
      (fun w =>
        (AllGo moves (fillTurns (paths b3 dest backup) disk.volume.files false ++
          [Site.LinkData.turn]) ∧ w.volume.files.node backup ≠ none) ∨
        (¬AllGo moves (fillTurns (paths b3 dest backup) disk.volume.files false ++
          [Site.LinkData.turn]) ∧
          Mended (paths b3 dest backup).data disk.volume.files w.volume.files)) := by
  have hthere : ∀ bytes names w, Copied (paths b3 dest backup) bytes (backup :: names) disk w →
      w.volume.files.node backup ≠ none := by
    rintro bytes names w ⟨files, rfl, hadds, -⟩
    rw [Disk.withFiles_files, hadds.node, if_pos List.mem_cons_self]
    exact Option.some_ne_none _
  unfold copyThrough
  refine Passes.bind (Passes.mono (Passes.told (passes_fillData hmoves hlinkable.clean
    hlinkable.copied)) (fun _ _ _ hw => hw) ?_) ?_
  · rintro w ⟨hnot, hw⟩
    refine .inr ⟨fun hall => hnot (allGo_append.mp hall).1, hw.mended⟩
  rintro _ next w ⟨hfilled, hw⟩
  refine Passes.bind (Passes.mono (Passes.told (passes_linkData hmoves hw hlinkable.free hpick))
    (fun _ _ _ hw => hw) ?_) ?_
  · rintro w ⟨hnot, hw⟩
    refine .inr ⟨fun hall => hnot (allGo_append.mp hall).2, hw.mended⟩
  rintro _ next w ⟨hlinked, hw⟩
  refine Passes.mono (passes_finish hmoves hlinkable.free hw) ?_ ?_
  · intro _ _ w hw
    exact ⟨hthere _ _ w hw, hw.mended hlinkable.free⟩
  · rintro w ⟨-, hw | hw⟩
    · exact .inl ⟨allGo_append.mpr ⟨hfilled, hlinked⟩, hthere _ _ w hw⟩
    · exact .inl ⟨allGo_append.mpr ⟨hfilled, hlinked⟩, hthere _ _ w hw⟩

omit hmoves in
theorem InstallTemporary.Cut.not_allGo (h : Cut b3 dest backup moves disk) :
    ¬AllGo moves (slotTurns b3 dest backup disk) := by
  obtain ⟨habsent, -, hcut⟩ := h
  intro hall
  rw [slotTurns, if_pos habsent, newTurns] at hall
  rcases hcut with hnot | ⟨part, hcuts, -⟩
  · exact hnot fun turn hmem => hall turn (by simp [hmem])
  · rw [hall Site.WriteMarker.turn (by simp)] at hcuts
    exact Fate.not_cuts_goes hcuts

-- The copy to another device, with the slot that it takes.
theorem copyAcrossDevices_backs (hjoined : Joined b3 dest backup disk)
    (hlinkable : Linkable b3 dest backup disk i) (hpick : (moves Site.LinkData.turn).pick = 0) :
    Passes moves turn (InstallTemporary.copyAcrossDevices b3 dest backup false)
      (slotTurns b3 dest backup disk ++
        (fillTurns (paths b3 dest backup) disk.volume.files false ++
          ([Site.LinkData.turn] ++ finishTurns))) disk
      (fun _ _ w => w.volume.files.node backup ≠ none ∧
        Mended (paths b3 dest backup).data disk.volume.files (w.volume.files.drop backup))
      (fun w =>
        (AllGo moves (slotTurns b3 dest backup disk ++
          (fillTurns (paths b3 dest backup) disk.volume.files false ++ [Site.LinkData.turn])) ∧
            w.volume.files.node backup ≠ none) ∨
        (¬AllGo moves (slotTurns b3 dest backup disk ++
          (fillTurns (paths b3 dest backup) disk.volume.files false ++ [Site.LinkData.turn])) ∧
          Mended (paths b3 dest backup).data disk.volume.files w.volume.files)) := by
  -- From the slot on, on a disk with the same files.
  have hrest : ∀ w turn, w.volume = disk.volume → AllGo moves (slotTurns b3 dest backup disk) →
      Passes moves turn (copyThrough b3 dest backup false)
        (fillTurns (paths b3 dest backup) disk.volume.files false ++
          ([Site.LinkData.turn] ++ finishTurns)) w
        (fun _ _ w => w.volume.files.node backup ≠ none ∧
          Mended (paths b3 dest backup).data disk.volume.files (w.volume.files.drop backup))
        (fun w =>
          (AllGo moves (slotTurns b3 dest backup disk ++
            (fillTurns (paths b3 dest backup) disk.volume.files false ++ [Site.LinkData.turn])) ∧
              w.volume.files.node backup ≠ none) ∨
          (¬AllGo moves (slotTurns b3 dest backup disk ++
            (fillTurns (paths b3 dest backup) disk.volume.files false ++ [Site.LinkData.turn])) ∧
            Mended (paths b3 dest backup).data disk.volume.files w.volume.files)) := by
    intro w turn hvolume hslot
    have hlinkable' : Linkable b3 dest backup w i := by
      obtain ⟨hclean, hcopied, hfree⟩ := hlinkable
      exact ⟨by rwa [hvolume], by rwa [hvolume], by rwa [hvolume]⟩
    rw [← hvolume]
    refine Passes.mono (copyThrough_backs hmoves hlinkable' hpick) (fun _ _ _ hw => hw) ?_
    intro w hw
    rw [allGo_append]
    exact hw.imp (fun h => ⟨⟨hslot, h.1⟩, h.2⟩) fun h => ⟨fun hall => h.1 hall.2, h.2⟩
  unfold InstallTemporary.copyAcrossDevices
  rcases hjoined with habsent | hsaved
  · rw [slotTurns, if_pos habsent] at hrest ⊢
    refine Passes.bind (Passes.mono (Passes.told ((passes_openSlot_new hmoves habsent).and_world
      (openSlot_new_world hmoves habsent))) (fun _ _ _ hw => hw) ?_) ?_
    · rintro w ⟨hnot, -, hbegun⟩
      refine .inr ⟨fun hall => hnot (allGo_append.mp hall).1, ?_⟩
      rcases hbegun with ⟨-, rfl⟩ | ⟨-, found, rfl, -⟩
      · exact Mended.refl _ _
      · exact Mended.refl _ _
    · rintro _ next w ⟨hslot, ⟨-, rfl⟩, -⟩
      exact hrest _ next rfl hslot
  · have hthere : disk.slots (directory b3 dest backup) ≠ .Absent := by simp [hsaved]
    rw [slotTurns, if_neg hthere] at hrest ⊢
    refine Passes.bind (Passes.mono (Passes.told (passes_openSlot_made hmoves hsaved))
      (fun _ _ _ hw => hw) ?_) ?_
    · rintro w ⟨hnot, rfl⟩
      exact .inr ⟨fun hall => hnot (allGo_append.mp hall).1, Mended.refl _ _⟩
    · rintro _ next w ⟨hslot, -, rfl⟩
      exact hrest _ next rfl hslot

-- The backup is made on one device or across, or is not made.
theorem copyIntoPlace_backs {source : Text}
    (h : Replaceable b3 moves source dest backup disk)
    (hdest : dest ≠ (paths b3 dest backup).data) :
    Passes moves turn (copyIntoPlace b3 dest backup)
      (publishTurns b3 moves dest backup disk ++ settleTurns moves) disk
      (fun _ _ w => Backed b3 dest backup disk w)
      (fun w =>
        (AllGo moves (publishTurns b3 moves dest backup disk) ∧
          w.volume.files.node backup ≠ none) ∨
        (¬AllGo moves (publishTurns b3 moves dest backup disk) ∧
          Mended (paths b3 dest backup).data disk.volume.files w.volume.files ∧
          (Joined b3 dest backup w ↔
            Joined b3 dest backup disk ∧ ¬SlotCut b3 moves dest backup disk))) := by
  obtain ⟨⟨l, hlive⟩, hfree, -, hcrossing⟩ := h
  -- Before the link has gone through nothing is changed.
  have hsame : ∀ w, ¬AllGo moves [Site.Link.turn] ∧ w = disk →
      Mended (paths b3 dest backup).data disk.volume.files w.volume.files ∧
        (Joined b3 dest backup w ↔
          Joined b3 dest backup disk ∧ ¬SlotCut b3 moves dest backup disk) := by
    rintro w ⟨hnot, rfl⟩
    refine ⟨Mended.refl _ _, fun hjoined => ⟨hjoined, fun hcut => hnot ?_⟩, And.left⟩
    exact fun turn hmem => by rw [List.mem_singleton.mp hmem, hcut.2.1]
  unfold copyIntoPlace
  by_cases hpick : (moves Site.Link.turn).pick = 0
  · rw [publishTurns, if_pos hpick, settleTurns, if_pos hpick]
    obtain ⟨linked, hlink⟩ := Files.link_free hlive hfree
    refine Passes.bind (Passes.mono (Passes.told (Site.answers (answers_hardLink (H := (· = disk))
      hmoves hpick hlink rfl))) (fun _ _ _ hw => hw) ?_) ?_
    · exact fun w hw => .inr ⟨hw.1, hsame w hw⟩
    rintro _ next w ⟨hgo, rfl, -, rfl⟩
    have hthere : linked.node backup ≠ none := by
      obtain ⟨j, -, -, -, -, hnode⟩ := Files.link_ok hlink
      rw [hnode, if_pos rfl]
      exact Option.some_ne_none _
    refine Answers.passes (Site.answers (answers_step hmoves (.inl ⟨hgo, hthere⟩))) ?_
    exact ⟨hthere, mended_link hlink, id⟩
  · obtain ⟨hjoined, hclean, hdata⟩ := hcrossing hpick
    have hlinkable : Linkable b3 dest backup disk l := by
      refine ⟨hclean, ?_, ?_⟩
      · rw [node_cleared, if_neg hdest, hlive]
      · rw [node_cleared, if_neg (dest_ne_slotData b3 dest backup), hfree]
    have hturns : publishTurns b3 moves dest backup disk ++ settleTurns moves =
        [Site.Link.turn] ++ (slotTurns b3 dest backup disk ++
          (fillTurns (paths b3 dest backup) disk.volume.files false ++
            ([Site.LinkData.turn] ++ finishTurns))) := by
      rw [publishTurns, if_neg hpick, settleTurns, if_neg hpick]
      simp
    have hpublish : AllGo moves (publishTurns b3 moves dest backup disk) ↔
        AllGo moves [Site.Link.turn] ∧ AllGo moves (slotTurns b3 dest backup disk ++
          (fillTurns (paths b3 dest backup) disk.volume.files false ++ [Site.LinkData.turn])) := by
      rw [publishTurns, if_neg hpick, ← allGo_append]
      rfl
    rw [hturns, hpublish]
    refine Passes.bind (Passes.mono (Passes.told (Site.answers (answers_crossing (H := (· = disk))
      hmoves hpick rfl))) (fun _ _ _ hw => hw) ?_) ?_
    · exact fun w hw => .inr ⟨fun hall => hw.1 hall.1, hsame w hw⟩
    rintro _ next w ⟨hgo, rfl, -, rfl⟩
    have hleaves := (copyAcrossDevices_leaves hmoves false next hdest
      ⟨Files.content_file hlive, hclean⟩).joined
    have hiff : SlotCut b3 moves dest backup w ↔ Cut b3 dest backup moves w :=
      ⟨fun hcut => hcut.2.2, fun hcut => ⟨hpick, hgo _ List.mem_cons_self, hcut⟩⟩
    rw [← hiff] at hleaves
    have hbacks := Passes.and_world (P := fun w' => Joined b3 dest backup w' ↔
      Joined b3 dest backup w ∧ ¬SlotCut b3 moves dest backup w)
      (copyAcrossDevices_backs hmoves hjoined hlinkable hdata) hleaves
    refine Passes.mono (Passes.told hbacks) ?_ ?_
    · rintro _ _ w ⟨hall, ⟨hthere, hmended⟩, hjoin⟩
      refine ⟨hthere, hmended, fun hjoined => hjoin.mpr ⟨hjoined, fun hcut => ?_⟩⟩
      exact hcut.2.2.not_allGo (allGo_append.mp hall).1
    · rintro w ⟨-, ⟨hall, hthere⟩ | ⟨hnot, hmended⟩, hjoin⟩
      · exact .inl ⟨⟨hgo, hall⟩, hthere⟩
      · exact .inr ⟨fun hall => hnot hall.2, hmended, hjoin⟩

-- Without what it needs the backup is not made, and nothing but the slot is touched.
theorem copyIntoPlace_refused (hnot : disk.volume.files.node backup = none →
      (moves Site.Link.turn).pick ≠ 0 ∧ (Joined b3 dest backup disk →
        Clean (paths b3 dest backup) disk.volume.files → (moves Site.LinkData.turn).pick ≠ 0)) :
    Refused moves turn (copyIntoPlace b3 dest backup) disk
      (fun w => Mended (paths b3 dest backup).data disk.volume.files w.volume.files) := by
  have hsame : Mended (paths b3 dest backup).data disk.volume.files disk.volume.files :=
    Mended.refl _ _
  unfold copyIntoPlace
  by_cases hpick : (moves Site.Link.turn).pick = 0
  · have hthere : disk.volume.files.node backup ≠ none := fun hfree => (hnot hfree).1 hpick
    exact Refused.bind (Site.refused (refused_hardLink hmoves hpick hthere hsame)) _
  refine Answers.refused (Site.answers (answers_crossing hmoves hpick hsame)) ?_
  have hrest : ∀ w turn, w.volume = disk.volume → Joined b3 dest backup disk →
      Refused moves turn (copyThrough b3 dest backup false) w
        (fun w => Mended (paths b3 dest backup).data disk.volume.files w.volume.files) := by
    intro w turn hvolume hjoined
    have hrefused : Refused moves turn (copyThrough b3 dest backup false) w
        (Unlinked (paths b3 dest backup) w) := by
      apply refused_copyThrough hmoves
      intro i hlinkable
      obtain ⟨hclean, -, hfree⟩ := hlinkable
      rw [hvolume] at hclean hfree
      rw [node_cleared, if_neg (dest_ne_slotData b3 dest backup)] at hfree
      exact (hnot hfree).2 hjoined hclean
    refine Refused.mono hrefused fun w' hw' => ?_
    rw [← hvolume]
    exact hw'.mended
  unfold InstallTemporary.copyAcrossDevices
  by_cases hsaved : disk.slots (directory b3 dest backup) = .Made (.Saved (identity dest backup))
  · refine Passes.refused (Passes.mono (passes_openSlot_made hmoves hsaved)
      (fun _ _ _ hw => hw) ?_) ?_
    · rintro w rfl
      exact hsame
    · rintro _ next w ⟨-, rfl⟩
      exact hrest w next rfl (.inr hsaved)
  by_cases habsent : disk.slots (directory b3 dest backup) = .Absent
  · refine Passes.refused (Passes.mono ((passes_openSlot_new hmoves habsent).and_world
      (openSlot_new_world hmoves habsent)) (fun _ _ _ hw => hw) ?_) ?_
    · rintro w ⟨-, ⟨-, rfl⟩ | ⟨-, found, rfl, -⟩⟩
      · exact hsame
      · exact hsame
    · rintro _ next w ⟨⟨-, rfl⟩, -⟩
      exact hrest _ next rfl (.inl habsent)
  · refine Refused.bind (Refused.mono (refused_openSlot hmoves true habsent hsaved) ?_) _
    rintro w rfl
    exact hsame

end Backup

section Exits

variable {b3 : Bytes → Blake3Hex} {moves : Nat → Move Disk} {turn : Nat}
  {source dest backup : Text} {disk w : Disk} (hmoves : Undisturbed moves)

theorem Backed.node (h : Backed b3 dest backup disk w) {path : Text}
    (hpath : path ≠ (paths b3 dest backup).data) {node : Node}
    (hnode : disk.volume.files.node path = some node) :
    path ≠ backup ∧ w.volume.files.node path = some node := by
  have hsame := h.mended.node path hpath
  rw [Files.node_drop, hnode] at hsame
  by_cases hback : path = backup
  · rw [if_pos hback] at hsame
    cases hsame
  · rw [if_neg hback] at hsame
    exact ⟨hback, hsame⟩

include hmoves

theorem promote_exits (h : Replaceable b3 moves source dest backup disk) (hlooked : Looked moves)
    (hgo : AllGo moves (publishTurns b3 moves dest backup disk ++ settleTurns moves))
    (hbacked : Backed b3 dest backup disk w) (hdest : dest ≠ (paths b3 dest backup).data)
    (hsource : source ≠ (paths b3 dest backup).data) (hne : source ≠ dest) :
    Exit b3 moves source dest backup disk (promote source dest backup moves turn w).outcome
      (promote source dest backup moves turn w).world := by
  obtain ⟨l, hlive⟩ := h.live
  obtain ⟨i, hconverted, hone⟩ := h.converted
  obtain ⟨hdestBackup, hlive'⟩ := hbacked.node hdest hlive
  obtain ⟨hsourceBackup, hconverted'⟩ := hbacked.node hsource hconverted
  -- The conversion has no other name, so it is not the live file.
  have hother : i ≠ l := by
    rintro rfl
    exact hne ((Files.sole_of_nlink hconverted hone).2 dest hlive).symm
  obtain ⟨renamed, hrename, -, hnode⟩ := Files.rename_free hconverted' hlive' hother
  have hthere : (w.withFiles renamed).volume.files.node backup ≠ none := by
    rw [Disk.withFiles_files, hnode, if_neg hdestBackup.symm, if_neg hsourceBackup.symm]
    exact hbacked.there
  unfold promote
  apply Answers.attempt_cut (H := (· = w)) (E := Common)
    (Site.answers (answers_change hmoves hrename rfl)) ((throws_change trivial _).fromTurn _)
  · intro hrenamed
    apply Passes.cut_throws (H := (· = w.withFiles renamed)) (E := Common)
      (Site.answers (answers_step hmoves rfl)) ((throws_step trivial).fromTurn _)
    · intro _ next w' hlast hw'
      exact .Finished h hgo (allGo_cons.mpr ⟨hrenamed, hlast⟩)
    · rintro e _ hcommon hfails rfl
      exact .Unsynced h hlooked hgo hrenamed hfails hcommon hthere
    · rintro _ hstops rfl
      refine .Dropped hgo (.inr ?_)
      rw [StopsFirst, hrenamed]
      exact hstops
  · intro e next w' hcommon hfails hw'
    rw [hw']
    have hrestore : Throws (· = InstallError.RollbackFailed dest)
        ((remove backup : Prog Disk InstallError Unit).mapError fun _ => .RollbackFailed dest) :=
      (throws_remove backup).mapError fun _ _ => rfl
    have hremove : Answers moves Site.Restore.turn (remove backup : Prog Disk InstallError Unit)
        Site.Restore.turn w () (w.withFiles (w.volume.files.drop backup)) (· = w) :=
      answers_change hmoves (Files.unlink_present hbacked.there) rfl
    apply Passes.cut_throws (Site.passes (Passes.mapError hremove _)) (hrestore.fromTurn _)
    · rintro _ next _ - ⟨-, -, rfl⟩
      exact .Undone hgo hfails hbacked.mended hbacked.joined
    · rintro _ w' rfl - -
      exact .NotUndone hgo hfails dest
    · intro w' _ _
      exact .Dropped hgo (.inl hfails)
  · intro w' hstops _
    refine .Dropped hgo (.inr ?_)
    cases hfate : (moves Site.Rename.turn).fate with
    | Goes => rw [StopsFirst, hfate] at hstops; exact hstops.elim
    | Fails part => rw [StopsFirst, hfate] at hstops; exact hstops.elim
    | Stops part => rw [StopsFirst, hfate]; trivial

omit hmoves in
theorem Refused.exit {o : Outcome InstallError Text}
    (hnot : ¬Replaceable b3 moves source dest backup disk)
    (h : (∀ a, o ≠ .Done a) ∧ w = disk) : Exit b3 moves source dest backup disk o w :=
  .Refused hnot h.1 (by rw [h.2]; exact Mended.refl _ _)

theorem answers_checkLive {l : Nat} (hlive : disk.volume.files.node dest = some (.File l)) :
    Answers moves turn (checkLive dest : Prog Disk InstallError Unit) turn disk () disk
      (· = disk) := by
  unfold checkLive
  refine Answers.bind (answers_look hmoves rfl rfl) ?_
  rw [hlive]
  exact passes_pure ⟨rfl, rfl, rfl⟩

theorem refused_checkLive (hlive : ¬∃ l, disk.volume.files.node dest = some (.File l)) :
    Refused moves turn (checkLive dest : Prog Disk InstallError Unit) disk (· = disk) := by
  unfold checkLive
  refine Answers.refused (answers_look hmoves rfl rfl) ?_
  cases hnode : disk.volume.files.node dest with
  | none => exact refused_throw rfl
  | some node =>
      cases node with
      | File l => exact absurd ⟨l, hnode⟩ hlive
      | Other => exact refused_throw rfl

variable [UnicodeTables] {handle : VerifiedConvertingHandle}

def conversionTurns : List Nat :=
  [Site.Parents.turn, Site.Conversion.turn, Site.Metadata.turn, Site.Schema.turn,
    Site.Readable.turn]

theorem passes_checkConversion {i : Nat}
    (hnode : disk.volume.files.node handle.source = some (.File i))
    (hone : disk.volume.files.nlink i = 1) :
    Passes moves turn (checkConversion dest backup handle) conversionTurns disk
      (fun _ _ w => w = disk) (· = disk) := by
  unfold checkConversion conversionTurns
  refine Answers.bind (Site.answers (answers_step hmoves rfl)) ?_
  refine Answers.bind (Site.answers (answers_openFile hmoves hnode rfl)) ?_
  refine Answers.bind (Site.answers (answers_look hmoves rfl rfl)) ?_
  rw [if_neg (by simp [hone])]
  refine Answers.bind (Site.answers (answers_step hmoves rfl)) ?_
  exact Answers.passes (Site.answers (answers_step hmoves rfl)) rfl

theorem refused_checkConversion
    (hnot : ¬∃ i, disk.volume.files.node handle.source = some (.File i) ∧
      disk.volume.files.nlink i = 1) :
    Refused moves turn (checkConversion dest backup handle) disk (· = disk) := by
  unfold checkConversion
  refine Answers.refused (Site.answers (answers_step hmoves rfl)) ?_
  by_cases hfile : ∃ i, disk.volume.files.node handle.source = some (.File i)
  · obtain ⟨i, hnode⟩ := hfile
    refine Answers.refused (Site.answers (answers_openFile hmoves hnode rfl)) ?_
    refine Answers.refused (Site.answers (answers_look hmoves rfl rfl)) ?_
    rw [if_pos (fun hone => hnot ⟨i, hnode, hone⟩)]
    exact Refused.bind (refused_throw rfl) _
  · have hrefused : Refused moves Site.Conversion.turn (openFile (.Io handle.source) handle.source :
        Prog Disk InstallError Nat) disk (· = disk) := by
      refine refused_look hmoves (e := InstallError.Io handle.source) ?_ rfl
      split
      · rename_i i hnode
        exact absurd ⟨i, hnode⟩ hfile
      · rfl
    exact Refused.bind (Site.refused hrefused) _

-- From the conversion on, once the live file is seen.
theorem conversion_exits {l : Nat} (hlive : disk.volume.files.node dest = some (.File l))
    (hlook : (moves Site.Live.turn).fate = .Goes)
    (hseen : ∀ part, (moves Site.Backup.turn).fate ≠ .Stops part)
    (hdest : dest ≠ (paths b3 dest backup).data)
    (hsource : handle.source ≠ (paths b3 dest backup).data) (hne : handle.source ≠ dest) :
    let m : Prog Disk InstallError Text := do
      checkConversion dest backup handle
      copyIntoPlace b3 dest backup
      promote handle.source dest backup
    Exit b3 moves handle.source dest backup disk (m moves turn disk).outcome
      (m moves turn disk).world := by
  intro m
  by_cases hconverted : ∃ i, disk.volume.files.node handle.source = some (.File i) ∧
      disk.volume.files.nlink i = 1
  swap
  · refine Refused.exit (fun h => hconverted h.converted) ?_
    exact Refused.bind (refused_checkConversion hmoves hconverted) _
  obtain ⟨i, hnode, hone⟩ := hconverted
  have hlooks : Looked moves → AllGo moves conversionTurns :=
    fun hlooked turn hmem => hlooked.looks turn (List.mem_cons_of_mem _ hmem)
  apply Passes.cut (passes_checkConversion hmoves hnode hone)
  · rintro _ next w hgo rfl
    have hlooked : Looked moves := ⟨allGo_cons.mpr ⟨hlook, hgo⟩, hseen⟩
    by_cases h : Replaceable b3 moves handle.source dest backup w
    · apply Passes.cut_throws (copyIntoPlace_backs hmoves h hdest)
        (throws_copyIntoPlace b3 dest backup)
      · intro _ next w' hall hbacked
        exact promote_exits hmoves h hlooked hall hbacked hdest hsource hne
      · rintro e w' hcommon hfails (⟨hall, hthere⟩ | ⟨hnot, hmended, hjoined⟩)
        · refine .Unsettled h hlooked hall ?_ hcommon hthere
          exact (failsFirst_append.mp hfails).elim (fun h => absurd h hall.not_failsFirst) And.right
        · refine .Unmade hlooked ?_ hcommon hmended hjoined
          exact (failsFirst_append.mp hfails).elim id fun h => absurd h.1 hnot
      · intro w' hstops _
        exact .Halted hstops
    · have hrefused : Refused moves next (copyIntoPlace b3 dest backup) w
          (fun w' => Mended (paths b3 dest backup).data w.volume.files w'.volume.files) := by
        apply copyIntoPlace_refused hmoves
        intro hfree
        have hnot : ¬((moves Site.Link.turn).pick ≠ 0 → Joined b3 dest backup w ∧
            Clean (paths b3 dest backup) w.volume.files ∧ (moves Site.LinkData.turn).pick = 0) :=
          fun hcrossing => h ⟨⟨l, hlive⟩, hfree, ⟨i, hnode, hone⟩, hcrossing⟩
        tauto
      obtain ⟨hdone, hmended⟩ := hrefused.bind fun _ => promote handle.source dest backup
      exact .Refused h hdone hmended
  · rintro e w hfails rfl
    exact .Stayed (fun hlooked => (hlooks hlooked).not_failsFirst hfails) fun _ h => by cases h
  · rintro w hstops rfl
    exact .Stayed (fun hlooked => (hlooks hlooked).not_stopsFirst hstops) fun _ h => by cases h

-- Every exit of `replace` after its first two checks.
theorem exchange_exits (hdest : dest ≠ (paths b3 dest backup).data)
    (hsource : handle.source ≠ (paths b3 dest backup).data) (hne : handle.source ≠ dest) :
    Exit b3 moves handle.source dest backup disk
      (exchange b3 dest backup handle moves turn disk).outcome
      (exchange b3 dest backup handle moves turn disk).world := by
  unfold exchange
  by_cases hlive : ∃ l, disk.volume.files.node dest = some (.File l)
  swap
  · refine Refused.exit (fun h => hlive h.live) ?_
    exact Refused.bind (Site.refused (refused_checkLive hmoves hlive)) _
  obtain ⟨l, hlive⟩ := hlive
  have hlooks : Looked moves → AllGo moves [Site.Live.turn] := by
    intro hlooked turn hmem
    rw [List.mem_singleton.mp hmem]
    exact hlooked.looks _ List.mem_cons_self
  apply Passes.cut (Site.answers (answers_checkLive hmoves hlive))
  · rintro _ next w hlook ⟨-, -, rfl⟩
    have hlook' := hlook _ List.mem_cons_self
    have hlookup : Answers moves Site.Backup.turn (stat (.Io backup) backup :
        Prog Disk InstallError _) Site.Backup.turn w _ w (· = w) := answers_look hmoves rfl rfl
    apply Answers.attempt_cut (E := Common) (Site.answers hlookup)
      ((throws_stat trivial backup).fromTurn _)
    · intro hseen
      cases hnode : w.volume.files.node backup with
      | none =>
          exact conversion_exits hmoves hlive hlook' (by simp [hseen]) hdest hsource hne
      | some node =>
          refine Refused.exit (fun h => ?_) (refused_throw rfl)
          rw [h.free] at hnode
          cases hnode
    · rintro e next _ - hfails rfl
      refine conversion_exits hmoves hlive hlook' ?_ hdest hsource hne
      intro part hstops
      rw [FailsFirst, hstops] at hfails
      exact hfails
    · rintro _ hstops rfl
      refine .Stayed (fun hlooked => ?_) fun _ h => by cases h
      cases hfate : (moves Site.Backup.turn).fate with
      | Stops part => exact hlooked.seen part hfate
      | Goes => rw [StopsFirst, hfate] at hstops; exact hstops
      | Fails part => rw [StopsFirst, hfate] at hstops; exact hstops
  · rintro e w hfails rfl
    exact .Stayed (fun hlooked => (hlooks hlooked).not_failsFirst hfails) fun _ h => by cases h
  · rintro w hstops rfl
    exact .Stayed (fun hlooked => (hlooks hlooked).not_stopsFirst hstops) fun _ h => by cases h

end Exits

end Mediaops.Install
