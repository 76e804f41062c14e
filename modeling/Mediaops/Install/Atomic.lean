import Mediaops.Install.Backup
import Mediaops.Install.Exchange

namespace Mediaops.Install

-- A replacement that fails leaves all as it was, so that it can be made again: when
-- this is so, and where it is not.

open InstallTemporary

section

variable {b3 : Bytes → Blake3Hex} {moves : Nat → Move Disk} {turn : Nat}
  {source dest backup : Text} {disk w : Disk}

-- The environment in which nothing goes wrong any more.
def calmed (moves : Nat → Move Disk) : Nat → Move Disk := fun turn => { pick := (moves turn).pick }

theorem undisturbed_calmed (moves : Nat → Move Disk) : Undisturbed (calmed moves) := fun _ _ => rfl

theorem allGo_calmed (moves : Nat → Move Disk) (turns : List Nat) : AllGo (calmed moves) turns :=
  fun _ _ => rfl

theorem replaceable_calmed : Replaceable b3 (calmed moves) source dest backup disk ↔
    Replaceable b3 moves source dest backup disk :=
  ⟨fun h => ⟨h.live, h.free, h.converted, h.crossing⟩,
    fun h => ⟨h.live, h.free, h.converted, h.crossing⟩⟩

theorem Replaceable.mended (h : Replaceable b3 moves source dest backup disk)
    (hmended : Mended (paths b3 dest backup).data disk.volume.files w.volume.files)
    (hjoined : (moves Site.Link.turn).pick ≠ 0 → Joined b3 dest backup disk →
      Joined b3 dest backup w)
    (hdest : dest ≠ (paths b3 dest backup).data)
    (hsource : source ≠ (paths b3 dest backup).data) :
    Replaceable b3 moves source dest backup w where
  live := by
    rw [hmended.node dest hdest]
    exact h.live
  free := by
    rw [hmended.node backup (dest_ne_slotData b3 dest backup)]
    exact h.free
  converted := by
    obtain ⟨i, hnode, hone⟩ := h.converted
    refine ⟨i, ?_, hmended.nlink hsource hnode hone⟩
    rw [hmended.node source hsource, hnode]
  crossing hpick := by
    obtain ⟨hjoin, hclean, hdata⟩ := h.crossing hpick
    exact ⟨hjoined hpick hjoin, hmended.clean hclean, hdata⟩

-- A call fails after the backup's link, unless it is the last rename.
def Late (b3 : Bytes → Blake3Hex) (moves : Nat → Move Disk) (source dest backup : Text)
    (disk : Disk) : Prop :=
  Replaceable b3 moves source dest backup disk ∧ Looked moves ∧
    AllGo moves (publishTurns b3 moves dest backup disk) ∧
      (FailsFirst moves (settleTurns moves) ∨
        AllGo moves (settleTurns moves ++ [Site.Rename.turn]) ∧
          FailsFirst moves [Site.SyncLive.turn])

-- A call fails that leaves the slot of the backup without its identity.
def Torn (b3 : Bytes → Blake3Hex) (moves : Nat → Move Disk) (source dest backup : Text)
    (disk : Disk) : Prop :=
  Replaceable b3 moves source dest backup disk ∧ Looked moves ∧
    SlotCut b3 moves dest backup disk ∧ FailsFirst moves newTurns

theorem SlotCut.slotTurns (h : SlotCut b3 moves dest backup disk) :
    slotTurns b3 dest backup disk = newTurns := if_pos h.2.2.1

theorem SlotCut.not_publish (h : SlotCut b3 moves dest backup disk) :
    ¬AllGo moves (publishTurns b3 moves dest backup disk) := by
  intro hall
  rw [publishTurns, if_neg h.1, allGo_cons, allGo_append] at hall
  exact h.2.2.not_allGo hall.2.1

theorem SlotCut.publish_fails (h : SlotCut b3 moves dest backup disk) :
    FailsFirst moves (publishTurns b3 moves dest backup disk) ↔ FailsFirst moves newTurns := by
  rw [publishTurns, if_neg h.1, FailsFirst, h.2.1, h.slotTurns]
  refine failsFirst_append.trans ⟨fun hfails => hfails.elim id fun hlater => ?_, .inl⟩
  exact absurd hlater.1 (h.slotTurns ▸ h.2.2.not_allGo)

-- The backup stays after a failure that comes late.
theorem Late.exit {o : Outcome InstallError Text} (h : Late b3 moves source dest backup disk)
    (hexit : Exit b3 moves source dest backup disk o w) :
    ∃ e, o = .Failed e ∧ Common e ∧ w.volume.files.node backup ≠ none := by
  obtain ⟨hrepl, hlooked, hpublish, hlate⟩ := h
  have hboth : AllGo moves (publishTurns b3 moves dest backup disk ++ settleTurns moves) →
      AllGo moves [Site.Rename.turn] ∧ FailsFirst moves [Site.SyncLive.turn] := by
    intro hall
    rcases hlate with hfails | ⟨hgo, hfails⟩
    · exact absurd hfails (allGo_append.mp hall).2.not_failsFirst
    · exact ⟨(allGo_append.mp hgo).2, hfails⟩
  cases hexit with
  | Refused hnot => exact absurd hrepl hnot
  | Stayed hnot => exact absurd hlooked hnot
  | Unmade _ hfails => exact absurd hfails hpublish.not_failsFirst
  | Unsettled _ _ _ _ hcommon hthere => exact ⟨_, rfl, hcommon, hthere⟩
  | Halted hstops =>
      rcases stopsFirst_append.mp hstops with hstops | ⟨-, hstops⟩
      · exact absurd hstops hpublish.not_stopsFirst
      rcases hlate with hfails | ⟨hgo, -⟩
      · exact absurd hstops hfails.not_stopsFirst
      · exact absurd hstops (allGo_append.mp hgo).1.not_stopsFirst
  | Undone hall hfails => exact absurd hfails (hboth hall).1.not_failsFirst
  | NotUndone hall hfails => exact absurd hfails (hboth hall).1.not_failsFirst
  | Unsynced _ _ _ _ _ hcommon hthere => exact ⟨_, rfl, hcommon, hthere⟩
  | Dropped hall hnot =>
      obtain ⟨hrename, hsync⟩ := hboth hall
      rcases hnot with hfails | hstops
      · exact absurd hfails hrename.not_failsFirst
      · have hturns : StopsFirst moves ([Site.Rename.turn] ++ [Site.SyncLive.turn]) := hstops
        rcases stopsFirst_append.mp hturns with hstops | ⟨-, hstops⟩
        · exact absurd hstops hrename.not_stopsFirst
        · exact absurd hstops hsync.not_stopsFirst
  | Finished _ hall hlast =>
      exact absurd (hboth hall).2 (allGo_cons.mp hlast).2.not_failsFirst

-- The slot cannot be had again after it was torn.
theorem Torn.exit {o : Outcome InstallError Text} (h : Torn b3 moves source dest backup disk)
    (hexit : Exit b3 moves source dest backup disk o w) :
    ∃ e, o = .Failed e ∧ Common e ∧ ¬Joined b3 dest backup w := by
  obtain ⟨hrepl, hlooked, hcut, hfails⟩ := h
  have hpublish : FailsFirst moves (publishTurns b3 moves dest backup disk) :=
    hcut.publish_fails.mpr hfails
  have hnever : ¬AllGo moves (publishTurns b3 moves dest backup disk ++ settleTurns moves) :=
    fun hall => hcut.not_publish (allGo_append.mp hall).1
  cases hexit with
  | Refused hnot => exact absurd hrepl hnot
  | Stayed hnot => exact absurd hlooked hnot
  | Unmade _ _ hcommon _ hjoined =>
      exact ⟨_, rfl, hcommon, fun hjoin => (hjoined.mp hjoin).2 hcut⟩
  | Unsettled _ _ hall => exact absurd hall hcut.not_publish
  | Halted hstops =>
      rcases stopsFirst_append.mp hstops with hstops | ⟨hall, -⟩
      · exact absurd hstops hpublish.not_stopsFirst
      · exact absurd hall hcut.not_publish
  | Undone hall => exact absurd hall hnever
  | NotUndone hall => exact absurd hall hnever
  | Unsynced _ _ hall => exact absurd hall hnever
  | Dropped hall => exact absurd hall hnever
  | Finished _ hall => exact absurd hall hnever

-- A failure that neither comes late nor tears the slot, and that was undone.
theorem Exit.mended {e : InstallError}
    (hexit : Exit b3 moves source dest backup disk (.Failed e) w)
    (hundone : ∀ path, e ≠ .RollbackFailed path)
    (hlate : ¬Late b3 moves source dest backup disk)
    (htorn : ¬Torn b3 moves source dest backup disk) :
    Mended (paths b3 dest backup).data disk.volume.files w.volume.files ∧
      (Replaceable b3 moves source dest backup disk → (moves Site.Link.turn).pick ≠ 0 →
        Joined b3 dest backup disk → Joined b3 dest backup w) := by
  cases hexit with
  | Refused hnot _ hmended => exact ⟨hmended, fun h => absurd h hnot⟩
  | Stayed => exact ⟨Mended.refl _ _, fun _ _ => id⟩
  | Unmade hlooked hfails _ hmended hjoined =>
      refine ⟨hmended, fun hrepl _ hjoin => hjoined.mpr ⟨hjoin, fun hcut => ?_⟩⟩
      exact htorn ⟨hrepl, hlooked, hcut, hcut.publish_fails.mp hfails⟩
  | Unsettled hrepl hlooked hpublish hfails =>
      exact absurd ⟨hrepl, hlooked, hpublish, .inl hfails⟩ hlate
  | Undone _ _ hmended hjoined => exact ⟨hmended, fun _ _ => hjoined⟩
  | NotUndone _ _ path => exact absurd rfl (hundone path)
  | Unsynced hrepl hlooked hall hrename hfails =>
      obtain ⟨hpublish, hsettle⟩ := allGo_append.mp hall
      refine absurd ⟨hrepl, hlooked, hpublish, .inr ⟨allGo_append.mpr ⟨hsettle, ?_⟩, hfails⟩⟩ hlate
      exact fun turn hmem => by rw [List.mem_singleton.mp hmem, hrename]

end

section

variable [UnicodeTables] (b3 : Bytes → Blake3Hex) (libraryRoot : Text) (titleId : TitleId)
  (handle : VerifiedConvertingHandle) (backup : Text) (moves : Nat → Move Disk) (turn : Nat)
  (disk w : Disk)

-- What a failure leaves as it was.
structure Restored : Prop where
  liveKept : w.volume.files.content (Path.join libraryRoot handle.destRel) =
    disk.volume.files.content (Path.join libraryRoot handle.destRel)
  sourceKept : w.volume.files.content handle.source = disk.volume.files.content handle.source
  backupKept : w.volume.files.node backup = none ↔ disk.volume.files.node backup = none
  again : (∃ path, (replace b3 libraryRoot titleId handle backup (calmed moves) turn disk).outcome =
      .Done path) →
    ∃ path, (replace b3 libraryRoot titleId handle backup (calmed moves) turn w).outcome =
      .Done path

def Atomic : Prop :=
  ∀ e, (replace b3 libraryRoot titleId handle backup moves turn disk).outcome = .Failed e →
    (∀ path, e ≠ .RollbackFailed path) →
      Restored b3 libraryRoot titleId handle backup moves turn disk
        (replace b3 libraryRoot titleId handle backup moves turn disk).world

-- The title and the place of the backup are accepted.
def Accepted : Prop :=
  checkTitle titleId handle.destRel = .ok () ∧ backupInSchemaDir libraryRoot backup = false

variable {b3 libraryRoot titleId handle backup moves turn disk w}

theorem replace_accepted (h : Accepted libraryRoot titleId handle backup) :
    replace b3 libraryRoot titleId handle backup =
      exchange b3 (Path.join libraryRoot handle.destRel) backup handle := by
  unfold replace
  rw [h.1, Prog.lift_ok_bind, h.2]
  rfl

theorem replace_unaccepted (h : ¬Accepted libraryRoot titleId handle backup) :
    (∀ a, (replace b3 libraryRoot titleId handle backup moves turn disk).outcome ≠ .Done a) ∧
      (replace b3 libraryRoot titleId handle backup moves turn disk).world = disk := by
  unfold replace
  cases htitle : checkTitle titleId handle.destRel with
  | error e => exact ⟨nofun, rfl⟩
  | ok =>
      rw [Prog.lift_ok_bind]
      cases hinside : backupInSchemaDir libraryRoot backup with
      | false => exact absurd ⟨htitle, hinside⟩ h
      | true => exact ⟨nofun, rfl⟩

-- The live file, its conversion and the data in the slot are three paths.
theorem handle_apart (b3 : Bytes → Blake3Hex) (handle : VerifiedConvertingHandle) (libraryRoot source dest : Text) :
    Path.join libraryRoot handle.destRel ≠ (paths b3 source dest).data ∧
      handle.source ≠ (paths b3 source dest).data ∧
      handle.source ≠ Path.join libraryRoot handle.destRel := by
  obtain ⟨name, hname, hsource⟩ := handle.named
  obtain ⟨titleId, placement, -, htitle⟩ := handle.rendered
  obtain ⟨parsed, hparsed, -⟩ := Checks.bind_ok htitle
  have hparse := Checks.mapError_ok hparsed
  obtain ⟨hrel, -, hext⟩ : Path.isAbsolute handle.destRel = false ∧ handle.destRel.head? ≠ some '_' ∧
      ∀ name, Path.fileName handle.destRel = some name → '.' ∈ name := by
    cases hboth : PathSchema.parsePlacement handle.destRel with
    | ok both => exact PathSchema.parsePlacement_shape hboth
    | error e =>
        rw [PathSchema.parse, hboth] at hparse
        cases hparse
  have hlive : Path.fileName (Path.join libraryRoot handle.destRel) = some name :=
    Path.fileName_join hrel hname
  have hdata : Path.fileName (paths b3 source dest).data = some "data".toList :=
    slotData_fileName source dest
  have hdot := hext name hname
  refine ⟨fun hsame => ?_, fun hsame => ?_, fun hsame => ?_⟩
  · rw [hsame, hdata, Option.some_inj] at hlive
    rw [← hlive] at hdot
    exact absurd hdot (by decide)
  · rw [hsame, hdata, Option.some_inj] at hsource
    have hlen := congrArg List.length hsource
    simp at hlen
  · rw [hsame, hlive, Option.some_inj] at hsource
    have hlen := congrArg List.length hsource
    simp at hlen

theorem replace_exits (h : Accepted libraryRoot titleId handle backup)
    (hmoves : Undisturbed moves) :
    Exit b3 moves handle.source (Path.join libraryRoot handle.destRel) backup disk
      (replace b3 libraryRoot titleId handle backup moves turn disk).outcome
      (replace b3 libraryRoot titleId handle backup moves turn disk).world := by
  obtain ⟨hdest, hsource, hne⟩ := handle_apart b3 handle libraryRoot
    (Path.join libraryRoot handle.destRel) backup
  rw [replace_accepted h]
  exact exchange_exits hmoves hdest hsource hne

-- With nothing going wrong, a replacement goes through if its disk has what it needs.
theorem calmed_done_iff (h : Accepted libraryRoot titleId handle backup) :
    (∃ path, (replace b3 libraryRoot titleId handle backup (calmed moves) turn disk).outcome =
      .Done path) ↔
      Replaceable b3 moves handle.source (Path.join libraryRoot handle.destRel) backup disk := by
  have hexit : Exit b3 (calmed moves) handle.source _ backup disk
      (replace b3 libraryRoot titleId handle backup (calmed moves) turn disk).outcome _ :=
    replace_exits h (undisturbed_calmed moves)
  rw [← replaceable_calmed]
  have hgoes := allGo_calmed moves
  generalize (replace b3 libraryRoot titleId handle backup (calmed moves) turn disk).outcome = o,
    (replace b3 libraryRoot titleId handle backup (calmed moves) turn disk).world = w at hexit ⊢
  constructor
  · rintro ⟨path, rfl⟩
    cases hexit with
    | Refused _ hdone => exact absurd rfl (hdone path)
    | Stayed _ hdone => exact absurd rfl (hdone path)
    | Finished hrepl => exact hrepl
  · intro hrepl
    cases hexit with
    | Refused hnot => exact absurd hrepl hnot
    | Stayed hnot => exact absurd ⟨hgoes _, nofun⟩ hnot
    | Unmade _ hfails => exact absurd hfails (hgoes _).not_failsFirst
    | Unsettled _ _ _ hfails => exact absurd hfails (hgoes _).not_failsFirst
    | Halted hstops => exact absurd hstops (hgoes _).not_stopsFirst
    | Undone _ hfails => exact absurd hfails (hgoes _).not_failsFirst
    | NotUndone _ hfails => exact absurd hfails (hgoes _).not_failsFirst
    | Unsynced _ _ _ _ hfails => exact absurd hfails (hgoes _).not_failsFirst
    | Dropped _ hnot =>
        rcases hnot with hfails | hstops
        · exact absurd hfails (hgoes _).not_failsFirst
        · exact absurd hstops (hgoes _).not_stopsFirst
    | Finished => exact ⟨_, rfl⟩

theorem Late.not_atomic (hmoves : Undisturbed moves)
    (haccepted : Accepted libraryRoot titleId handle backup)
    (h : Late b3 moves handle.source (Path.join libraryRoot handle.destRel) backup disk) :
    ¬Atomic b3 libraryRoot titleId handle backup moves turn disk := by
  intro hatomic
  obtain ⟨e, hfailed, hcommon, hthere⟩ := h.exit (replace_exits haccepted hmoves)
  have hkept := (hatomic e hfailed fun path he => by rw [he] at hcommon; exact hcommon).backupKept
  exact hthere (hkept.mpr h.1.free)

theorem Torn.not_atomic (hmoves : Undisturbed moves)
    (haccepted : Accepted libraryRoot titleId handle backup)
    (h : Torn b3 moves handle.source (Path.join libraryRoot handle.destRel) backup disk) :
    ¬Atomic b3 libraryRoot titleId handle backup moves turn disk := by
  intro hatomic
  obtain ⟨e, hfailed, hcommon, hjoined⟩ := h.exit (replace_exits haccepted hmoves)
  have hagain := (hatomic e hfailed fun path he => by rw [he] at hcommon; exact hcommon).again
  rw [calmed_done_iff haccepted, calmed_done_iff haccepted] at hagain
  exact hjoined ((hagain h.1).crossing h.2.2.1.1).1

-- An error other than a failed rollback leaves everything as it was, if and only if no
-- call fails after the backup's link but for the last rename, and none tears the slot.
theorem replace_atomic (hmoves : Undisturbed moves) :
    Atomic b3 libraryRoot titleId handle backup moves turn disk ↔
      ¬(Accepted libraryRoot titleId handle backup ∧
        (Late b3 moves handle.source (Path.join libraryRoot handle.destRel) backup disk ∨
          Torn b3 moves handle.source (Path.join libraryRoot handle.destRel) backup disk)) := by
  obtain ⟨hdest, hsource, -⟩ := handle_apart b3 handle libraryRoot
    (Path.join libraryRoot handle.destRel) backup
  constructor
  · rintro hatomic ⟨haccepted, hlate | htorn⟩
    · exact hlate.not_atomic hmoves haccepted hatomic
    · exact htorn.not_atomic hmoves haccepted hatomic
  · intro hnot e hfailed hundone
    by_cases haccepted : Accepted libraryRoot titleId handle backup
    · rw [not_and, not_or] at hnot
      obtain ⟨hlate, htorn⟩ := hnot haccepted
      have hexit : Exit b3 moves handle.source _ backup disk
          (replace b3 libraryRoot titleId handle backup moves turn disk).outcome _ :=
        replace_exits haccepted hmoves
      rw [hfailed] at hexit
      obtain ⟨hmended, hjoined⟩ := hexit.mended hundone hlate htorn
      refine ⟨hmended.content hdest, hmended.content hsource, ?_, ?_⟩
      · rw [hmended.node backup (dest_ne_slotData b3 _ backup)]
      · rw [calmed_done_iff haccepted, calmed_done_iff haccepted]
        exact fun hrepl => hrepl.mended hmended (hjoined hrepl) hdest hsource
    · have hworld : (replace b3 libraryRoot titleId handle backup moves turn disk).world = disk :=
        (replace_unaccepted haccepted).2
      rw [hworld]
      exact ⟨rfl, rfl, Iff.rfl, id⟩

end

namespace Sample

def upBackup : Text := "/lib/_ops/Up.(2009).mkv".toList

-- A live film and its conversion.
def converted : Disk where
  volume := {
    files := {
      dir := [("/lib/movies/Up.(2009)/Up.(2009).mkv".toList, .File 0),
        ("/work/Up.(2009).mkv.converting".toList, .File 1)]
      data := fun i => if i = 0 then [1, 2, 3] else [4]
      next := 2
      distinct := by
        unfold Table.Keyed
        decide
      bound := by
        intro n i h
        simp only [List.mem_cons, Prod.mk.injEq, Node.File.injEq, List.not_mem_nil, or_false] at h
        omega }
    sidecars := fun _ => .Absent }
  slots := fun _ => .Absent

-- One call fails.
def failsAt (site : Site) (turn : Nat) : Move Disk :=
  if turn = site.turn then { fate := .Fails 0 } else {}

theorem undisturbed_fails (site : Site) : Undisturbed (failsAt site) := by
  intro turn disk
  unfold failsAt
  split <;> rfl

theorem fails_pick (site : Site) (turn : Nat) : (failsAt site turn).pick = 0 := by
  unfold failsAt
  split <;> rfl

theorem up_accepted :
    @Accepted UnicodeTables.ascii "/lib".toList up conversion upBackup :=
  ⟨up_fits, by decide⟩

theorem up_replaceable (site : Site) :
    Replaceable InstallTemporary.Sample.b3 (failsAt site) "/work/Up.(2009).mkv.converting".toList
      (Path.join "/lib".toList upRel) upBackup converted where
  live := ⟨0, by decide⟩
  free := by decide
  converted := ⟨1, by decide, by decide⟩
  crossing h := absurd (fails_pick site _) h

end Sample

-- The backup cannot be synced: it stays, and the next call refuses to run over it.
theorem late_backup_stays :
    let := UnicodeTables.ascii
    ¬Atomic InstallTemporary.Sample.b3 "/lib".toList Sample.up Sample.conversion Sample.upBackup
      (Sample.failsAt .SyncParent) 0 Sample.converted := by
  intro tables
  apply Late.not_atomic (Sample.undisturbed_fails .SyncParent) Sample.up_accepted
  refine ⟨Sample.up_replaceable .SyncParent, ⟨?_, ?_⟩, ?_, .inl ?_⟩
  · unfold AllGo
    decide
  · intro part hstops
    cases hstops
  · rw [publishTurns, if_pos (Sample.fails_pick ..)]
    unfold AllGo
    decide
  · rw [settleTurns, if_pos (Sample.fails_pick ..)]
    trivial

-- A rename that fails is undone.
theorem replace_atomic_rename :
    let := UnicodeTables.ascii
    Atomic InstallTemporary.Sample.b3 "/lib".toList Sample.up Sample.conversion Sample.upBackup
      (Sample.failsAt .Rename) 0 Sample.converted := by
  intro tables
  refine (replace_atomic (Sample.undisturbed_fails .Rename)).mpr ?_
  rintro ⟨-, ⟨-, -, -, hfails | ⟨hgo, -⟩⟩ | ⟨-, -, ⟨hpick, -⟩, -⟩⟩
  · rw [settleTurns, if_pos (Sample.fails_pick ..)] at hfails
    exact hfails
  · have hrename := hgo Site.Rename.turn (by simp)
    cases hrename
  · exact hpick (Sample.fails_pick ..)

end Mediaops.Install
