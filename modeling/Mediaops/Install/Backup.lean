import Mediaops.Core.Paths
import Mediaops.Install.Paths
import Mediaops.Install.Errors

namespace Mediaops.Install

-- Which backups are refused for where they are.

open Transfer (Mounted onVolume look step change stat openFile)
open InstallTemporary (directory marker openDir openMarker claim openOwner openSlot makeDir check
  copyIntoPlace)

-- The backup resolves to a library directory or below it.
def Inside (libraryRoot backup : Text) : Prop :=
  ∃ dir ∈ schemaDirs, Path.resolve (Path.components (Path.join libraryRoot dir)) <+:
    Path.resolve (Path.components backup)

-- It is spelled with the directory as its front, and what follows never leaves it.
def SpelledInside (libraryRoot backup : Text) : Prop :=
  ∃ dir ∈ schemaDirs, ∃ rest,
    Path.components backup = Path.components (Path.join libraryRoot dir) ++ rest ∧
      Path.Descends rest

section Walk

theorem staysUnder_iff {rest : List Component} (hroot : Component.RootDir ∉ rest) (depth : Nat) :
    staysUnder depth rest = true ↔ ∀ front, front <+: rest →
      front.count .ParentDir ≤ front.countP Path.isName + depth := by
  induction rest generalizing depth with
  | nil => simp [staysUnder]
  | cons component rest ih =>
      have hrest : Component.RootDir ∉ rest := fun hmem => hroot (List.mem_cons_of_mem _ hmem)
      have hsplit : (∀ front, front <+: component :: rest →
            front.count .ParentDir ≤ front.countP Path.isName + depth) ↔
          ∀ front, front <+: rest → (component :: front).count .ParentDir ≤
            (component :: front).countP Path.isName + depth := by
        constructor
        · intro h front hfront
          exact h _ ((List.prefix_cons_inj component).mpr hfront)
        · intro h front hfront
          cases front with
          | nil => simp
          | cons first front =>
              obtain ⟨rfl, hmore⟩ := List.cons_prefix_cons.mp hfront
              exact h front hmore
      rw [hsplit]
      cases component with
      | RootDir => exact absurd List.mem_cons_self hroot
      | CurDir =>
          rw [staysUnder, ih hrest]
          simp [Path.isName]
      | Normal name =>
          rw [staysUnder, ← Int.natCast_succ, ih hrest]
          apply forall₂_congr
          intro front _
          rw [List.count_cons_of_ne (by simp), List.countP_cons_of_pos rfl]
          omega
      | ParentDir =>
          rw [staysUnder]
          by_cases hdepth : depth = 0
          · subst hdepth
            rw [if_pos (by omega)]
            simp only [Bool.false_eq_true, false_iff, not_forall]
            exact ⟨[], List.nil_prefix, by simp [Path.isName]⟩
          · obtain ⟨less, rfl⟩ := Nat.exists_eq_succ_of_ne_zero hdepth
            have hless : ((less.succ : Nat) : Int) - 1 = (less : Int) := by omega
            rw [if_neg (by omega), hless, ih hrest]
            apply forall₂_congr
            intro front _
            rw [List.count_cons_self, List.countP_cons_of_neg (by simp [Path.isName])]
            omega

theorem isUnder_iff {root candidate : Text} (habsolute : Path.isAbsolute candidate = true)
    (hroot : Path.components root ≠ []) :
    isUnder root candidate = true ↔
      ∃ rest, Path.components candidate = Path.components root ++ rest ∧ Path.Descends rest := by
  unfold isUnder
  constructor
  · intro h
    split at h
    · rename_i hprefix
      obtain ⟨rest, hrest⟩ := hprefix
      rw [← hrest, List.drop_left] at h
      have hnoRoot := Path.rootDir_notMem_rest habsolute hroot hrest.symm
      have hwalk := (staysUnder_iff hnoRoot 0).mp h
      exact ⟨rest, hrest.symm, fun front hfront => by simpa using hwalk front hfront⟩
    · cases h
  · rintro ⟨rest, hrest, hdescends⟩
    have hnoRoot := Path.rootDir_notMem_rest habsolute hroot hrest
    rw [hrest, if_pos (List.prefix_append _ _), List.drop_left]
    exact (staysUnder_iff hnoRoot 0).mpr fun front hfront => by simpa using hdescends front hfront

theorem components_dir_ne_nil {libraryRoot dir : Text} (hdir : dir ∈ schemaDirs) :
    Path.components (Path.join libraryRoot dir) ≠ [] := by
  have hname : Path.isAbsolute dir = false ∧ Path.fileName dir = some dir := by
    simp only [schemaDirs, List.mem_cons, List.not_mem_nil, or_false] at hdir
    rcases hdir with rfl | rfl | rfl <;> exact ⟨rfl, rfl⟩
  intro hnil
  have hfile : Path.fileName (Path.join libraryRoot dir) = some dir :=
    Path.fileName_join hname.1 hname.2
  rw [Path.fileName, hnil] at hfile
  cases hfile

theorem backupInSchemaDir_iff {libraryRoot backup : Text}
    (habsolute : Path.isAbsolute backup = true) :
    backupInSchemaDir libraryRoot backup = true ↔ SpelledInside libraryRoot backup := by
  unfold backupInSchemaDir SpelledInside
  rw [List.any_eq_true]
  apply exists_congr
  intro dir
  apply and_congr_right
  intro hdir
  exact isUnder_iff habsolute (components_dir_ne_nil hdir)

-- No backup is refused that resolves elsewhere.
theorem SpelledInside.inside {libraryRoot backup : Text}
    (habsolute : Path.isAbsolute backup = true) (h : SpelledInside libraryRoot backup) :
    Inside libraryRoot backup := by
  obtain ⟨dir, hdir, rest, hrest, hdescends⟩ := h
  refine ⟨dir, hdir, ?_⟩
  rw [hrest]
  exact hdescends.resolve_prefix
    (Path.rootDir_notMem_rest habsolute (components_dir_ne_nil hdir) hrest)

end Walk

section Refusals

-- An error that says something else than that a backup is inside the library.
def NotInside (e : InstallError) : Prop := ∀ path, e ≠ .BackupInsideLibrary path

theorem Common.notInside {e : InstallError} (h : Common e) : NotInside e := by
  rintro path rfl
  exact h

variable [UnicodeTables] (b3 : Bytes → Blake3Hex) {libraryRoot backup : Text} {titleId : TitleId}
  {handle : VerifiedConvertingHandle}

omit [UnicodeTables] in
theorem throws_promote (source dest : Text) : Throws NotInside (promote source dest backup) := by
  unfold promote
  have hrename : Throws NotInside (change (.Io source)
      fun files => files.rename source dest : Prog Disk InstallError Unit) := throws_change nofun _
  refine Throws.attempt_bind (hrename.fromTurn _) (fun _ => ?_) fun e he => ?_
  · exact Throws.bind ((throws_step nofun).fromTurn _) fun _ => throws_pure _
  · have hrestore : Throws NotInside ((remove backup : Prog Disk InstallError Unit).mapError
        fun _ => InstallError.RollbackFailed dest) :=
      (throws_remove backup).mapError fun _ _ => nofun
    exact Throws.bind (hrestore.fromTurn _) fun _ => throws_throw he

theorem throws_exchange (dest : Text) : Throws NotInside (exchange b3 dest backup handle) := by
  unfold exchange
  have hcommon : ∀ e, Common e → NotInside e := fun _ => Common.notInside
  refine Throws.bind (((throws_checkLive dest).mono hcommon).fromTurn _) fun _ => ?_
  refine Throws.bind (throws_attempt _) fun found => ?_
  split
  · exact throws_throw nofun
  refine Throws.bind ((throws_checkConversion dest).mono hcommon) fun _ => ?_
  refine Throws.bind ((throws_copyIntoPlace b3 _ _).mono hcommon) fun _ => ?_
  exact throws_promote _ dest

-- Where the backup is decided after the title alone, and by nothing else.
theorem replace_refuses_iff (moves : Nat → Move Disk) (turn : Nat) (disk : Disk) :
    (∃ path, (replace b3 libraryRoot titleId handle backup moves turn disk).outcome =
        .Failed (.BackupInsideLibrary path)) ↔
      checkTitle titleId handle.destRel = .ok () ∧ backupInSchemaDir libraryRoot backup = true := by
  unfold replace
  cases htitle : checkTitle titleId handle.destRel with
  | error e =>
      have hother := checkTitle_error htitle
      constructor
      · rintro ⟨path, hpath⟩
        cases hpath
        exact absurd rfl (hother.notInside path)
      · rintro ⟨hok, -⟩
        cases hok
  | ok =>
      rw [Prog.lift_ok_bind]
      by_cases hinside : backupInSchemaDir libraryRoot backup = true
      · rw [if_pos hinside]
        exact ⟨fun _ => ⟨rfl, hinside⟩, fun _ => ⟨backup, rfl⟩⟩
      · rw [if_neg hinside]
        constructor
        · rintro ⟨path, hpath⟩
          exact absurd rfl (throws_exchange b3 _ moves turn disk _ hpath path)
        · rintro ⟨-, hinside'⟩
          exact absurd hinside' hinside

-- `replace` refuses exactly the backups that resolve into a library directory, if
-- and only if such a backup comes with a title that fits and is also spelled so.
theorem replace_keeps_backups_out (habsolute : Path.isAbsolute backup = true)
    (moves : Nat → Move Disk) (turn : Nat) (disk : Disk) :
    ((∃ path, (replace b3 libraryRoot titleId handle backup moves turn disk).outcome =
        .Failed (.BackupInsideLibrary path)) ↔ Inside libraryRoot backup) ↔
      (Inside libraryRoot backup →
        checkTitle titleId handle.destRel = .ok () ∧ SpelledInside libraryRoot backup) := by
  rw [replace_refuses_iff, backupInSchemaDir_iff habsolute]
  constructor
  · intro h hinside
    exact h.mpr hinside
  · intro h
    exact ⟨fun hrefused => hrefused.2.inside habsolute, h⟩

end Refusals

namespace Sample

def up : @TitleId UnicodeTables.ascii :=
  @TitleId.mk UnicodeTables.ascii .Movie .Tmdb "14160".toList TitleId.Sample.movie_pair (by decide) (by decide)

def upRel : Text := "movies/Up.(2009)/Up.(2009).mkv".toList

theorem up_fits : @checkTitle UnicodeTables.ascii up upRel = .ok () := by
  have hok : (@checkTitle UnicodeTables.ascii up upRel).toBool = true := by decide +kernel
  cases hfits : @checkTitle UnicodeTables.ascii up upRel with
  | ok => rfl
  | error e => rw [hfits] at hok; cases hok

theorem up_rendered :
    @PathSchema.render UnicodeTables.ascii up (.Movie "Up".toList 2009 "mkv".toList) = .ok upRel := by
  decide +kernel

def conversion : @VerifiedConvertingHandle UnicodeTables.ascii :=
  @VerifiedConvertingHandle.mk UnicodeTables.ascii "/work/Up.(2009).mkv.converting".toList upRel
    ⟨up, _, up_rendered, up_fits⟩ ⟨"Up.(2009).mkv".toList, by decide, by decide⟩

theorem escapes :
    ¬SpelledInside "/lib".toList "/lib/x/../movies/up.mkv".toList ∧
      Inside "/lib".toList "/lib/x/../movies/up.mkv".toList := by
  constructor
  · rw [← backupInSchemaDir_iff (by decide)]
    decide
  · exact ⟨"movies".toList, by decide, by decide⟩

end Sample

-- A detour before the directory's name is enough to get past the check.
theorem backup_passes_by_detour :
    let := UnicodeTables.ascii
    Inside "/lib".toList "/lib/x/../movies/up.mkv".toList ∧
      checkTitle Sample.up Sample.conversion.destRel = .ok () ∧
      ∀ b3 moves turn disk, ¬∃ path,
        (replace b3 "/lib".toList Sample.up Sample.conversion "/lib/x/../movies/up.mkv".toList
          moves turn disk).outcome = .Failed (.BackupInsideLibrary path) := by
  refine ⟨Sample.escapes.2, Sample.up_fits, ?_⟩
  intro b3 moves turn disk hrefused
  have hinside := ((@replace_refuses_iff UnicodeTables.ascii b3 _ _ _ _ moves turn disk).mp hrefused).2
  exact Sample.escapes.1 ((backupInSchemaDir_iff (by decide)).mp hinside)

theorem replace_keeps_backups_out_movies :
    let := UnicodeTables.ascii
    ∀ b3 moves turn disk,
      ((∃ path, (replace b3 "/lib".toList Sample.up Sample.conversion "/lib/movies/up.mkv".toList
          moves turn disk).outcome = .Failed (.BackupInsideLibrary path)) ↔
        Inside "/lib".toList "/lib/movies/up.mkv".toList) := by
  intro _ b3 moves turn disk
  refine (@replace_keeps_backups_out UnicodeTables.ascii b3 _ _ Sample.up Sample.conversion
    (by decide) moves turn disk).mpr ?_
  intro _
  refine ⟨Sample.up_fits, (backupInSchemaDir_iff (by decide)).mp ?_⟩
  decide

end Mediaops.Install
