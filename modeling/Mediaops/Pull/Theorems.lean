import Mathlib.Data.List.Chain
import Mediaops.Pull.Safety

namespace Mediaops.Pull

open Transfer (Mounted)
open Install (Shown)

-- One pass after another. Whatever happened in between, a pass starts from what it
-- finds, and it ends where it is done, fails or is killed.
structure Pass where
  before : World → World := id
  moves : Nat → Move World := fun _ => {}

section

variable [UnicodeTables] (b3 : Bytes → Blake3Hex) (identity : Text → Text → Bytes)
  (remote : Text × List Component → Bytes)

def lives : List Pass → World → List (Ran World PullError Unit)
  | [], _ => []
  | pass :: passes, w =>
      let ran := claimAndRun b3 identity remote pass.moves 0 (pass.before w)
      ran :: lives passes ran.world

-- During a pass others leave the staging files and slots of Jobs alone and write
-- into no file in place.
def Leaves (move : Move World) : Prop := ∀ spec, (termsOf b3 identity spec).allowed move

-- The Job a pass took from its listing.
def taken (ran : Ran World PullError Unit) : Option HomeObject :=
  ran.calls.head?.bind fun call => headJob call.1.store

end

-- Between the calls nobody else replaces, removes or changes the file at a path.
def Undisturbed (path : Text) (calls : List (World × World)) : Prop :=
  calls.IsChain fun call next => Files.Preserves path call.2.volume.files next.1.volume.files

theorem content_undisturbed {path : Text} {bytes : Bytes} {start last : World × World}
    {between : List (World × World)} (hstart : start.2.volume.files.content path = some bytes)
    (hkept : ∀ call ∈ between, Files.Preserves path call.1.volume.files call.2.volume.files)
    (h : Undisturbed path (start :: (between ++ [last]))) :
    last.1.volume.files.content path = some bytes := by
  induction between generalizing start with
  | nil =>
      obtain ⟨hnext, -⟩ := List.isChain_cons_cons.mp h
      exact hnext.content hstart
  | cons call between ih =>
      obtain ⟨hnext, hrest⟩ := List.isChain_cons_cons.mp h
      have hcall := hkept call List.mem_cons_self
      exact ih (hcall.content (hnext.content hstart))
        (fun other hother => hkept other (List.mem_cons_of_mem _ hother)) hrest

section

variable [UnicodeTables] {b3 : Bytes → Blake3Hex} {identity : Text → Text → Bytes}
  {remote : Text × List Component → Bytes} {spec : JobSpec}

theorem not_owned_destination : ¬Owned b3 identity spec (destination spec) := by
  rintro ⟨paths, hpaths, hprivate⟩
  obtain ⟨hdest, hdistinct, -⟩ := Install.pathsOf_ok hpaths
  apply hdistinct.dest
  rw [hdest]
  exact hprivate

-- A pass lists the Jobs and runs the first one, if the listing goes through.
theorem claimAndRun_calls (moves : Nat → Move World) (turn : Nat) (w : World) :
    ∃ w₀, (∀ job, headJob w₀.store = some job →
        (claimAndRun b3 identity remote moves turn w).calls = [(w₀, w₀)] ∨
          (claimAndRun b3 identity remote moves turn w).calls =
            (w₀, w₀) :: (runJob b3 identity remote job moves (turn + 1) w₀).calls) ∧
      taken (claimAndRun b3 identity remote moves turn w) = headJob w₀.store := by
  refine ⟨(moves turn).outside w, ?_⟩
  cases hfate : (moves turn).fate with
  | Goes =>
      cases hhead : headJob ((moves turn).outside w).store with
      | none => simp [claimAndRun, bind, Prog.perform, Call.answer, hfate, pure, Except.pure, taken, hhead]
      | some job => simp [claimAndRun, bind, Prog.perform, Call.answer, hfate, pure, Except.pure, taken, hhead]
  | Fails part => simp [claimAndRun, bind, Prog.perform, Call.answer, hfate, taken]
  | Stops part => simp [claimAndRun, bind, Prog.perform, Call.answer, hfate, taken]

-- A pass keeps to the terms of the Job it took.
theorem pass_kept {moves : Nat → Move World} (hmoves : ∀ n, Leaves b3 identity (moves n))
    {turn : Nat} {w : World} {job : HomeObject}
    (htaken : taken (claimAndRun b3 identity remote moves turn w) = some job)
    (hspec : job.spec = .Job spec) :
    Kept (termsOf b3 identity spec).guar [] (claimAndRun b3 identity remote moves turn w).calls := by
  obtain ⟨w₀, hcalls, hhead⟩ := @claimAndRun_calls _ b3 identity remote moves turn w
  rw [htaken] at hhead
  have hidle : (termsOf b3 identity spec).guar [] w₀ w₀ := guar_store [] w₀ w₀.store
  rcases hcalls job hhead.symm with hcalls | hcalls
  · rw [hcalls]
    exact ⟨hidle, trivial⟩
  · rw [hcalls]
    exact ⟨hidle, (safe_runJob hspec [(w₀, w₀)] w₀ moves (turn + 1) fun n => hmoves n spec).1⟩

theorem mem_lives {passes : List Pass} {w : World} {ran : Ran World PullError Unit}
    (h : ran ∈ lives b3 identity remote passes w) :
    ∃ pass ∈ passes, ∃ w, ran = claimAndRun b3 identity remote pass.moves 0 w := by
  induction passes generalizing w with
  | nil => cases h
  | cons pass passes ih =>
      rcases List.mem_cons.mp h with rfl | h
      · exact ⟨pass, List.mem_cons_self, pass.before w, rfl⟩
      · obtain ⟨pass', hpass, w', hran⟩ := ih h
        exact ⟨pass', List.mem_cons_of_mem _ hpass, w', hran⟩

-- However often the worker is killed and started again, and whatever it finds: no
-- call of a pass replaces, removes or changes what stands at its Job's destination,
-- or at any other path outside the Job's staging; and a pass reports the Job as
-- installed only after bytes with the recorded digest stood at the destination,
-- where they still are unless someone else moved them.
theorem install_crash_safe (passes : List Pass) (w : World)
    (hquiet : ∀ pass ∈ passes, ∀ n, Leaves b3 identity (pass.moves n))
    (ran : Ran World PullError Unit) (hran : ran ∈ lives b3 identity remote passes w)
    (job : HomeObject) (htaken : taken ran = some job) (hspec : job.spec = .Job spec)
    (first rest : List (World × World)) (call : World × World)
    (hcalls : ran.calls = first ++ call :: rest) :
    (∀ path, path = destination spec ∨ ¬Owned b3 identity spec path →
      Files.Preserves path call.1.volume.files call.2.volume.files) ∧
    ∀ write status, call.2.sent = call.1.sent ++ [write] → write.object.status = .Job status →
      status.phase = .Installed →
        ∃ bytes, status.verifiedB3 = some (b3 bytes) ∧ Shown (destination spec) bytes first ∧
          (Undisturbed (destination spec) (first ++ [call]) →
            call.1.volume.files.content (destination spec) = some bytes) := by
  obtain ⟨pass, hpass, w', rfl⟩ := mem_lives hran
  have hkept := pass_kept (hquiet pass hpass) htaken hspec
  have hpreserves : ∀ past w w', (termsOf b3 identity spec).guar past w w' →
      Files.Preserves (destination spec) w.volume.files w'.volume.files :=
    fun past w w' h => h.1 _ not_owned_destination
  rw [hcalls] at hkept
  have hcall := hkept.split
  rw [List.nil_append] at hcall
  constructor
  · rintro path (rfl | hpath)
    · exact hpreserves _ _ _ hcall
    · exact hcall.1 path hpath
  · intro write status hsent hstatus hphase
    obtain ⟨digest, hdigest, bytes, rfl, hshown⟩ := hcall.2 write hsent status hstatus hphase
    refine ⟨bytes, hdigest, hshown, fun hundisturbed => ?_⟩
    obtain ⟨start, hstart, hbytes⟩ := hshown
    obtain ⟨before, between, rfl⟩ := List.append_of_mem hstart
    have hbetween : ∀ other ∈ between, Files.Preserves (destination spec)
        other.1.volume.files other.2.volume.files := by
      intro other hother
      obtain ⟨past, hguar⟩ := (kept_append.mp hkept).1.mem
        (List.mem_append_right before (List.mem_cons_of_mem _ hother))
      exact hpreserves _ _ _ hguar
    unfold Undisturbed at hundisturbed
    rw [List.append_assoc] at hundisturbed
    exact content_undisturbed hbytes hbetween hundisturbed.right_of_append

end

namespace Sample

open Blake3Hex.Sample (b3)

def digest : Blake3Hex := b3 [1, 2, 3]

def identity (_ _ : Text) : Bytes := []

def remote (_ : Text × List Component) : Bytes := [1, 2, 3]

def spec : JobSpec where
  libraryRoot := "/library"
  rangeConcurrency := 1
  titleId := "movie:tmdb:603"
  remoteRoot := "seedbox"
  remotePath := "a.mkv"
  destRel := "movies/The.Matrix.(1999)/The.Matrix.(1999).mkv"
  fileLen := 3
  rangeLen := 2
  nodeName := "pull"
  workerKind := "pull"

def status : JobStatus where
  phase := .Verifying
  attempts := 1
  startedUnix := 1
  verifiedB3 := some digest

def job : HomeObject := HomeObject.new .Job "job".toList (.Job spec) (.Job status)

def title : HomeObject := HomeObject.new .Title spec.titleId (.Title { titleId := spec.titleId })
  (.Title {
    files := [{ path := spec.destRel, installB3 := digest, currentB3 := digest }]
    path := spec.destRel
    installB3 := some digest
    currentB3 := some digest })

-- The file is in the library, and the worker was killed before it could say so.
def found : World where
  volume := {
    files := {
      dir := [(destination spec, .File 0)]
      data := fun _ => [1, 2, 3]
      next := 1
      distinct := List.nodup_singleton _
      bound := Files.bound_one }
    sidecars := fun _ => .Absent }
  store := { objects := [job, title], rv := 2, floor := 0, history := [] }

def ran : Ran World PullError Unit :=
  @claimAndRun UnicodeTables.ascii b3 identity remote (fun _ => {}) 0 found

def installed : JobStatus := { status with phase := .Installed, bytesDone := 3 }

theorem ran_length : 16 < ran.calls.length := by decide +kernel

theorem ran_taken : @taken UnicodeTables.ascii ran = some job := by decide +kernel

-- The seventeenth call is the report.
theorem ran_reports : (ran.calls.get ⟨16, ran_length⟩).1.sent.length = 0 ∧
    (ran.calls.get ⟨16, ran_length⟩).2.sent.map Write.object =
      [{ job with status := .Job installed }] := by
  decide +kernel

theorem leaves_none (spec : JobSpec) :
    (@termsOf UnicodeTables.ascii b3 identity spec).allowed {} :=
  fun _ _ _ => ⟨Files.Apart.refl _ _, rfl⟩

end Sample

theorem install_crash_safe_found :
    ∃ bytes, Sample.installed.verifiedB3 = some (Blake3Hex.Sample.b3 bytes) ∧
      Shown (destination Sample.spec) bytes (Sample.ran.calls.take 16) := by
  let := UnicodeTables.ascii
  obtain ⟨hbefore, hafter⟩ := Sample.ran_reports
  obtain ⟨write, hsent, hobject⟩ := List.map_eq_singleton_iff.mp hafter
  have hsplit : Sample.ran.calls =
      Sample.ran.calls.take 16 ++
        Sample.ran.calls.get ⟨16, Sample.ran_length⟩ :: Sample.ran.calls.drop 17 := by
    rw [List.get_eq_getElem, ← List.drop_eq_getElem_cons Sample.ran_length, List.take_append_drop]
  have hsafe := @install_crash_safe _ Blake3Hex.Sample.b3 Sample.identity Sample.remote Sample.spec [{}]
    Sample.found
    (by
      intro pass hpass n spec
      rw [List.mem_singleton.mp hpass]
      exact Sample.leaves_none spec)
    Sample.ran List.mem_cons_self Sample.job Sample.ran_taken rfl _ _ _ hsplit
  obtain ⟨bytes, hdigest, hshown, -⟩ := hsafe.2 write Sample.installed
    (by rw [hsent, List.eq_nil_of_length_eq_zero hbefore]; rfl) (by rw [hobject]) rfl
  exact ⟨bytes, hdigest, hshown⟩

end Mediaops.Pull
