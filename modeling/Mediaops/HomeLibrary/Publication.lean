import Mathlib.Data.List.Dedup
import Mediaops.HomeLibrary.Kept

namespace Mediaops.HomeLibrary

-- The rows of the library, the publication of one of them, and maintenance.

open Admission (observedFilesOf)
open TitleIndex (TitleIndexEntry)

variable [UnicodeTables] {b3 : Bytes → Blake3Hex} {root : Text} {known : Set Proof}

section Rows

-- A row of Home, as the program reads it.
def Listed (known : Set Proof) (row : TitleIndexEntry) : Prop := Proof.of row ∈ known ∧ Spelled row.path

theorem secure_rows (premise : Premise root known) {cluster : HomeObject} (hrooted : Rooted root cluster)
    {includeDrifted : Bool} {P : World → Prop} (hstable : Stable root P) :
    Secure b3 root known P (rows cluster includeDrifted) fun rows w =>
      P w ∧ ∀ row ∈ rows, Listed known row := by
  unfold HomeLibrary.rows
  refine Runs.bind (A := fun titles w => Kept b3 root known w ∧ P w ∧
    ∀ title ∈ titles, title ∈ w.store.objects ∧ title.kind = .Title) ?_ fun titles => ?_
  · exact Runs.mapError (secure_list hstable)
  refine Runs.bind (A := fun found w => Kept b3 root known w ∧ (P w ∧
    ∀ title ∈ titles, title ∈ w.store.objects ∧ title.kind = .Title) ∧ found = root) ?_ fun found => ?_
  · exact secure_lift fun found hfound w hw => ⟨hw, root_ok hfound hrooted⟩
  refine Runs.bind (A := fun rows w => Kept b3 root known w ∧ P w ∧ found = root ∧
    ∀ row ∈ rows, Listed known row) ?_ fun rows => ?_
  · apply runs_lift
    · rintro rows hrows w ⟨hkept, ⟨hw, htitles⟩, hroot⟩
      refine ⟨hkept, hw, hroot, fun row hrow => ?_⟩
      obtain ⟨title, htitle, spec, hspec, hparsed, file, hfile, hentry⟩ := rowsFromObjects_mem hrows hrow
      obtain ⟨hmem, hkind⟩ := htitles title htitle
      have hname : spec.titleId = title.metadata.name := hkept.orderly.named title hmem spec hspec
      have hget : w.store.get .Title title.metadata.name = some title := by
        rw [← hkind]
        exact hkept.orderly.sound.get_of_mem hmem
      have hknown : (⟨title.metadata.name, file.path, file.installB3⟩ : Proof) ∈ known := by
        rw [← hkept.known, recorded_of_get hget]
        exact ⟨file.currentB3, file, hfile, rfl, rfl, rfl⟩
      obtain ⟨titleId, hid, hrender⟩ := premise.titles _ hknown
      have hsame : titleId = row.titleId := by
        rw [hname, hid] at hparsed
        cases hparsed
        rfl
      have hproof : Proof.of row = ⟨title.metadata.name, file.path, file.installB3⟩ := by
        unfold Proof.of
        rw [← hsame, hrender, ← hentry]
        rfl
      refine ⟨hproof ▸ hknown, ?_⟩
      rw [← hentry]
      exact premise.spelled _ hknown
    · exact fun _ hw => hw.1
  · apply runs_lift
    · rintro relative hrelative w ⟨hkept, hw, rfl, hlisted⟩
      refine ⟨hkept, hw, fun row hrow => ?_⟩
      obtain ⟨old, hold, path, hpath, rfl⟩ := relativeRows_mem hrelative hrow
      have hspelled := (hlisted old hold).2
      rw [hspelled.schemaRelative] at hpath
      cases hpath
      exact hlisted old hold
    · exact fun _ hw => hw.1

end Rows

section Publish

variable {P : World → Prop}

omit [UnicodeTables] in
theorem secure_hashFile {path : Text} (hstable : Stable root P) :
    Secure b3 root known P (hashFile b3 path) fun digest w =>
      P w ∧ (w.disk.volume.files.content path).map b3 = some digest := by
  unfold hashFile
  refine Runs.bind (A := fun i w => Kept b3 root known w ∧ P w ∧
    w.disk.volume.files.node path = some (.File i)) ?_ fun i => ?_
  · apply secure_look hstable
    intro w i hw hok
    split at hok
    · next hnode =>
      cases hok
      exact ⟨hw, hnode⟩
    · cases hok
    · cases hok
  refine Runs.bind (A := fun bytes w => Kept b3 root known w ∧ P w ∧
    w.disk.volume.files.content path = some bytes) ?_ fun bytes => ?_
  · apply secure_look (hstable.and (stable_disk (p := fun disk => disk.volume.files.node path = some (.File i))))
    intro w bytes hw hok
    cases hok
    exact ⟨hw.1, Files.content_file hw.2⟩
  · apply secure_pure
    intro w hw
    rw [hw.2]
    exact ⟨hw.1, rfl⟩

-- What one row makes of the files observed so far.
def Replaced (row : TitleIndexEntry) (files files' : List TitleFileStatus) : Prop :=
  ∀ path installB3, observes files' path installB3 =
    if path = row.path then { current | installB3 = row.installB3 ∧ current = row.currentB3 }
    else observes files path installB3

theorem replaced_append (row : TitleIndexEntry) (files : List TitleFileStatus)
    (isDrifted : Bool) : Replaced row files (files.filter (fun file => file.path ≠ row.path) ++
      [{ path := row.path, installB3 := row.installB3, currentB3 := row.currentB3, drifted := isDrifted }]) := by
  intro path installB3
  ext current
  simp only [observes, Set.mem_ofPred_eq, List.mem_append, List.mem_filter, List.mem_singleton]
  by_cases hpath : path = row.path
  · rw [if_pos hpath]
    constructor
    · rintro ⟨file, ⟨-, hne⟩ | rfl, hfile, hinstall, hcurrent⟩
      · exact absurd (hfile.trans hpath) (by simpa using hne)
      · exact ⟨hinstall.symm, hcurrent.symm⟩
    · rintro ⟨rfl, rfl⟩
      exact ⟨_, .inr rfl, hpath.symm, rfl, rfl⟩
  · rw [if_neg hpath]
    constructor
    · rintro ⟨file, ⟨hfile, -⟩ | rfl, hfacts⟩
      · exact ⟨file, hfile, hfacts⟩
      · exact absurd hfacts.1.symm hpath
    · rintro ⟨file, hfile, hfacts⟩
      exact ⟨file, .inl ⟨hfile, by simpa [hfacts.1] using hpath⟩, hfacts⟩

theorem secure_observeRow {row : TitleIndexEntry} (hspelled : Spelled row.path)
    (files : List TitleFileStatus) (hstable : Stable root P) :
    Secure b3 root known P (observeRow b3 root false files row) fun files' w =>
      P w ∧ hashAt b3 root w row.path = some row.currentB3 ∧ Replaced row files files' := by
  unfold observeRow
  refine Runs.bind (A := fun path w => Kept b3 root known w ∧ P w ∧ path = row.path) ?_ fun path => ?_
  · apply secure_lift
    intro path hpath w hw
    rw [hspelled.schemaRelative] at hpath
    cases hpath
    exact ⟨hw, rfl⟩
  apply Runs.of_pre fun _ hw => hw.2.2
  rintro rfl
  refine Runs.bind (A := fun (result : Except HashError Blake3Hex) w => Kept b3 root known w ∧
    ∀ digest, result = .ok digest → P w ∧ hashAt b3 root w row.path = some digest) ?_ fun result => ?_
  · apply Secure.caught
    · refine (secure_hashFile hstable).mono (fun w hw => hw.1) fun digest w hw => ?_
      rintro _ ⟨⟩
      exact hw
    · rintro e w digest ⟨⟩
  cases result with
  | error e =>
      cases e with
      | NotFound => exact (runs_throw fun _ hw => hw.1).bind (A := fun _ _ => False) fun _ _ _ h => h.elim
      | Io => exact (runs_throw fun _ hw => hw.1).bind (A := fun _ _ => False) fun _ _ _ h => h.elim
  | ok digest =>
      dsimp only
      rw [Prog.pure_bind]
      apply runs_guard
      · exact fun _ hw => hw.1
      intro hsame
      have hdigest : digest = row.currentB3 := by simpa using hsame
      subst hdigest
      have hlast : Secure b3 root known (fun w => ∀ digest : Blake3Hex,
            Except.ok (ε := HashError) row.currentB3 = .ok digest → P w ∧ hashAt b3 root w row.path = some digest)
          (pure (files.filter (fun file => file.path ≠ row.path) ++ [{
            path := row.path
            installB3 := row.installB3
            currentB3 := row.currentB3
            drifted := decide (row.currentB3 ≠ row.currentB3) }]) : Prog World AppError _)
          fun files' w => P w ∧ hashAt b3 root w row.path = some row.currentB3 ∧ Replaced row files files' := by
        apply secure_pure
        intro w hw
        obtain ⟨hp, hactual⟩ := hw _ rfl
        exact ⟨hp, hactual, replaced_append row files _⟩
      split
      · apply runs_guard
        · exact fun _ hw => hw.1
        · exact fun _ => hlast
      · exact hlast

theorem secure_observeRows {row : TitleIndexEntry} (hspelled : Spelled row.path)
    (files : List TitleFileStatus) (hstable : Stable root P) :
    Secure b3 root known P (observeRows b3 root false [row] files) fun files' w =>
      P w ∧ hashAt b3 root w row.path = some row.currentB3 ∧ Replaced row files files' := by
  unfold observeRows
  refine Runs.bind (secure_observeRow hspelled files hstable) fun files' => ?_
  exact secure_pure fun _ hw => hw

-- The record of one file changes to what is there.
theorem Kept.publish (premise : Premise root known) {row : TitleIndexEntry}
    {files files' : List TitleFileStatus} {w w' : World} (h : Kept b3 root known w)
    (hrow : Proof.of row ∈ known) (hdisk : w'.disk = w.disk) (hproofs : w'.proofs = w.proofs)
    (horderly : Orderly root w'.store)
    (hreads : ∀ path installB3, recorded w.store ⟨row.titleId.render, path, installB3⟩ =
      observes files path installB3)
    (hreplaced : Replaced row files files') (hactual : hashAt b3 root w row.path = some row.currentB3)
    (hrecorded : ∀ proof, recorded w'.store proof =
      if proof.titleId = row.titleId.render then observes files' proof.path proof.installB3
      else recorded w.store proof) :
    Kept b3 root known w' ∧ recorded w'.store (Proof.of row) = {row.currentB3} := by
  have hnew : ∀ proof, recorded w'.store proof =
      if proof = Proof.of row then {row.currentB3} else recorded w.store proof := by
    rintro ⟨titleId, path, installB3⟩
    rw [hrecorded]
    by_cases htitle : titleId = row.titleId.render
    · subst htitle
      rw [if_pos rfl, hreplaced]
      by_cases hpath : path = row.path
      · subst hpath
        rw [if_pos rfl]
        by_cases hinstall : installB3 = row.installB3
        · subst hinstall
          have hsame : (⟨row.titleId.render, row.path, row.installB3⟩ : Proof) = Proof.of row := rfl
          rw [if_pos hsame]
          ext current
          simp
        · -- No other digest is known for this path.
          have hother : (⟨row.titleId.render, row.path, installB3⟩ : Proof) ≠ Proof.of row :=
            fun h => hinstall (congrArg Proof.installB3 h)
          rw [if_neg hother]
          have hnone : ¬(recorded w.store ⟨row.titleId.render, row.path, installB3⟩).Nonempty := by
            rw [h.known]
            exact fun hknown => hother (premise.once _ hknown _ hrow rfl)
          rw [Set.not_nonempty_iff_eq_empty.mp hnone]
          ext current
          simp [hinstall]
      · rw [if_neg hpath, if_neg fun h => hpath (congrArg Proof.path h), hreads]
    · rw [if_neg htitle, if_neg fun h => htitle (congrArg Proof.titleId h)]
  refine ⟨⟨horderly, fun proof => ?_, fun proof => ?_, ?_⟩, by rw [hnew, if_pos rfl]⟩
  · rw [hnew]
    by_cases hsame : proof = Proof.of row
    · subst hsame
      rw [if_pos rfl]
      exact ⟨fun _ => hrow, fun _ => Set.singleton_nonempty _⟩
    · rw [if_neg hsame]
      exact h.known proof
  · rw [hnew]
    by_cases hsame : proof = Proof.of row
    · rw [if_pos hsame]
      exact Set.subsingleton_singleton
    · rw [if_neg hsame]
      exact h.single proof
  · have hthere : (handover b3 root w).actual (Proof.of row) = some row.currentB3 := hactual
    refine h.covered.record hthere (fun proof current hcurrent => ?_) ?_ ?_
    · change current ∈ recorded w'.store proof at hcurrent
      rw [hnew] at hcurrent
      by_cases hsame : proof = Proof.of row
      · rw [if_pos hsame] at hcurrent
        exact .inl ⟨hsame, hcurrent⟩
      · rw [if_neg hsame] at hcurrent
        exact .inr hcurrent
    · funext proof
      simp only [handover, hashAt, hdisk]
    · intro proof entry hentry
      simp only [handover, World.note, World.entries, hproofs] at hentry ⊢
      exact hentry

-- The Title's files as Home had them when it was read, and the file on the disk.
def Ready (b3 : Bytes → Blake3Hex) (root : Text) (row : TitleIndexEntry) (files : List TitleFileStatus)
    (w : World) : Prop :=
  (∀ path installB3, recorded w.store ⟨row.titleId.render, path, installB3⟩ =
    observes files path installB3) ∧ hashAt b3 root w row.path = some row.currentB3

-- Home has the digest of what is there.
def Published (b3 : Bytes → Blake3Hex) (root : Text) (row : TitleIndexEntry) (w : World) : Prop :=
  recorded w.store (Proof.of row) = {row.currentB3} ∧ hashAt b3 root w row.path = some row.currentB3

theorem stable_reads (row : TitleIndexEntry) (files : List TitleFileStatus) : Stable root fun w =>
    ∀ path installB3, recorded w.store ⟨row.titleId.render, path, installB3⟩ =
      observes files path installB3 :=
  stable_recorded (p := fun f => ∀ path installB3, f ⟨row.titleId.render, path, installB3⟩ =
    observes files path installB3)

omit [UnicodeTables] in
theorem stable_hashAt (path : Text) (digest : Blake3Hex) : Stable root fun w =>
    hashAt b3 root w path = some digest :=
  stable_disk (p := fun disk => (disk.volume.files.content (Path.join root path)).map b3 = some digest)

theorem secure_patchTitle (premise : Premise root known) {row : TitleIndexEntry}
    (hrow : Proof.of row ∈ known) {obj : HomeObject} (hkind : obj.kind = .Title)
    (hname : obj.metadata.name = row.titleId.render) {files files' : List TitleFileStatus}
    (hreplaced : Replaced row files files') :
    Secure b3 root known (Ready b3 root row files)
      (patch b3 .PatchStatus { obj with status := .Title (observed files') })
      fun _ => Published b3 root row := by
  apply secure_submit ((stable_reads row files).and (stable_hashAt row.path row.currentB3))
  intro w hkept hw
  have hkind' : ({ obj with status := .Title (observed files') } : HomeObject).kind = .Title := hkind
  rcases patch_title { now := 0, disk := Pull.diskOf b3 w.disk.volume } hkept.orderly hkind' hname rfl with
    ⟨⟨e, he⟩, hsame⟩ | ⟨horderly, hrecorded⟩
  · have hworld : (serve b3 (.Patch .PatchStatus { obj with status := .Title (observed files') }) w).2 = w := by
      unfold serve
      dsimp only at hsame ⊢
      rw [hsame]
    rw [hworld]
    refine ⟨hkept, fun hok => ?_⟩
    cases he.symm.trans hok
  · have hafter : ∀ w', w' = (serve b3 (.Patch .PatchStatus
        { obj with status := .Title (observed files') }) w).2 →
        Kept b3 root known w' ∧ recorded w'.store (Proof.of row) = {row.currentB3} := by
      rintro _ rfl
      exact hkept.publish premise hrow rfl rfl horderly hw.1 hreplaced hw.2 hrecorded
    exact ⟨(hafter _ rfl).1, fun _ => ⟨(hafter _ rfl).2, hw.2⟩⟩

-- A Title that Home knows a file of is there.
theorem secure_openTitle {proof : Proof} (hknown : proof ∈ known) (last : Bool) :
    Secure b3 root known (fun _ => True) (openTitle b3 proof.titleId last) fun found w =>
      ∃ object, found = some object ∧ object.kind = .Title ∧ object.metadata.name = proof.titleId ∧
        ∀ path installB3, recorded w.store ⟨proof.titleId, path, installB3⟩ =
          observes (observedFilesOf object) path installB3 := by
  unfold openTitle
  refine Runs.bind (A := fun (result : Except ClientError HomeObject) w => Kept b3 root known w ∧
    (∀ object, result = .ok object → w.store.get .Title proof.titleId = some object) ∧
      ∀ e, result = .error e → e.isNotFound = false) ?_ fun result => ?_
  · rintro past w ⟨hkept, -⟩
    apply wp_mapError
    apply wp_attempt
    apply wp_perform
    rintro move hmove _ o after rfl hanswer
    have hthere : Kept b3 root known (move.outside w) := hkept.aside (hmove w)
    refine ⟨trivial, ?_⟩
    unfold Call.answer at hanswer
    split at hanswer
    · cases hget : (move.outside w).store.get .Title proof.titleId with
      | some object =>
          simp only [hget] at hanswer
          cases hanswer
          refine ⟨hthere, fun found hfound => ?_, fun _ herror => by cases herror⟩
          cases hfound
          exact hget
      | none =>
          obtain ⟨current, title, htitle, -⟩ := (hthere.known proof).mpr hknown
          rw [hget] at htitle
          cases htitle
    · cases hanswer
      refine ⟨hthere, fun _ hfound => (by cases hfound), fun _ herror => ?_⟩
      cases herror
      rfl
    · cases hanswer
      exact hthere
  · cases result with
    | ok object =>
        apply secure_pure
        rintro w ⟨hok, -⟩
        have hget := hok object rfl
        have hkey := Store.get_key hget
        exact ⟨object, rfl, congrArg Prod.fst hkey, congrArg Prod.snd hkey, fun path installB3 =>
          recorded_of_get hget path installB3⟩
    | error e =>
        apply Runs.of_pre fun _ hw => hw.2.2 e rfl
        intro hfound
        apply runs_ite
        · exact fun h => by rw [hfound] at h; cases h
        · exact fun _ => secure_throw

-- One attempt, with another one to follow unless it is the last.
theorem secure_publishOnce (premise : Premise root known) {row : TitleIndexEntry}
    (hrow : Listed known row) {attempts : Nat}
    (again : attempts ≠ 0 → Secure b3 root known (fun _ => True)
      (publishTitle b3 root false row.titleId.render [row] attempts) fun _ => Published b3 root row) :
    Secure b3 root known (fun _ => True)
      (publishTitle b3 root false row.titleId.render [row] (attempts + 1))
      fun _ => Published b3 root row := by
  unfold publishTitle
  refine Runs.bind (secure_openTitle hrow.1 _) fun found => ?_
  apply Runs.of_pre (p := ∃ object, found = some object ∧ object.kind = .Title ∧
    object.metadata.name = row.titleId.render)
  · rintro w ⟨-, object, hobject, hkind, hname, -⟩
    exact ⟨object, hobject, hkind, hname⟩
  rintro ⟨object, rfl, hkind, hname⟩
  dsimp only
  split
  · next status hstatus =>
    have hfiles : observedFilesOf object = status.observedFiles := by rw [observedFilesOf, hstatus]
    refine Runs.bind ((secure_observeRows hrow.2 status.observedFiles
      (stable_reads row status.observedFiles)).mono ?_ fun _ _ hw => hw) fun files => ?_
    · rintro w ⟨found, hfound, -, -, hreads⟩
      cases hfound
      rw [← hfiles]
      exact hreads
    apply Runs.of_pre fun _ hw => hw.2.2.2
    intro hreplaced
    refine Runs.bind (A := fun (result : Except ClientError HomeObject) w => Kept b3 root known w ∧
      ∀ written, result = .ok written → Published b3 root row w) ?_ fun result => ?_
    · apply Secure.caught
      · refine (secure_patchTitle premise hrow.1 hkind hname hreplaced).mono
          (fun w hw => ⟨hw.1, hw.2.1⟩) fun written w hw => ?_
        exact fun _ _ => hw
      · rintro e w written ⟨⟩
    · cases result with
      | ok written => exact secure_pure fun w hw => hw written rfl
      | error e =>
          apply runs_ite
          · intro hagain
            have hne : attempts ≠ 0 := by simpa using (Bool.and_eq_true_iff.mp hagain).2
            exact (again hne).mono (fun _ _ => trivial) fun _ _ hw => hw
          · exact fun _ => secure_throw
  · exact secure_throw

theorem secure_publishTitle (premise : Premise root known) {row : TitleIndexEntry}
    (hrow : Listed known row) (attempts : Nat) :
    Secure b3 root known (fun _ => True)
      (publishTitle b3 root false row.titleId.render [row] (attempts + 1))
      fun _ => Published b3 root row := by
  induction attempts with
  | zero => exact secure_publishOnce premise hrow fun h => absurd rfl h
  | succ attempts ih => exact secure_publishOnce premise hrow fun _ => ih

theorem grouped_single (row : TitleIndexEntry) : grouped [row] = [(row.titleId.render, [row])] := by
  have hone : [row.titleId.render].dedup = [row.titleId.render] :=
    List.Nodup.dedup (List.nodup_singleton _)
  simp [grouped, hone]

theorem secure_publishRows (premise : Premise root known) {cluster : HomeObject}
    (hrooted : Rooted root cluster) {row : TitleIndexEntry} (hrow : Listed known row) :
    Secure b3 root known (fun _ => True) (publishRows b3 cluster [row] false)
      fun _ => Published b3 root row := by
  unfold publishRows
  refine Runs.bind (A := fun found w => Kept b3 root known w ∧ found = root) ?_ fun found => ?_
  · exact secure_lift fun found hfound _ _ => root_ok hfound hrooted
  apply Runs.of_pre fun _ hw => hw.2
  rintro rfl
  rw [grouped_single]
  unfold publishGroups
  refine Runs.bind ((secure_publishTitle premise hrow 4).mono (fun _ _ => trivial)
    fun _ _ hw => hw) fun _ => ?_
  exact secure_pure fun _ hw => hw

-- The row of the path gets the digest of the file.
theorem secure_recordReplace (premise : Premise root known) {cluster : HomeObject}
    (hrooted : Rooted root cluster) {proof : Proof} (hknown : proof ∈ known) (digest : Blake3Hex) :
    Secure b3 root known (fun _ => True) (recordReplace b3 cluster proof.path digest) fun _ w =>
      recorded w.store proof = {digest} ∧ hashAt b3 root w proof.path = some digest := by
  unfold recordReplace
  refine Runs.bind (secure_rows premise hrooted stable_true) fun rows => ?_
  apply Runs.of_pre fun _ hw => hw.2.2
  intro hlisted
  cases hfound : rows.find? fun row => row.path = proof.path with
  | none => exact secure_throw
  | some row =>
      have hpath : row.path = proof.path := by simpa using List.find?_some hfound
      have hrow := hlisted row (List.mem_of_find?_eq_some hfound)
      have hproof : Proof.of row = proof := premise.once _ hrow.1 _ hknown hpath
      have hmade : Proof.of { row with path := proof.path, currentB3 := digest } = proof := by
        rw [← hproof]
        rfl
      have hmadeListed : Listed known { row with path := proof.path, currentB3 := digest } := by
        refine ⟨hmade ▸ hknown, ?_⟩
        rw [← hpath]
        exact hrow.2
      refine (secure_publishRows premise hrooted hmadeListed).mono (fun _ _ => trivial) ?_
      intro _ w hw
      unfold Published at hw
      rw [hmade] at hw
      exact hw

end Publish

section Notes

-- Nothing of this touches the notes.

omit [UnicodeTables] in
theorem notes_get (kind : Kind) (name : Text) : Disregards World.proofs (get kind name) := by
  apply disregards_perform
  · intro pick w obj w' hok
    dsimp only at hok
    split at hok
    · cases hok
      rfl
    · cases hok
  · exact fun _ _ => rfl

omit [UnicodeTables] in
theorem notes_list (kind : Kind) : Disregards World.proofs (list kind) := by
  apply disregards_perform
  · intro pick w objects w' hok
    cases hok
    rfl
  · exact fun _ _ => rfl

theorem notes_submit (request : Serve.Request) (obj : HomeObject) :
    Disregards World.proofs (submit b3 request obj) := by
  unfold submit
  refine Disregards.bind ?_ fun answer => disregards_lift _
  apply disregards_perform
  · intro pick w answer w' hok
    rw [(submission_run hok).1]
    rfl
  · intro part w
    unfold submission
    dsimp only
    split
    · rfl
    · rfl

omit [UnicodeTables] in
theorem notes_look {ε α : Type} (fault : ε) (f : Transfer.Volume → Except ε α) :
    Disregards World.proofs (Transfer.look fault f : Prog World ε α) := by
  apply disregards_perform
  · intro pick w a w' hok
    obtain ⟨⟨a', v⟩, -, heq⟩ := Checks.map_ok hok
    cases heq
    rfl
  · exact fun _ _ => rfl

omit [UnicodeTables] in
theorem notes_caught {ε α : Type} {m : Prog World ε α} (h : Disregards World.proofs m) :
    Disregards World.proofs (caught m) :=
  h.attempt.mapError

omit [UnicodeTables] in
theorem notes_hashFile (path : Text) : Disregards World.proofs (hashFile b3 path) := by
  unfold hashFile
  refine (notes_look _ _).bind fun i => ?_
  exact (notes_look _ _).bind fun bytes => disregards_pure _

theorem notes_observeRow (files : List TitleFileStatus) (row : TitleIndexEntry) :
    Disregards World.proofs (observeRow b3 root false files row) := by
  unfold observeRow
  refine (disregards_lift _).bind fun path => ?_
  refine (notes_caught (notes_hashFile _)).bind fun result => ?_
  cases result with
  | error e =>
      cases e with
      | NotFound => exact disregards_throw_bind _ _
      | Io => exact disregards_throw_bind _ _
  | ok digest =>
      dsimp only
      rw [Prog.pure_bind]
      apply disregards_guard
      split
      · apply disregards_guard
        exact disregards_pure _
      · exact disregards_pure _

theorem notes_observeRows (rows : List TitleIndexEntry) (files : List TitleFileStatus) :
    Disregards World.proofs (observeRows b3 root false rows files) := by
  induction rows generalizing files with
  | nil => exact disregards_pure _
  | cons row rows ih => exact (notes_observeRow files row).bind fun files => ih files

theorem notes_openTitle (titleId : Text) (last : Bool) :
    Disregards World.proofs (openTitle b3 titleId last) := by
  unfold openTitle
  refine (notes_caught (notes_get _ _)).bind fun result => ?_
  cases result with
  | ok object => exact disregards_pure _
  | error e =>
      apply disregards_ite
      · refine (notes_caught (notes_submit _ _)).bind fun result => ?_
        cases result with
        | ok object => exact disregards_pure _
        | error e => exact disregards_ite (disregards_pure _) (disregards_throw _)
      · exact disregards_throw _

theorem notes_publishTitle (titleId : Text) (rows : List TitleIndexEntry) (attempts : Nat) :
    Disregards World.proofs (publishTitle b3 root false titleId rows attempts) := by
  induction attempts with
  | zero => exact disregards_pure _
  | succ attempts ih =>
      unfold publishTitle
      refine (notes_openTitle _ _).bind fun found => ?_
      cases found with
      | none => exact ih
      | some object =>
          dsimp only
          split
          · refine (notes_observeRows _ _).bind fun files => ?_
            refine (notes_caught (notes_submit _ _)).bind fun result => ?_
            cases result with
            | ok written => exact disregards_pure _
            | error e => exact disregards_ite ih (disregards_throw _)
          · exact disregards_throw _

theorem notes_publishGroups (groups : List (Text × List TitleIndexEntry)) :
    Disregards World.proofs (publishGroups b3 root false groups) := by
  induction groups with
  | nil => exact disregards_pure _
  | cons group groups ih => exact (notes_publishTitle _ _ _).bind fun _ => ih

theorem notes_publishRows (cluster : HomeObject) (rows : List TitleIndexEntry) :
    Disregards World.proofs (publishRows b3 cluster rows false) :=
  (disregards_lift _).bind fun _ => notes_publishGroups _

theorem notes_recordReplace (cluster : HomeObject) (path : Text) (digest : Blake3Hex) :
    Disregards World.proofs (recordReplace b3 cluster path digest) := by
  unfold recordReplace
  refine Disregards.bind ?_ fun rows => ?_
  · unfold HomeLibrary.rows
    refine (notes_list _).mapError.bind fun titles => ?_
    refine (disregards_lift _).bind fun found => ?_
    exact (disregards_lift _).bind fun rows => disregards_lift _
  · cases rows.find? fun row => row.path = path with
    | none => exact disregards_throw _
    | some row => exact notes_publishRows _ _

-- A fact about the notes alone.
def OnNotes (N : World → Prop) : Prop := ∀ w w', w'.proofs = w.proofs → N w → N w'

omit [UnicodeTables] in
theorem OnNotes.stable {N : World → Prop} (hN : OnNotes N) : Stable root N :=
  fun w w' haside hw => hN w w' haside.proofs hw

omit [UnicodeTables] in
theorem Secure.noting {ε α : Type} {P N : World → Prop} {m : Prog World ε α} {A : α → World → Prop}
    (h : Secure b3 root known P m A) (hm : Disregards World.proofs m) (hN : OnNotes N) :
    Secure b3 root known (fun w => P w ∧ N w) m fun a w => A a w ∧ N w := by
  refine (Runs.disregarding h hm (fun _ hmove w => (hmove w).proofs)
    fun proofs => ∀ v : World, v.proofs = proofs → N v).mono ?_ ?_ ?_
  · exact fun w hw => ⟨⟨hw.1, hw.2.1⟩, fun v hv => hN w v hv hw.2.2⟩
  · exact fun a w hw => ⟨hw.1.1, hw.1.2, hw.2 w rfl⟩
  · exact fun w hw => hw.1

end Notes

section Maintenance

variable {ε α : Type} {P : World → Prop} {B : α → Prop}

-- A part that does nothing others could not do.
abbrev Idle (b3 : Bytes → Blake3Hex) (root : Text) (known : Set Proof) (P : World → Prop)
    (m : Prog World ε α) (B : α → Prop) : Prop :=
  Runs (fun _ w => w) (others root) (fun w => Kept b3 root known w ∧ P w) m
    (fun a w => (Kept b3 root known w ∧ P w) ∧ B a) (fun w => Kept b3 root known w ∧ P w)

omit [UnicodeTables] in
theorem idle_perform {c : Call World ε α} (hstable : Stable root P)
    (hrun : ∀ w pick a w', Kept b3 root known w → c.run pick w = .ok (a, w') → Aside root w w' ∧ B a)
    (hpart : ∀ w part, Kept b3 root known w → Aside root w (c.partly part w)) :
    Idle b3 root known P (Prog.perform c) B := by
  rintro past w ⟨hkept, hw⟩
  apply wp_perform
  rintro move hmove _ o after rfl hanswer
  have hthere : Kept b3 root known (move.outside w) := hkept.aside (hmove w)
  have hstill : P (move.outside w) := hstable _ _ (hmove w) hw
  have hafter : ∀ w', Aside root (move.outside w) w' → Kept b3 root known w' ∧ P w' :=
    fun w' haside => ⟨hthere.aside haside, hstable _ _ haside hstill⟩
  refine ⟨trivial, ?_⟩
  unfold Call.answer at hanswer
  split at hanswer
  · split at hanswer
    · next hok =>
      cases hanswer
      obtain ⟨haside, hb⟩ := hrun _ _ _ _ hthere hok
      exact ⟨hafter _ haside, hb⟩
    · cases hanswer
      exact ⟨hthere, hstill⟩
  · cases hanswer
    exact hafter _ (hpart _ _ hthere)
  · cases hanswer
    exact hafter _ (hpart _ _ hthere)

omit [UnicodeTables] in
theorem Aside.refl (w : World) : Aside root w w := ⟨rfl, rfl, fun _ => rfl, id⟩

omit [UnicodeTables] in
theorem idle_get {kind : Kind} {name : Text} (hstable : Stable root P) :
    Idle b3 root known P (get kind name) fun obj => obj.kind = kind ∧ Rooted root obj := by
  apply idle_perform hstable
  · intro w pick obj w' hkept hok
    dsimp only at hok
    split at hok
    · next found hfound =>
      cases hok
      exact ⟨.refl w, congrArg Prod.fst (Store.get_key hfound),
        hkept.orderly.rooted _ (Store.get_mem hfound)⟩
    · cases hok
  · exact fun w _ _ => .refl w

omit [UnicodeTables] in
theorem idle_list {kind : Kind} (hstable : Stable root P) :
    Idle b3 root known P (list kind) fun _ => True := by
  apply idle_perform hstable
  · intro w pick objects w' _ hok
    cases hok
    exact ⟨.refl w, trivial⟩
  · exact fun w _ _ => .refl w

theorem idle_patchCluster {cluster : HomeObject} {spec : ClusterSpec} (hkind : cluster.kind = .Cluster)
    (hroot : spec.libraryRoot = root) (hstable : Stable root P) :
    Idle b3 root known P (patch b3 .PatchSpec { cluster with spec := .Cluster spec }) (Rooted root) := by
  have hserved : ∀ w, Kept b3 root known w →
      Aside root w (serve b3 (.Patch .PatchSpec { cluster with spec := .Cluster spec }) w).2 := by
    intro w hkept
    obtain ⟨horderly, hrecorded⟩ := patch_cluster
      { now := 0, disk := Pull.diskOf b3 w.disk.volume } hkept.orderly hkind hroot
    exact ⟨rfl, rfl, hrecorded, fun _ => horderly⟩
  unfold patch submit
  refine Runs.bind (A := fun (answer : Except HomeError HomeObject) w => (Kept b3 root known w ∧ P w) ∧
    ∀ written, answer = .ok written → Rooted root written) ?_ fun answer => ?_
  · apply idle_perform hstable
    · intro w pick answer w' hkept hok
      obtain ⟨rfl, hanswer⟩ := submission_run hok
      refine ⟨hserved w hkept, fun written hwritten => ?_⟩
      rcases (hanswer written hwritten).2 with hfound | rfl
      · exact (hkept.aside (hserved w hkept)).orderly.rooted _ (Store.get_mem hfound)
      · intro spec' hspec
        cases hspec
        exact hroot
    · intro w part hkept
      unfold submission
      dsimp only
      split
      · exact .refl w
      · exact hserved w hkept
  · apply runs_lift
    · exact fun written hwritten w hw => ⟨hw.1, hw.2 written (Checks.mapError_ok hwritten)⟩
    · exact fun w hw => hw.1

theorem idle_setLock (hstable : Stable root P) (locked : Bool) (attempts : Nat) :
    Idle b3 root known P (setLock b3 locked attempts) fun answer => Rooted root answer.2 := by
  induction attempts with
  | zero => exact runs_throw fun _ hw => hw
  | succ attempts ih =>
      unfold setLock
      refine Runs.bind (Runs.mapError (idle_get hstable)) fun cluster => ?_
      apply Runs.of_pre fun _ hw => hw.2
      rintro ⟨hkind, hrooted⟩
      split
      · next spec hspec =>
        refine Runs.bind (A := fun (result : Except ClientError HomeObject) w =>
          (Kept b3 root known w ∧ P w) ∧ ∀ written, result = .ok written → Rooted root written) ?_ fun result => ?_
        · apply Runs.mapError
          apply Runs.attempt
          have hroot : ({ spec with lock := locked } : ClusterSpec).libraryRoot = root :=
            hrooted spec hspec
          refine (idle_patchCluster hkind hroot hstable).mono (fun _ hw => hw.1) ?_ ?_
          · rintro written w ⟨hw, hrooted⟩
            refine ⟨hw, fun _ hsame => ?_⟩
            cases hsame
            exact hrooted
          · refine fun w hw => ⟨hw, fun e => ⟨hw, fun written hsame => ?_⟩⟩
            cases hsame
        · cases result with
          | ok written => exact runs_pure fun w hw => ⟨hw.1, hw.2 written rfl⟩
          | error e =>
              apply runs_ite
              · exact fun _ => ih.mono (fun _ hw => hw.1) (fun _ _ hw => hw) fun _ hw => hw
              · exact fun _ => runs_throw fun _ hw => hw.1
      · exact runs_throw fun _ hw => hw.1

theorem idle_finishMaintenance (hstable : Stable root P) (locked : Bool) :
    Idle b3 root known P (finishMaintenance b3 locked) (Rooted root) := by
  unfold finishMaintenance
  refine Runs.bind (Runs.mapError (idle_setLock hstable locked 5)) fun answer => ?_
  exact runs_pure fun _ hw => hw

theorem idle_beginMaintenance (hstable : Stable root P) :
    Idle b3 root known P (beginMaintenance b3) fun answer => Rooted root answer.2 := by
  unfold beginMaintenance
  refine Runs.bind (idle_setLock hstable true 5) fun answer => ?_
  apply Runs.of_pre fun _ hw => hw.2
  intro hrooted
  refine Runs.bind (A := fun _ w => Kept b3 root known w ∧ P w) ?_ fun jobs => ?_
  · apply Runs.mapError
    apply Runs.mapError
    exact (idle_list hstable).mono (fun _ hw => hw.1) (fun _ _ hw => hw.1) fun _ hw => hw
  apply runs_ite
  · intro _
    refine Runs.bind (idle_finishMaintenance hstable answer.1) fun _ => ?_
    exact runs_throw fun _ hw => hw.1
  · exact fun _ => runs_pure fun _ hw => ⟨hw, hrooted⟩

end Maintenance

end Mediaops.HomeLibrary
