import Mediaops.Api.JobLifecycle

namespace Mediaops.Api

-- Proofs of installed files: they stay, and an installed Job has one.

open Admission (observedFilesOf)

-- Every proof of the first Title, a path with its install digest, is on the second.
def KeepsProofs (a b : HomeObject) : Prop :=
  ∀ file ∈ observedFilesOf a, ∃ kept ∈ observedFilesOf b,
    kept.path = file.path ∧ kept.installB3 = file.installB3

theorem KeepsProofs.of_status {a b : HomeObject} (h : a.status = b.status) : KeepsProofs a b := by
  intro file hfile
  refine ⟨file, ?_, rfl, rfl⟩
  rwa [observedFilesOf, ← h]

theorem KeepsProofs.trans {a b c : HomeObject} (h : KeepsProofs a b) (h' : KeepsProofs b c) :
    KeepsProofs a c := by
  intro file hfile
  obtain ⟨mid, hmid, hpath, hdigest⟩ := h file hfile
  obtain ⟨kept, hkept, hpath', hdigest'⟩ := h' mid hmid
  exact ⟨kept, hkept, hpath'.trans hpath, hdigest'.trans hdigest⟩

-- No Title is lost on the way, and each keeps its proofs.
def Keeps (s s' : Store) : Prop :=
  ∀ name a, s.get .Title name = some a → ∃ b, s'.get .Title name = some b ∧ KeepsProofs a b

theorem Keeps.refl (s : Store) : Keeps s s := fun _ a ha => ⟨a, ha, .of_status rfl⟩

theorem Keeps.trans {s s₁ s' : Store} (h : Keeps s s₁) (h' : Keeps s₁ s') : Keeps s s' := by
  intro name a ha
  obtain ⟨b, hb, hab⟩ := h name a ha
  obtain ⟨c, hc, hbc⟩ := h' name b hb
  exact ⟨c, hc, hab.trans hbc⟩

-- Flagging drift changes no path and no digest.
theorem driftFile_path (disk : Disk) (root : Text) (file : TitleFileStatus) :
    (Controllers.driftFile disk root file).path = file.path := by
  unfold Controllers.driftFile
  split <;> rfl

theorem driftFile_installB3 (disk : Disk) (root : Text) (file : TitleFileStatus) :
    (Controllers.driftFile disk root file).installB3 = file.installB3 := by
  unfold Controllers.driftFile
  split <;> rfl

theorem legacyFile_drift (disk : Disk) (root : Text) (status : TitleStatus) :
    (Controllers.driftStatus disk root status).legacyFile =
      status.legacyFile.map fun file =>
        { file with drifted := (Controllers.driftStatus disk root status).drifted } := by
  have hany : (Controllers.driftStatus disk root status).files.any
      (fun f => decide (f.path = status.path)) =
        status.files.any fun f => decide (f.path = status.path) := by
    simp only [Controllers.driftStatus, List.any_map]
    refine congrArg (List.any status.files) (funext fun file => ?_)
    simp only [Function.comp_apply, driftFile_path]
  generalize hdrift : Controllers.driftStatus disk root status = after at hany ⊢
  have hpath : after.path = status.path := by rw [← hdrift]; rfl
  have hinstall : after.installB3 = status.installB3 := by rw [← hdrift]; rfl
  have hcurrent : after.currentB3 = status.currentB3 := by rw [← hdrift]; rfl
  simp only [TitleStatus.legacyFile, hpath, hinstall, hcurrent, hany]
  split
  · split <;> rfl
  · rfl

-- Whatever is read off the paths and digests alone is as before.
theorem observedFiles_drift {α : Type} (f : Text → Blake3Hex → α) (disk : Disk) (root : Text)
    (status : TitleStatus) :
    (Controllers.driftStatus disk root status).observedFiles.map (fun g => f g.path g.installB3) =
      status.observedFiles.map fun g => f g.path g.installB3 := by
  have hfiles : (Controllers.driftStatus disk root status).files =
      status.files.map (Controllers.driftFile disk root) := rfl
  simp only [TitleStatus.observedFiles, hfiles, legacyFile_drift, List.map_append, List.map_map]
  congr 1
  · refine List.map_congr_left fun file _ => ?_
    simp only [Function.comp_apply, driftFile_path, driftFile_installB3]
  · cases status.legacyFile <;> rfl

theorem keepsProofs_drift {a b : HomeObject} {status : TitleStatus} (disk : Disk) (root : Text)
    (ha : a.status = .Title status)
    (hb : b.status = .Title (Controllers.driftStatus disk root status)) : KeepsProofs a b := by
  intro file hfile
  have hmem : (file.path, file.installB3) ∈
      (observedFilesOf b).map fun g => (g.path, g.installB3) := by
    simp only [observedFilesOf, hb, observedFiles_drift Prod.mk]
    simp only [observedFilesOf, ha] at hfile
    exact List.mem_map_of_mem hfile
  obtain ⟨kept, hkept, heq⟩ := List.mem_map.mp hmem
  exact ⟨kept, hkept, (Prod.mk.inj heq).1, (Prod.mk.inj heq).2⟩

section

variable [UnicodeTables]

theorem keepsProofs_write {s : Store} {ev : StoreEvent} (hs : Store.Sound s) (h : TitleWrite s ev)
    {a : HomeObject} (ha : s.get .Title ev.object.metadata.name = some a) :
    ev.watch ≠ .Deleted ∧ KeepsProofs a ev.object := by
  have hsame : ∀ old ∈ s.objects, old.kind = .Title →
      old.metadata.name = ev.object.metadata.name → a = old := by
    intro old hold hkind hname
    have hget := hs.get_of_mem hold
    rw [hkind, hname, ha] at hget
    exact Option.some.inj hget
  cases h with
  | Opened titleId habsent =>
      have hsome : s.get .Title titleId = some a := ha
      rw [habsent] at hsome
      cases hsome
  | Created obj hkind habsent =>
      have hsome : s.get .Title obj.metadata.name = some a := ha
      rw [habsent] at hsome
      cases hsome
  | Respecified old spec hold hkind =>
      obtain rfl := hsame old hold hkind rfl
      exact ⟨WatchType.noConfusion, .of_status rfl⟩
  | Observed old status hold hkind hvalid hkeeps =>
      obtain rfl := hsame old hold hkind rfl
      exact ⟨WatchType.noConfusion, hkeeps⟩
  | Drifted old before disk root hold hkind hstatus =>
      obtain rfl := hsame old hold hkind rfl
      exact ⟨WatchType.noConfusion, keepsProofs_drift disk root hstatus rfl⟩

theorem keeps_write {s : Store} {ev : StoreEvent} (hs : Store.Sound s) (hw : Write s ev) :
    Keeps s (s.write ev) := by
  intro name a ha
  by_cases hkey : ev.object.key = (.Title, name)
  · obtain ⟨hkind, hname⟩ := Prod.mk.inj hkey
    have hget : s.get .Title ev.object.metadata.name = some a := by rw [hname, ha]
    obtain ⟨hdeleted, hkeeps⟩ := keepsProofs_write hs (hw.title hkind) hget
    refine ⟨ev.object, ?_, hkeeps⟩
    rw [← hkind, ← hname]
    exact Store.get_write_self hdeleted
  · exact ⟨a, by rw [Store.get_write_of_ne hkey, ha], .of_status rfl⟩

theorem keeps_trail {s s' : Store} {evs : List StoreEvent} (hs : Store.Sound s)
    (htrail : Store.Trail Write s evs s') : Keeps s s' := by
  induction htrail with
  | Done s => exact .refl s
  | Write hw _ ih => exact (keeps_write hs hw).trans (ih (hs.write (hw.change hs)))

theorem Run.keeps {s : Store} {past : List Store} (run : Run (s :: past)) {view : Store}
    (hview : view ∈ s :: past) : Keeps view s := by
  generalize htrace : s :: past = trace at run hview
  induction run generalizing s past with
  | Start =>
      obtain ⟨rfl, rfl⟩ := List.cons.inj htrace
      rw [List.mem_singleton.mp hview]
      exact .refl _
  | @Next s₀ s' past₀ run step ih =>
      obtain ⟨rfl, rfl⟩ := List.cons.inj htrace
      rcases List.mem_cons.mp hview with rfl | hview
      · exact .refl _
      have hs := run.settled.sound
      obtain ⟨evs, htrail⟩ := (run.effect step).trail hs
      exact (ih rfl hview).trans (keeps_trail hs htrail)

-- The Title a Job names has the proof of its file.
def Proven (s : Store) (spec : JobSpec) (status : JobStatus) : Prop :=
  ∃ title, s.get .Title spec.titleId = some title ∧ ∃ file ∈ observedFilesOf title,
    file.path = spec.destRel ∧ some file.installB3 = status.verifiedB3

omit [UnicodeTables] in
theorem Proven.keeps {s s' : Store} {spec : JobSpec} {status : JobStatus}
    (h : Proven s spec status) (hkeeps : Keeps s s') : Proven s' spec status := by
  obtain ⟨title, htitle, file, hfile, hpath, hdigest⟩ := h
  obtain ⟨title', htitle', hproofs⟩ := hkeeps _ title htitle
  obtain ⟨kept, hkept, hpath', hdigest'⟩ := hproofs file hfile
  exact ⟨title', htitle', kept, hkept, hpath'.trans hpath, hdigest' ▸ hdigest⟩

def InstalledProven (s : Store) : Prop :=
  ∀ job ∈ s.objects, ∀ spec status, job.spec = .Job spec → job.status = .Job status →
    status.phase = .Installed → Proven s spec status

omit [UnicodeTables] in
theorem proven_of_titleProves {s : Store} {spec : JobSpec} {after : JobStatus}
    (h : Admission.titleProves s spec after = true) : Proven s spec after := by
  unfold Admission.titleProves at h
  cases htitle : s.get .Title spec.titleId with
  | none =>
      rw [htitle] at h
      cases h
  | some title =>
      rw [htitle] at h
      obtain ⟨file, hfile, hproof⟩ := List.any_eq_true.mp h
      simp only [Bool.and_eq_true, decide_eq_true_eq] at hproof
      exact ⟨title, htitle, file, hfile, hproof.1.1, hproof.2⟩

-- A Job is installed by its worker's report only.
theorem installed_write {s : Store} {ev : StoreEvent} (h : JobWrite s ev)
    (hproven : InstalledProven s) {spec : JobSpec} {status : JobStatus}
    (hspec : ev.object.spec = .Job spec) (hstatus : ev.object.status = .Job status)
    (hphase : status.phase = .Installed) : Proven s spec status := by
  cases h with
  | Created name spec' =>
      cases hstatus
      cases hphase
  | Reapplied old hold => exact hproven old hold spec status hspec hstatus hphase
  | Reported old spec' before after hold hkind hspec' hbefore hvalid hadmitted =>
      cases hstatus
      have hs : old.spec = .Job spec := hspec
      rw [hspec'] at hs
      cases hs
      exact proven_of_titleProves (hadmitted.installed hphase).1
  | Bound old spec' worker status' disk hold hkind hspec' hstatus' hadmitted =>
      have hs : old.status = .Job status := hstatus
      rw [hstatus'] at hs
      cases hs
      rw [hadmitted.pending] at hphase
      cases hphase
  | Refused old spec' before message =>
      cases hstatus
      cases hphase
  | Deleted old hold => exact hproven old hold spec status hspec hstatus hphase

theorem installedProven_write {s : Store} {ev : StoreEvent} (hs : Store.Sound s) (ht : Typed s)
    (hproven : InstalledProven s) (hw : Write s ev) : InstalledProven (s.write ev) := by
  intro job hjob spec status hspec hstatus hphase
  refine Proven.keeps (s := s) ?_ (keeps_write hs hw)
  rcases hs.mem_write hjob with ⟨-, rfl⟩ | ⟨hold, -⟩
  · have hkind := Agrees.job_of_spec (hw.typed ht).1 hspec
    exact installed_write (hw.job hkind) hproven hspec hstatus hphase
  · exact hproven job hold spec status hspec hstatus hphase

-- The file key of an observed path.
def fileKeyAt (path : Text) : Option FileKey :=
  (PathSchema.parsePlacement path).toOption.map fun (_, placement) => placement.fileKey

def DistinctKeys (files : List TitleFileStatus) : Prop :=
  (files.map fun file => fileKeyAt file.path).Nodup ∧
    ∀ file ∈ files, (fileKeyAt file.path).isSome = true

theorem validateTitleFiles_ok {id : TitleId} {keys : List FileKey} {files : List TitleFileStatus}
    (h : validateTitleFiles id keys files = .ok ()) :
    DistinctKeys files ∧ ∀ file ∈ files, ∀ key ∈ keys, fileKeyAt file.path ≠ some key := by
  induction files generalizing keys with
  | nil => exact ⟨⟨List.nodup_nil, by simp⟩, by simp⟩
  | cons file rest ih =>
      obtain ⟨-, h₁⟩ := Checks.seq_ok h
      obtain ⟨⟨parsed, placement⟩, hparse, h₂⟩ := Checks.bind_ok h₁
      obtain ⟨hnew, h₃⟩ := Checks.guard_ok h₂
      obtain ⟨⟨hnodup, hsome⟩, hfresh⟩ := ih h₃
      have hkey : fileKeyAt file.path = some placement.fileKey := by
        unfold fileKeyAt
        rw [Checks.mapError_ok hparse]
        rfl
      refine ⟨⟨?_, ?_⟩, ?_⟩
      · refine List.nodup_cons.mpr ⟨fun hmem => ?_, hnodup⟩
        obtain ⟨other, hother, hsame⟩ := List.mem_map.mp hmem
        exact hfresh other hother _ List.mem_cons_self (hsame.trans hkey)
      · intro other hother
        rcases List.mem_cons.mp hother with rfl | hother
        · rw [hkey]
          rfl
        · exact hsome other hother
      · intro other hother key hmem
        rcases List.mem_cons.mp hother with rfl | hother
        · rw [hkey]
          intro heq
          cases heq
          exact hnew hmem
        · exact hfresh other hother key (List.mem_cons_of_mem _ hmem)

-- An admitted Title has one file for each key.
theorem Valid.distinctKeys {obj : HomeObject} (h : obj.Valid) (hkind : obj.kind = .Title) :
    DistinctKeys (observedFilesOf obj) := by
  obtain ⟨spec, hspec⟩ := specOf_title h.agrees hkind
  obtain ⟨status, hstatus⟩ := statusOf_title h.agrees hkind
  have hvalid := h.status
  rw [hspec, hstatus] at hvalid
  obtain ⟨id, -, hfiles⟩ := Checks.bind_ok hvalid
  simp only [observedFilesOf, hstatus]
  exact (validateTitleFiles_ok hfiles).1

def TitlesDistinct (s : Store) : Prop :=
  ∀ title ∈ s.objects, title.kind = .Title → DistinctKeys (observedFilesOf title)

theorem distinctKeys_drift {status : TitleStatus} (disk : Disk) (root : Text)
    (h : DistinctKeys status.observedFiles) :
    DistinctKeys (Controllers.driftStatus disk root status).observedFiles := by
  have hmap := observedFiles_drift (fun path _ => fileKeyAt path) disk root status
  constructor
  · rw [hmap]
    exact h.1
  · have hall : ∀ key ∈ status.observedFiles.map (fun file => fileKeyAt file.path),
        key.isSome = true := by
      intro key hkey
      obtain ⟨file, hfile, rfl⟩ := List.mem_map.mp hkey
      exact h.2 file hfile
    intro file hfile
    rw [← hmap] at hall
    exact hall (fileKeyAt file.path) (List.mem_map.mpr ⟨file, hfile, rfl⟩)

theorem titlesDistinct_write {s : Store} {ev : StoreEvent} (hs : Store.Sound s)
    (htitles : TitlesDistinct s) (hw : Write s ev) : TitlesDistinct (s.write ev) := by
  intro title htitle hkind
  rcases hs.mem_write htitle with ⟨-, rfl⟩ | ⟨hold, -⟩
  · cases hw.title hkind with
    | Opened titleId =>
        refine ⟨List.nodup_nil, fun file hfile => ?_⟩
        cases hfile
    | Created obj hk _ hvalid => exact Valid.distinctKeys hvalid hk
    | Respecified old spec hold hk => exact htitles old hold hk
    | Observed old status hold hk hvalid =>
        have hnext := Valid.distinctKeys hvalid hk
        exact hnext
    | Drifted old before disk root hold hk hstatus =>
        have hbefore := htitles old hold hk
        simp only [observedFilesOf, hstatus] at hbefore
        exact distinctKeys_drift disk root hbefore
  · exact htitles title hold hkind

-- Installed means proven, and a proof once recorded stays.
theorem installed_proven {s : Store} {past : List Store} (run : Run (s :: past)) :
    (∀ job ∈ s.objects, ∀ spec status, job.spec = .Job spec → job.status = .Job status →
      status.phase = .Installed → Proven s spec status) ∧
    (∀ view ∈ s :: past, ∀ a ∈ view.objects, a.kind = .Title →
      ∃ b, s.get .Title a.metadata.name = some b ∧ ∀ file ∈ observedFilesOf a,
        ∃ kept ∈ observedFilesOf b, kept.path = file.path ∧ kept.installB3 = file.installB3) ∧
    (∀ title ∈ s.objects, title.kind = .Title → DistinctKeys (observedFilesOf title)) := by
  refine ⟨?_, ?_, ?_⟩
  · exact run.trail_invariant (P := InstalledProven) (by intro job hjob; cases hjob)
      fun _ _ hs ht hproven hw => installedProven_write hs ht hproven hw
  · intro view hview a ha hkind
    have hsound := (run.settled.views view hview).1
    have hget := hsound.get_of_mem ha
    rw [hkind] at hget
    exact run.keeps hview _ a hget
  · exact run.trail_invariant (P := TitlesDistinct) (by intro title htitle; cases htitle)
      fun _ _ hs _ htitles hw => titlesDistinct_write hs htitles hw

end

theorem installed_proven_film :
    let := UnicodeTables.ascii
    ∃ past, Run (Sample.installed :: past) ∧
      (∃ job ∈ Sample.installed.objects, job.status = .Job { Sample.pulling with
        phase := .Installed, verifiedB3 := some Sample.digest, bytesDone := 5 }) ∧
      ∀ job ∈ Sample.installed.objects, ∀ spec status, job.spec = .Job spec →
        job.status = .Job status → status.phase = .Installed →
          Proven Sample.installed spec status := by
  intro _
  obtain ⟨past, run, -⟩ := Sample.installed_reaches
  exact ⟨past, run, by decide +kernel, (installed_proven run).1⟩

end Mediaops.Api
