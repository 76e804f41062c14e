import Mediaops.Api.Effects.Replies
import Mediaops.Api.Effects.Steps
import Mediaops.HomeLibrary.Paths

namespace Mediaops.HomeLibrary

-- What Home has recorded about the files of the library, and what a served request
-- makes of it.

open Admission (observedFilesOf)
open TitleIndex (TitleIndexEntry)

-- A file of a Title with the digest it was installed with.
structure Proof where
  titleId : Text
  path : Text
  installB3 : Blake3Hex
  deriving DecidableEq, Repr

def Proof.of [UnicodeTables] (row : TitleIndexEntry) : Proof where
  titleId := row.titleId.render
  path := row.path
  installB3 := row.installB3

-- The current digests that a list of observed files has for a path.
def observes (files : List TitleFileStatus) (path : Text) (installB3 : Blake3Hex) : Set Blake3Hex :=
  { current | ∃ file ∈ files, file.path = path ∧ file.installB3 = installB3 ∧ file.currentB3 = current }

def recorded (s : Store) (proof : Proof) : Set Blake3Hex :=
  { current | ∃ title, s.get .Title proof.titleId = some title ∧
    current ∈ observes (observedFilesOf title) proof.path proof.installB3 }

-- A Cluster that has this library.
def Rooted (root : Text) (cluster : HomeObject) : Prop :=
  ∀ spec, cluster.spec = .Cluster spec → spec.libraryRoot = root

structure Orderly (root : Text) (s : Store) : Prop where
  sound : Store.Sound s
  typed : Api.Typed s
  named : ∀ title ∈ s.objects, ∀ spec, title.spec = .Title spec → spec.titleId = title.metadata.name
  rooted : ∀ cluster ∈ s.objects, Rooted root cluster

section Store

variable {s : Store} {root : Text}

theorem recorded_of_get {name : Text} {title : HomeObject} (h : s.get .Title name = some title)
    (path : Text) (installB3 : Blake3Hex) :
    recorded s ⟨name, path, installB3⟩ = observes (observedFilesOf title) path installB3 := by
  ext current
  constructor
  · rintro ⟨found, hfound, hcurrent⟩
    obtain rfl := Option.some.inj (hfound.symm.trans h)
    exact hcurrent
  · exact fun hcurrent => ⟨title, h, hcurrent⟩

theorem recorded_write_of_ne {ev : StoreEvent} {proof : Proof}
    (hne : ev.object.key ≠ (.Title, proof.titleId)) : recorded (s.write ev) proof = recorded s proof := by
  unfold recorded
  rw [Store.get_write_of_ne hne]

theorem observes_perm {files files' : List TitleFileStatus} (h : files.Perm files') :
    observes files = observes files' := by
  funext path installB3
  ext current
  simp only [observes, Set.mem_ofPred_eq, h.mem_iff]

theorem observedFiles_observed (files : List TitleFileStatus) :
    (observed files).observedFiles = files.insertionSort fun a b => a.path ≤ b.path := by
  simp [TitleStatus.observedFiles, TitleStatus.legacyFile, observed]

variable [UnicodeTables]

-- A row that replaces one and keeps to its name.
theorem Orderly.write {old new : HomeObject} (h : Orderly root s) (hold : old ∈ s.objects)
    (hwritten : ∃ evs, Store.Trail Api.Write s evs (s.write ⟨.Modified, new⟩))
    (hname : new.metadata.name = old.metadata.name)
    (hspec : new.spec = old.spec ∨ ∃ spec, new.spec = .Cluster spec ∧ spec.libraryRoot = root) :
    Orderly root (s.write ⟨.Modified, new⟩) := by
  obtain ⟨evs, htrail⟩ := hwritten
  obtain ⟨hsound, htyped⟩ : Store.Sound (s.write ⟨.Modified, new⟩) ∧
      Api.Typed (s.write ⟨.Modified, new⟩) :=
    htrail.preserves (P := fun s => Store.Sound s ∧ Api.Typed s)
      (fun _ _ hs hw => ⟨hs.1.write (hw.change hs.1), hs.2.write hs.1 hw⟩) ⟨h.sound, h.typed⟩
  refine ⟨hsound, htyped, fun title htitle spec hnew => ?_, fun cluster hcluster spec hnew => ?_⟩
  · rcases h.sound.mem_write htitle with ⟨-, rfl⟩ | ⟨hmem, -⟩
    · rcases hspec with hsame | ⟨clusterSpec, hcluster, -⟩
      · rw [hname]
        exact h.named old hold spec (hsame ▸ hnew)
      · cases hcluster.symm.trans hnew
    · exact h.named title hmem spec hnew
  · rcases h.sound.mem_write hcluster with ⟨-, rfl⟩ | ⟨hmem, -⟩
    · rcases hspec with hsame | ⟨clusterSpec, hset, hroot⟩
      · exact h.rooted old hold spec (hsame ▸ hnew)
      · cases hset.symm.trans hnew
        exact hroot
    · exact h.rooted cluster hmem spec hnew

-- What a status patch of a Title makes of the store.
theorem patch_title (env : Env) {name : Text} {obj : HomeObject} {files : List TitleFileStatus}
    (h : Orderly root s) (hkind : obj.kind = .Title) (hname : obj.metadata.name = name)
    (hstatus : obj.status = .Title (observed files)) :
    let s' := (Serve.serve env s s .Import (.Patch .PatchStatus obj)).2
    (∃ e, (Serve.serve env s s .Import (.Patch .PatchStatus obj)).1 = .error e) ∧ s' = s ∨
      Orderly root s' ∧ ∀ proof, recorded s' proof =
        if proof.titleId = name then observes files proof.path proof.installB3 else recorded s proof := by
  cases hserved : Serve.patch env s s .Import .PatchStatus obj with
  | mk answer s' =>
      simp only [Serve.serve, hserved]
      cases answer with
      | error e => exact .inl ⟨⟨e, rfl⟩, Api.patch_refused hserved⟩
      | ok =>
          obtain ⟨old, hold, -, rfl⟩ := Api.patch_served h.typed hserved
          have heffect := Api.patch_effect h.sound h.typed env s .Import .PatchStatus obj
          rw [hserved] at heffect
          have holdName : old.metadata.name = name := (congrArg Prod.snd (Store.get_key hold)).trans hname
          have holdKind : old.kind = .Title := (congrArg Prod.fst (Store.get_key hold)).trans hkind
          refine .inr ⟨h.write (Store.get_mem hold) (heffect.trail h.sound) rfl (.inl rfl), fun proof => ?_⟩
          obtain ⟨titleId, path, installB3⟩ := proof
          by_cases hsame : titleId = name
          · subst hsame
            rw [if_pos rfl]
            have hkey : (s.write ⟨.Modified, Api.rewritten s { old with status := obj.status }⟩).get
                .Title titleId = some (Api.rewritten s { old with status := obj.status }) := by
              rw [← holdName, ← holdKind]
              exact Store.get_write_self WatchType.noConfusion
            rw [recorded_of_get hkey]
            have hfiles : observedFilesOf (Api.rewritten s { old with status := obj.status }) =
                files.insertionSort fun a b => a.path ≤ b.path := by
              simp only [observedFilesOf, Api.rewritten, hstatus]
              exact observedFiles_observed files
            rw [hfiles, observes_perm (List.perm_insertionSort _ files)]
          · rw [if_neg hsame]
            apply recorded_write_of_ne
            intro hkey
            exact hsame ((congrArg Prod.snd hkey).symm.trans holdName)

-- A Cluster whose lock is set.
theorem patch_cluster (env : Env) {cluster : HomeObject} {spec : ClusterSpec} (h : Orderly root s)
    (hkind : cluster.kind = .Cluster) (hroot : spec.libraryRoot = root) :
    let s' := (Serve.serve env s s .Import (.Patch .PatchSpec { cluster with spec := .Cluster spec })).2
    Orderly root s' ∧ ∀ proof, recorded s' proof = recorded s proof := by
  have heffect := Api.patch_effect h.sound h.typed env s .Import .PatchSpec
    { cluster with spec := .Cluster spec }
  simp only [Serve.serve]
  unfold Serve.patch at heffect ⊢
  split
  · exact ⟨h, fun _ => rfl⟩
  next hchecked =>
    rw [hchecked] at heffect
    simp only [Serve.patchWrite, Serve.reply] at heffect ⊢
    rcases Api.patchSpec_cases h.typed cluster.kind cluster.metadata.name (.Cluster spec)
      cluster.metadata.resourceVersion with hsame | ⟨old, hold, -, hwrite⟩
    · rw [hsame]
      exact ⟨h, fun _ => rfl⟩
    · rw [hwrite] at heffect ⊢
      have holdKind : old.kind = .Cluster := (congrArg Prod.fst (Store.get_key hold)).trans hkind
      refine ⟨h.write (Store.get_mem hold) (heffect.trail h.sound) rfl (.inr ⟨spec, rfl, hroot⟩), ?_⟩
      intro proof
      apply recorded_write_of_ne
      intro hkey
      have hfst : old.kind = .Title := congrArg Prod.fst hkey
      rw [holdKind] at hfst
      cases hfst

end Store

section Rows

variable [UnicodeTables] {root : Text} {s : Store} {rows : List TitleIndexEntry}

-- A row of a listing is a file of a Title.
theorem rowsFromObjects_mem {includeDrifted : Bool} {titles : List HomeObject}
    (h : rowsFromObjects includeDrifted titles = .ok rows) {row : TitleIndexEntry} (hrow : row ∈ rows) :
    ∃ title ∈ titles, ∃ spec, title.spec = .Title spec ∧ TitleId.parse spec.titleId = .ok row.titleId ∧
      ∃ file ∈ observedFilesOf title, entryOf row.titleId file = row := by
  induction titles generalizing rows with
  | nil =>
      cases h
      cases hrow
  | cons title titles ih =>
      obtain ⟨first, hfirst, h⟩ := Checks.bind_ok h
      obtain ⟨rest, hrest, h⟩ := Checks.bind_ok h
      cases h
      rcases List.mem_append.mp hrow with hrow | hrow
      · unfold rowsOf at hfirst
        split at hfirst
        · next spec status hspec hstatus =>
          obtain ⟨titleId, hparsed, hfirst⟩ := Checks.bind_ok hfirst
          cases hfirst
          obtain ⟨file, hfile, rfl⟩ := List.mem_map.mp hrow
          refine ⟨title, List.mem_cons_self, spec, hspec, Checks.mapError_ok hparsed, file, ?_, rfl⟩
          simp only [observedFilesOf, hstatus]
          exact (List.mem_filter.mp hfile).1
        · cases hfirst
      · obtain ⟨found, hfound, hfacts⟩ := ih hrest hrow
        exact ⟨found, List.mem_cons_of_mem _ hfound, hfacts⟩

theorem relativeRows_mem {found : List TitleIndexEntry} (h : relativeRows root found = .ok rows)
    {row : TitleIndexEntry} (hrow : row ∈ rows) :
    ∃ old ∈ found, ∃ path, schemaRelative root old.path = .ok path ∧ row = { old with path } := by
  induction found generalizing rows with
  | nil =>
      cases h
      cases hrow
  | cons first found ih =>
      obtain ⟨path, hpath, h⟩ := Checks.bind_ok h
      obtain ⟨rest, hrest, h⟩ := Checks.bind_ok h
      cases h
      rcases List.mem_cons.mp hrow with rfl | hrow
      · exact ⟨first, List.mem_cons_self, path, hpath, rfl⟩
      · obtain ⟨old, hold, hfacts⟩ := ih hrest hrow
        exact ⟨old, List.mem_cons_of_mem _ hold, hfacts⟩

end Rows

end Mediaops.HomeLibrary
