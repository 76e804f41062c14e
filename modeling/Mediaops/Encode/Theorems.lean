import Mediaops.Encode.Journal

namespace Mediaops.Encode

-- The encode command from its first call to its last: what Home has recorded of a file is
-- the file's digest, or a note says of what and to what the file was just changed.

open HomeLibrary
open TitleIndex (TitleIndexEntry)
open Transfer (Volume)
open Install (VerifiedConvertingHandle)

section

variable [UnicodeTables] {b3 : Bytes → Blake3Hex} {host : Host} {root : Text} {known : Set Proof}

section Row

variable {row : TitleIndexEntry} {P : World → Prop}

-- Home has no other digest of the row's file than the row.
def Current (row : TitleIndexEntry) (w : World) : Prop := recorded w.store (Proof.of row) ⊆ {row.currentB3}

theorem stable_current (row : TitleIndexEntry) : Stable root (Current row) :=
  stable_recorded (p := fun f => f (Proof.of row) ⊆ {row.currentB3})

theorem current_of_hash {w : World} (h : HomeLibrary.Kept b3 root known w) (hsettled : Settled w)
    (hhash : hashAt b3 root w row.path = some row.currentB3) : Current row w := by
  intro current hcurrent
  rcases h.covered (Proof.of row) current hcurrent with hsame | ⟨next, ⟨name, hname⟩, -⟩
  · exact Option.some.inj (hsame.symm.trans hhash)
  · exact absurd (hsettled _ _ hname) List.not_mem_nil

omit [UnicodeTables] in
theorem stable_settled : Stable root Settled := (onNotes_remaining []).stable

theorem secure_probe (host : Host) (path : Text) :
    Secure b3 root known P (probe host path) fun _ => P := by
  unfold probe
  refine Runs.bind (A := fun _ w => HomeLibrary.Kept b3 root known w ∧ P w) (runs_pick fun _ _ hw => hw)
    fun pick => ?_
  exact secure_lift fun _ _ _ hw => hw

theorem secure_judge (host : Host) (cap : Nat) (selected : Bool) (row : TitleIndexEntry) :
    Secure b3 root known Settled (judge b3 host root cap selected row) fun answer w =>
      Settled w ∧ (answer.2 = true → Current row w) := by
  unfold judge
  refine Runs.bind (A := fun _ w => HomeLibrary.Kept b3 root known w ∧ Settled w) ?_ fun cluster => ?_
  · exact Runs.mapError ((secure_get stable_settled).mono (fun _ hw => hw) fun _ _ hw => hw.1)
  refine Runs.bind (A := fun _ w => HomeLibrary.Kept b3 root known w ∧ Settled w)
    (secure_lift fun _ _ _ hw => hw) fun spec => ?_
  apply runs_ite
  · exact fun _ => secure_pure fun _ hw => ⟨hw, fun h => by cases h⟩
  intro _
  refine Runs.bind (A := fun digest w => HomeLibrary.Kept b3 root known w ∧ Settled w ∧
    (digest = row.currentB3 → Current row w)) ?_ fun digest => ?_
  · refine Runs.mono (secure_hashOf stable_settled) (fun _ hw => hw) (fun digest w hw => ?_) fun _ hw => hw
    exact ⟨hw.1, hw.2.1, fun hsame => current_of_hash hw.1 hw.2.1 (hsame ▸ hw.2.2)⟩
  apply runs_guard
  · exact fun _ hw => hw.1
  intro hsame
  have hdigest : digest = row.currentB3 := by simpa using hsame
  refine Runs.bind (secure_probe host _) fun media => ?_
  split
  · exact secure_pure fun _ hw => ⟨hw.1, fun h => by cases h⟩
  · apply runs_ite
    · exact fun _ => secure_throw
    · exact fun _ => secure_pure fun _ hw => ⟨hw.1, fun h => by cases h⟩
  · exact secure_pure fun _ hw => ⟨hw.1, fun _ => hw.2 hdigest⟩

theorem stable_converted (row : TitleIndexEntry) (converting : Text) (converted : Blake3Hex) :
    Stable root (Converted b3 root row converting converted) := by
  intro w w' haside h
  refine ⟨?_, ?_⟩
  · rw [haside.disk]
    exact h.conversion
  · rw [haside.recorded, handover_congr haside.disk haside.proofs haside.recorded]
    exact h.noted

theorem secure_replaceConverting (premise : Premise root known) (hrow : Listed known row)
    {placement : Placement} (hrendered : PathSchema.renderPlacement placement = .ok row.path)
    {converting : Text} (hbeside : Beside root converting) {converted : Blake3Hex} (hstable : Stable root P)
    (hblind : Blind P) :
    Secure b3 root known (fun w => P w ∧ Converted b3 root row converting converted w)
      (replaceConverting b3 root row.titleId placement converting) fun answer w =>
        P w ∧ answer.1 = Path.join root row.path := by
  have hboth : Stable root fun w => P w ∧ Converted b3 root row converting converted w :=
    hstable.and (stable_converted row converting converted)
  unfold replaceConverting
  refine Runs.bind (A := fun _ w => HomeLibrary.Kept b3 root known w ∧ P w ∧
    Converted b3 root row converting converted w)
    (secure_lift fun _ _ _ hw => hw) fun found => ?_
  obtain ⟨destRel, filename⟩ := found
  dsimp only
  refine Runs.bind (Runs.mapError (secure_verify hboth)) fun handle => ?_
  apply Runs.of_pre fun _ hw => hw.2.2
  rintro ⟨rfl, hrender⟩
  refine Runs.bind (A := fun path w => HomeLibrary.Kept b3 root known w ∧ P w ∧
    path = Path.join root row.path) ?_
    fun path => ?_
  · exact (secure_replace premise hrow (render_spelled hrender hrendered) hbeside hblind _).mono
      (fun _ hw => hw.1) fun _ _ hw => hw
  apply Runs.of_pre fun _ hw => hw.2.2
  rintro rfl
  refine Runs.bind ((secure_hashOf hstable).mono (fun _ hw => hw.1) fun _ _ hw => hw) fun digest => ?_
  exact secure_pure fun _ hw => ⟨hw.1, rfl⟩

-- A file is encoded, its replacement noted and its record handed over.
theorem secure_encodeFile (premise : Premise root known) (htidy : Tidy host) {cluster : HomeObject}
    (hrooted : Rooted root cluster) (hrow : Listed known row) :
    Secure b3 root known (fun w => Settled w ∧ Current row w) (encodeFile b3 host cluster root row)
      fun _ => Settled := by
  obtain ⟨key, placement, hparsed, hrendered⟩ := hrow.2
  have hstable : Stable root fun w => Settled w ∧ Current row w := stable_settled.and (stable_current row)
  have hblind : Blind fun w => Settled w ∧ Current row w := fun w disk hw => ⟨hw.1, hw.2⟩
  unfold encodeFile
  refine Runs.bind (A := fun parsed w => HomeLibrary.Kept b3 root known w ∧ (Settled w ∧ Current row w) ∧
    parsed = (key, placement)) ?_ fun parsed => ?_
  · refine secure_lift fun parsed hok w hw => ⟨hw, ?_⟩
    exact Except.ok.inj ((Checks.mapError_ok hok).symm.trans hparsed)
  apply Runs.of_pre fun _ hw => hw.2.2
  rintro rfl
  dsimp only
  refine Runs.bind ((secure_encodeToConverting premise htidy row.titleId placement hstable hblind).mono
    (fun _ hw => hw.1) fun _ _ hw => hw) fun converting => ?_
  apply Runs.of_pre fun _ hw => hw.2.2
  intro hbeside
  refine Runs.bind ((secure_hashOf hstable).mono (fun _ hw => hw.1) fun _ _ hw => hw) fun converted => ?_
  refine Runs.bind (A := fun name w => HomeLibrary.Kept b3 root known w ∧
    Pending name (pendingProof row converted) w ∧ Converted b3 root row converting converted w) ?_
    fun name => ?_
  · have hready : Stable root fun w => Current row w ∧
        (w.disk.volume.files.content converting).map b3 = some converted :=
      (stable_current row).and (stable_disk (p := fun disk =>
        (disk.volume.files.content converting).map b3 = some converted))
    refine (secure_persist (pendingProof row converted) hready fun w proofs hw => hw).mono
      (fun w hw => ⟨hw.1.1, hw.1.2, hw.2⟩) fun name w hw => ⟨hw.1, hw.2.2, fun current hcurrent => ?_⟩
    obtain rfl : current = row.currentB3 := hw.2.1 hcurrent
    exact ⟨name, hw.1.1⟩
  have hpending := onNotes_pending name (pendingProof row converted)
  refine Runs.bind (secure_replaceConverting premise hrow hrendered hbeside hpending.stable
    (onNotes_blind hpending)) fun answer => ?_
  obtain ⟨dest, current⟩ := answer
  apply Runs.of_pre fun _ hw => hw.2.2
  rintro (rfl : dest = _)
  have hrel : libraryRel root (Path.join root row.path) = (Proof.of row).path := by
    unfold libraryRel
    rw [hrow.2.strip premise.absolute]
    rfl
  dsimp only
  rw [hrel]
  refine Runs.bind (Runs.mapError (((secure_recordReplace premise hrooted hrow.1 current).noting
    (notes_recordReplace _ _ _) hpending).mono (fun _ hw => ⟨trivial, hw.1⟩) fun _ _ hw => hw)) fun _ => ?_
  refine (secure_removeNote name []).mono ?_ fun _ _ hw => hw
  rintro w ⟨⟨hrecorded, hactual⟩, hnote, hremaining⟩
  refine ⟨hremaining, _, hnote, .inr fun digest hdigest => ?_⟩
  have hsame : digest ∈ recorded w.store (Proof.of row) := hdigest
  rw [hrecorded] at hsame
  rw [Set.mem_singleton_iff.mp hsame]
  exact hactual

end Row

section Run

variable {P : World → Prop} {cluster : HomeObject}

theorem secure_ensureMaintenance {session : Session} (hrooted : Rooted root session.cluster)
    (hstable : Stable root P) :
    Secure b3 root known P (ensureMaintenance b3 session) fun session' w =>
      P w ∧ Rooted root session'.cluster := by
  unfold ensureMaintenance
  split
  · exact secure_pure fun _ hw => ⟨hw, hrooted⟩
  · refine Runs.bind (A := fun answer w => HomeLibrary.Kept b3 root known w ∧ P w ∧ Rooted root answer.2) ?_
      fun answer => ?_
    · exact Runs.mono (idle_beginMaintenance hstable) (fun _ hw => hw)
        (fun _ _ hw => ⟨hw.1.1, hw.1.2, hw.2⟩) fun _ hw => hw.1
    · exact secure_pure fun _ hw => hw

theorem secure_encodeRow (premise : Premise root known) (htidy : Tidy host) {session : Session}
    (hrooted : Rooted root session.cluster) {row : TitleIndexEntry} (hrow : Listed known row) (cap : Nat)
    (selected : Bool) :
    Secure b3 root known Settled (encodeRow b3 host root cap selected session row) fun session' w =>
      Settled w ∧ Rooted root session'.cluster := by
  unfold encodeRow
  refine Runs.bind (Runs.mapError (secure_judge host cap selected row)) fun answer => ?_
  obtain ⟨paused, encode⟩ := answer
  dsimp only
  apply runs_ite
  · exact fun _ => secure_pure fun _ hw => ⟨hw.1, hrooted⟩
  intro hencode
  have htrue : encode = true := by simpa using hencode
  have hstable : Stable root fun w => Settled w ∧ Current row w := stable_settled.and (stable_current row)
  refine Runs.bind ((secure_ensureMaintenance (P := fun w => Settled w ∧ Current row w) ?_ hstable).mono
    (fun _ hw => ⟨hw.1, hw.2 htrue⟩) fun _ _ hw => hw) fun session' => ?_
  · exact hrooted
  apply Runs.of_pre fun _ hw => hw.2.2
  intro hrooted'
  refine Runs.bind (Runs.mapError ((secure_encodeFile premise htidy hrooted' hrow).mono
    (fun _ hw => hw.1) fun _ _ hw => hw)) fun _ => ?_
  exact secure_pure fun _ hw => ⟨hw, hrooted'⟩

theorem secure_encodeRows (premise : Premise root known) (htidy : Tidy host) (cap : Nat) (selected : Bool)
    {rows : List TitleIndexEntry} (hrows : ∀ row ∈ rows, Listed known row) {session : Session}
    (hrooted : Rooted root session.cluster) :
    Secure b3 root known Settled (encodeRows b3 host root cap selected rows session) fun _ => Settled := by
  induction rows generalizing session with
  | nil => exact secure_pure fun _ hw => hw
  | cons row rows ih =>
      unfold encodeRows
      refine Runs.bind (secure_encodeRow premise htidy hrooted (hrows row List.mem_cons_self) cap selected)
        fun session' => ?_
      apply Runs.of_pre fun _ hw => hw.2.2
      intro hrooted'
      exact (ih (fun row hrow => hrows row (List.mem_cons_of_mem _ hrow)) hrooted').mono
        (fun _ hw => hw.1) fun _ _ hw => hw

omit [UnicodeTables] in
theorem secure_requestedRoot (hrooted : Rooted root cluster) (hstable : Stable root P)
    (libraryRoot : Option Text) :
    Secure b3 root known P (requestedRoot cluster libraryRoot) fun found w => P w ∧ found = root := by
  have hlift : Secure b3 root known P (Prog.lift (HomeLibrary.root cluster)) fun found w =>
      P w ∧ found = root :=
    secure_lift fun found hfound w hw => ⟨hw, root_ok hfound hrooted⟩
  cases libraryRoot with
  | none => exact hlift
  | some asked =>
      unfold requestedRoot
      refine Runs.bind hlift fun found => ?_
      apply Runs.of_pre fun _ hw => hw.2.2
      intro hfound
      refine Runs.bind (A := fun _ w => HomeLibrary.Kept b3 root known w ∧ P w) ?_ fun same => ?_
      · refine Secure.mono (P := P) (A := fun _ => P) ?_ (fun _ hw => hw.1) fun _ _ hw => hw
        apply secure_seen hstable
        · intro w pick same w' _ hw hok
          cases hok
          exact ⟨rfl, hw⟩
        · exact fun _ _ => rfl
      · apply runs_ite
        · exact fun _ => secure_pure fun _ hw => ⟨hw, hfound⟩
        · exact fun _ => secure_throw

theorem secure_runHome (premise : Premise root known) (htidy : Tidy host) (hrooted : Rooted root cluster)
    (title libraryRoot : Option Text) :
    Secure b3 root known (fun _ => True) (runHome b3 host cluster title libraryRoot) fun _ => Settled := by
  unfold runHome
  refine Runs.bind (secure_requestedRoot hrooted stable_true libraryRoot) fun found => ?_
  apply Runs.of_pre fun _ hw => hw.2.2
  intro hfound
  rw [hfound]
  refine Runs.bind ((secure_recoverEncodeProofs premise hrooted).mono (fun _ _ => trivial)
    fun _ _ hw => hw) fun _ => ?_
  refine Runs.bind (secure_rows premise hrooted stable_settled) fun rows => ?_
  apply Runs.of_pre fun _ hw => hw.2.2
  intro hrows
  refine Runs.bind (A := fun _ w => HomeLibrary.Kept b3 root known w ∧ Settled w)
    (secure_lift fun _ _ _ hw => hw.1) fun selected => ?_
  dsimp only
  apply runs_guard
  · exact fun _ hw => hw.1
  intro _
  refine Runs.bind (secure_step _ stable_settled) fun _ => ?_
  refine Runs.bind (secure_step _ stable_settled) fun _ => ?_
  apply runs_guard
  · exact fun _ hw => hw.1
  intro _
  refine Runs.bind (A := fun _ w => HomeLibrary.Kept b3 root known w ∧ Settled w)
    (secure_lift fun _ _ _ hw => hw) fun spec => ?_
  refine Runs.bind (secure_encodeRows premise htidy _ _
    (fun row hrow => hrows row (List.mem_filter.mp hrow).1) hrooted) fun session => ?_
  split
  · refine Runs.bind (A := fun _ w => HomeLibrary.Kept b3 root known w ∧ Settled w) ?_ fun _ => ?_
    · exact Runs.mono (idle_finishMaintenance stable_settled _) (fun _ hw => hw) (fun _ _ hw => hw.1)
        fun _ hw => hw.1
    · exact secure_pure fun _ hw => hw
  · exact secure_pure fun _ hw => hw

theorem secure_run (premise : Premise root known) (htidy : Tidy host) (title libraryRoot : Option Text) :
    Secure b3 root known (fun _ => True) (run b3 host title libraryRoot) fun _ => Settled := by
  unfold run
  refine Runs.bind (secure_step _ stable_true) fun _ => ?_
  refine Runs.bind (Runs.mapError (secure_get stable_true)) fun cluster => ?_
  apply Runs.of_pre fun _ hw => hw.2.2.2.2
  intro hrooted
  exact (secure_runHome premise htidy hrooted title libraryRoot).mono (fun _ _ => trivial) fun _ _ hw => hw

end Run

section Reachable

-- What becomes of a library: others do what they do, and the command is run, to its end or
-- to a call where it fails or is killed.
inductive Reachable (b3 : Bytes → Blake3Hex) (host : Host) (root : Text) (start : World) : World → Prop
  | Start : Reachable b3 host root start start
  | Others {w w' : World} : Reachable b3 host root start w → Aside root w w' →
      Reachable b3 host root start w'
  | Command {w : World} (title libraryRoot : Option Text) (moves : Nat → Move World) (turn : Nat) :
      Reachable b3 host root start w → (∀ n, (others root).allowed (moves n)) →
      Reachable b3 host root start (run b3 host title libraryRoot moves turn w).world

variable {start w : World}

theorem kept_run (premise : Premise root known) (htidy : Tidy host) (hkept : HomeLibrary.Kept b3 root known w)
    (title libraryRoot : Option Text) {moves : Nat → Move World}
    (hmoves : ∀ n, (others root).allowed (moves n)) (turn : Nat) :
    HomeLibrary.Kept b3 root known (run b3 host title libraryRoot moves turn w).world ∧
      ((∃ data, (run b3 host title libraryRoot moves turn w).outcome = .Done data) →
        Settled (run b3 host title libraryRoot moves turn w).world) := by
  have hran := (secure_run premise htidy title libraryRoot [] w ⟨hkept, trivial⟩ moves turn hmoves).2
  cases ho : (run b3 host title libraryRoot moves turn w).outcome with
  | Done data =>
      rw [ho] at hran
      exact ⟨hran.1, fun _ => hran.2⟩
  | Failed e =>
      rw [ho] at hran
      refine ⟨hran, ?_⟩
      rintro ⟨_, h⟩
      cases h
  | Stopped =>
      rw [ho] at hran
      refine ⟨hran, ?_⟩
      rintro ⟨_, h⟩
      cases h

theorem kept_reachable (premise : Premise root known) (htidy : Tidy host)
    (hstart : HomeLibrary.Kept b3 root known start)
    (h : Reachable b3 host root start w) : HomeLibrary.Kept b3 root known w := by
  induction h with
  | Start => exact hstart
  | Others _ haside ih => exact ih.aside haside
  | Command title libraryRoot moves turn _ hmoves ih =>
      exact (kept_run premise htidy ih title libraryRoot hmoves turn).1

-- However often the command is run, stopped and run again, Home keeps a record of every
-- file it knows, and the record is the file's digest unless a note says how the file was
-- changed. A run that comes through leaves no such note.
theorem encode_keeps_proofs (premise : Premise root known) (htidy : Tidy host)
    (hstart : HomeLibrary.Kept b3 root known start) (h : Reachable b3 host root start w) :
    (∀ proof, (recorded w.store proof).Nonempty ↔ proof ∈ known) ∧
      (∀ proof, ∀ current ∈ recorded w.store proof,
        hashAt b3 root w proof.path = some current ∨ ∃ name next, w.note name = some (.Saved {
          titleId := proof.titleId
          path := proof.path
          installB3 := proof.installB3
          previousB3 := current
          currentB3 := next }) ∧ hashAt b3 root w proof.path = some next) ∧
      ∀ (title libraryRoot : Option Text) (moves : Nat → Move World) (turn : Nat),
        (∀ n, (others root).allowed (moves n)) →
        let ran := run b3 host title libraryRoot moves turn w
        (∃ data, ran.outcome = .Done data) → ∀ proof, ∀ current ∈ recorded ran.world.store proof,
          hashAt b3 root ran.world proof.path = some current := by
  have hkept := kept_reachable premise htidy hstart h
  refine ⟨hkept.known, fun proof current hcurrent => ?_, fun title libraryRoot moves turn hmoves => ?_⟩
  · rcases hkept.covered proof current hcurrent with hsame | ⟨next, ⟨name, hname⟩, hnext⟩
    · exact .inl hsame
    · exact .inr ⟨name, next, hname, hnext⟩
  · intro ran hdone proof current hcurrent
    obtain ⟨hafter, hsettled⟩ := kept_run premise htidy hkept title libraryRoot hmoves turn
    rcases hafter.covered proof current hcurrent with hsame | ⟨next, ⟨name, hname⟩, -⟩
    · exact hsame
    · exact absurd (hsettled hdone _ _ hname) List.not_mem_nil

end Reachable

end

namespace Sample

open Blake3Hex.Sample (b3)
open Install.Sample (upRel)

def root : Text := "/lib".toList

def proof : Proof where
  titleId := "movie:tmdb:14160".toList
  path := upRel
  installB3 := b3 [1, 2, 3]

def title : HomeObject where
  kind := .Title
  metadata := { name := proof.titleId, uid := uidOf .Title 1, resourceVersion := 1 }
  spec := .Title { titleId := proof.titleId }
  status := .Title { files := [{ path := upRel, installB3 := b3 [1, 2, 3], currentB3 := b3 [1, 2, 3] }] }

def cluster : HomeObject where
  kind := .Cluster
  metadata := { name := clusterName, uid := uidOf .Cluster 2, resourceVersion := 2 }
  spec := .Cluster { libraryRoot := root }
  status := .Cluster {}

-- A film is in the library and Home has its proof.
def start : World where
  disk := {
    volume := {
      files := {
        dir := [(Path.join root upRel, .File 0)]
        data := fun _ => [1, 2, 3]
        next := 1
        distinct := List.nodup_singleton _
        bound := Files.bound_one }
      sidecars := fun _ => .Absent }
    slots := fun _ => .Absent }
  proofs := none
  store := { objects := [title, cluster], rv := 2, floor := 0, history := [] }

-- An encoder that makes its output if there is none.
def encodes (converting : Text) (v : Volume) : Int × Volume :=
  match v.files.create converting with
  | .ok (i, files) => (0, { v with files := files.store i [4] })
  | .error _ => (1, v)

def host : @Host UnicodeTables.ascii :=
  @Host.mk UnicodeTables.ascii
    (fun _ _ => .ok {
      codec := .Hevc
      bitDepth := 10
      width := 1920
      height := 1080
      container := .Mp4
      hdr := false
      dolbyVision := false })
    (fun _ _ converting v => encodes converting v) (fun _ _ => none) 1 1

theorem tidy : @Tidy UnicodeTables.ascii host := by
  intro pick live converting v path hpath
  show Files.Preserves path v.files (encodes converting v).2.files
  unfold encodes
  split
  · next i files hmade =>
    obtain ⟨rfl, -, -, -, hnode⟩ := Files.create_ok hmade
    have hother : files.node path ≠ some (.File v.files.next) := by
      rw [hnode path, if_neg hpath]
      exact fun h => absurd (Files.node_bound h) (lt_irrefl _)
    intro node hthere
    obtain ⟨hstill, hsame⟩ := Files.preserves_create hmade node hthere
    obtain ⟨hafter, hstored⟩ := Files.preserves_store hother [4] node hstill
    exact ⟨hafter, fun i hi => (hstored i hi).trans (hsame i hi)⟩
  · exact .refl path v.files

theorem up_named : @TitleId.parse UnicodeTables.ascii proof.titleId = .ok Install.Sample.up := by
  decide +kernel

theorem up_placed : (@PathSchema.parsePlacement UnicodeTables.ascii upRel).map Prod.snd =
    .ok (.Movie "Up".toList 2009 "mkv".toList) := by
  decide +kernel

theorem up_rendered :
    PathSchema.renderPlacement (.Movie "Up".toList 2009 "mkv".toList) = .ok upRel := by
  decide +kernel

theorem premise : @Premise UnicodeTables.ascii root {proof} := by
  refine @Premise.mk UnicodeTables.ascii _ _ (by decide) ?_ ?_ ?_
  · rintro _ rfl
    exact ⟨Install.Sample.up, up_named, by decide +kernel⟩
  · rintro _ rfl
    obtain ⟨⟨key, placement⟩, hparsed, hplaced⟩ := Checks.map_ok up_placed
    cases hplaced
    exact ⟨key, _, hparsed, up_rendered⟩
  · rintro _ rfl _ rfl _
    rfl

theorem mem_start {obj : HomeObject} : obj ∈ start.store.objects ↔ obj = title ∨ obj = cluster :=
  List.mem_pair

theorem orderly : Orderly root start.store where
  sound := {
    counter := by decide
    keyed := by
      unfold Table.Keyed
      decide
    revisions := by
      intro a ha b hb hrevision
      rcases mem_start.mp ha with rfl | rfl <;> rcases mem_start.mp hb with rfl | rfl
      · rfl
      · cases hrevision
      · cases hrevision
      · rfl
    bound := by
      intro obj hobj
      rcases mem_start.mp hobj with rfl | rfl <;> decide
    uids := by
      intro obj hobj
      rcases mem_start.mp hobj with rfl | rfl
      · exact ⟨1, by decide, by decide, rfl⟩
      · exact ⟨2, by decide, by decide, rfl⟩
    uidsDistinct := by
      intro a ha b hb hkind _
      rcases mem_start.mp ha with rfl | rfl <;> rcases mem_start.mp hb with rfl | rfl
      · rfl
      · cases hkind
      · cases hkind
      · rfl }
  typed := {
    agrees := by
      intro obj hobj
      rcases mem_start.mp hobj with rfl | rfl <;> decide
    version := by
      intro obj hobj
      rcases mem_start.mp hobj with rfl | rfl <;> rfl }
  named := by
    intro obj hobj spec hspec
    rcases mem_start.mp hobj with rfl | rfl
    · cases hspec
      rfl
    · cases hspec
  rooted := by
    intro obj hobj spec hspec
    rcases mem_start.mp hobj with rfl | rfl
    · cases hspec
    · cases hspec
      rfl

theorem recorded_start (other : Proof) (current : Blake3Hex) :
    current ∈ recorded start.store other ↔ other = proof ∧ current = b3 [1, 2, 3] := by
  constructor
  · rintro ⟨found, hget, file, hfile, hpath, hinstall, hcurrent⟩
    have hkey := Store.get_key hget
    rcases mem_start.mp (Store.get_mem hget) with rfl | rfl
    · have hname : title.metadata.name = other.titleId := congrArg Prod.snd hkey
      have hlisted : file ∈ [TitleFileStatus.mk upRel (b3 [1, 2, 3]) (b3 [1, 2, 3]) false] := hfile
      rw [List.mem_singleton.mp hlisted] at hpath hinstall hcurrent
      obtain ⟨titleId, path, installB3⟩ := other
      cases hname
      cases hpath
      cases hinstall
      exact ⟨rfl, hcurrent.symm⟩
    · cases congrArg Prod.fst hkey
  · rintro ⟨rfl, rfl⟩
    exact ⟨title, rfl, _, List.mem_singleton_self _, rfl, rfl, rfl⟩

theorem kept_start : HomeLibrary.Kept b3 root {proof} start where
  orderly := orderly
  known other := by
    constructor
    · rintro ⟨current, hcurrent⟩
      exact ((recorded_start other current).mp hcurrent).1
    · rintro rfl
      exact ⟨_, (recorded_start proof _).mpr ⟨rfl, rfl⟩⟩
  single other := by
    intro a ha b hb
    rw [((recorded_start other a).mp ha).2, ((recorded_start other b).mp hb).2]
  covered := by
    intro other current hcurrent
    obtain ⟨rfl, rfl⟩ := (recorded_start other current).mp hcurrent
    exact .inl rfl

-- The machine goes down when the film is replaced and Home has not heard of it.
def downAt (turn : Nat) : Move World := if turn = 287 then { fate := .Stops 1 } else {}

theorem allowed_downAt (turn : Nat) : (others root).allowed (downAt turn) := by
  intro w
  unfold downAt
  split <;> exact ⟨rfl, rfl, fun _ => rfl, id⟩

def cutOff : World :=
  (@run UnicodeTables.ascii b3 host none none downAt 0 start).world

theorem reachable_cutOff : @Reachable UnicodeTables.ascii b3 host root start cutOff :=
  @Reachable.Command UnicodeTables.ascii b3 host root start start none none downAt 0
    (@Reachable.Start UnicodeTables.ascii b3 host root start) allowed_downAt

theorem cutOff_ends : HomeLibrary.hashAt b3 root cutOff proof.path = some (b3 [4]) ∧
    cutOff.store.get .Title proof.titleId = some title := by
  decide +kernel

theorem cutOff_replaced : HomeLibrary.hashAt b3 root cutOff proof.path = some (b3 [4]) :=
  cutOff_ends.1

theorem cutOff_recorded : b3 [1, 2, 3] ∈ recorded cutOff.store proof :=
  ⟨title, cutOff_ends.2, _, List.mem_singleton_self _, rfl, rfl, rfl⟩

end Sample

open Blake3Hex.Sample (b3)

-- The film's old digest is still recorded, and a note has it together with the new one.
theorem encode_keeps_proofs_up :
    b3 [1, 2, 3] ∈ recorded Sample.cutOff.store Sample.proof ∧
      HomeLibrary.hashAt b3 Sample.root Sample.cutOff Sample.proof.path = some (b3 [4]) ∧
      ∃ name, Sample.cutOff.note name = some (.Saved {
        titleId := Sample.proof.titleId
        path := Sample.proof.path
        installB3 := Sample.proof.installB3
        previousB3 := b3 [1, 2, 3]
        currentB3 := b3 [4] }) := by
  refine ⟨Sample.cutOff_recorded, Sample.cutOff_replaced, ?_⟩
  have hkept := @encode_keeps_proofs UnicodeTables.ascii _ _ _ _ _ _ Sample.premise Sample.tidy
    Sample.kept_start Sample.reachable_cutOff
  rcases hkept.2.1 Sample.proof _ Sample.cutOff_recorded with hsame | ⟨name, next, hnote, hnext⟩
  · rw [Sample.cutOff_replaced] at hsame
    exact absurd (Option.some.inj hsame) (by decide)
  · rw [Sample.cutOff_replaced] at hnext
    rw [← Option.some.inj hnext] at hnote
    exact ⟨name, hnote⟩

end Mediaops.Encode
