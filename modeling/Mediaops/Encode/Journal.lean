import Mathlib.Data.List.Permutation
import Mediaops.Encode.Files

namespace Mediaops.Encode

-- The notes of the replacements under way: what a note is for, how it is written, and how
-- a later run settles it.

open HomeLibrary
open TitleIndex (TitleIndexEntry)

variable [UnicodeTables] {b3 : Bytes → Blake3Hex} {root : Text} {known : Set Proof}

section Notes

variable {w w' : World} {name other : Text} {file : ProofFile}

omit [UnicodeTables] in
theorem note_congr (h : w'.proofs = w.proofs) (name : Text) : w'.note name = w.note name := by
  unfold World.note World.entries
  rw [h]

omit [UnicodeTables] in
theorem note_saveNote : (saveNote name file w).note name = some file := by
  have hfound : Table.lookup Prod.fst name (Table.upsert Prod.fst (name, file) w.entries) =
      some (name, file) := Table.lookup_upsert_self (name, file) w.entries
  show (Table.lookup Prod.fst name (Table.upsert Prod.fst (name, file) w.entries)).map Prod.snd = some file
  rw [hfound]
  rfl

omit [UnicodeTables] in
theorem note_saveNote_of_ne (hne : name ≠ other) : (saveNote name file w).note other = w.note other := by
  have hfound : Table.lookup Prod.fst other (Table.upsert Prod.fst (name, file) w.entries) =
      Table.lookup Prod.fst other w.entries := Table.lookup_upsert_of_ne hne w.entries
  show (Table.lookup Prod.fst other (Table.upsert Prod.fst (name, file) w.entries)).map Prod.snd = _
  rw [hfound]
  rfl

-- The world without a note.
def without (name : Text) (w : World) : World :=
  { w with proofs := some (Table.erase Prod.fst name w.entries) }

omit [UnicodeTables] in
theorem note_without : (without name w).note name = none := by
  show (Table.lookup Prod.fst name (Table.erase Prod.fst name w.entries)).map Prod.snd = none
  rw [Table.lookup_erase_self]
  rfl

omit [UnicodeTables] in
theorem note_without_of_ne (hne : name ≠ other) : (without name w).note other = w.note other := by
  show (Table.lookup Prod.fst other (Table.erase Prod.fst name w.entries)).map Prod.snd = _
  rw [Table.lookup_erase_of_ne hne]
  rfl

-- Every note of a replacement is under one of these names.
def Remaining (names : List Text) (w : World) : Prop :=
  ∀ name proof, w.note name = some (.Saved proof) → name ∈ names

-- No replacement is under way.
abbrev Settled (w : World) : Prop := Remaining [] w

-- One replacement is under way.
def Pending (name : Text) (proof : PendingEncodeProof) (w : World) : Prop :=
  w.note name = some (.Saved proof) ∧ Remaining [name] w

omit [UnicodeTables] in
theorem onNotes_remaining (names : List Text) : OnNotes (Remaining names) := by
  intro w w' hproofs hw name proof hnote
  rw [note_congr hproofs] at hnote
  exact hw name proof hnote

omit [UnicodeTables] in
theorem onNotes_note (name : Text) (file : ProofFile) : OnNotes fun w => w.note name = some file := by
  intro w w' hproofs hw
  rw [note_congr hproofs]
  exact hw

omit [UnicodeTables] in
theorem onNotes_and {N N' : World → Prop} (h : OnNotes N) (h' : OnNotes N') : OnNotes fun w => N w ∧ N' w :=
  fun w w' hproofs hw => ⟨h w w' hproofs hw.1, h' w w' hproofs hw.2⟩

omit [UnicodeTables] in
theorem onNotes_blind {N : World → Prop} (h : OnNotes N) : Blind N := fun w _ hw => h w _ rfl hw

omit [UnicodeTables] in
theorem Remaining.removed {names : List Text} (h : Remaining (name :: names) w) :
    Remaining names (without name w) := by
  intro found proof hnote
  by_cases hname : name = found
  · subst hname
    rw [note_without] at hnote
    cases hnote
  · rw [note_without_of_ne hname] at hnote
    exact (List.mem_cons.mp (h found proof hnote)).resolve_left fun h => hname h.symm

omit [UnicodeTables] in
theorem Remaining.passed {names : List Text} (h : Remaining (name :: names) w)
    (hnote : ∀ proof, w.note name ≠ some (.Saved proof)) : Remaining names w := by
  intro found proof hfound
  refine (List.mem_cons.mp (h found proof hfound)).resolve_left ?_
  rintro rfl
  exact hnote proof hfound

end Notes

section Kept

variable {w w' : World}

-- More is noted than before.
omit [UnicodeTables] in
theorem kept_noting (h : HomeLibrary.Kept b3 root known w) (hdisk : w'.disk = w.disk)
    (hstore : w'.store = w.store)
    (hnotes : ∀ name proof, w.note name = some (.Saved proof) → w'.note name = some (.Saved proof)) :
    HomeLibrary.Kept b3 root known w' := by
  refine h.apart hstore (h.covered.idle (recorded_still hstore) ?_ ?_)
  · intro proof current _
    show hashAt b3 root w' proof.path = hashAt b3 root w proof.path
    unfold hashAt
    rw [hdisk]
  · rintro proof entry ⟨name, hname⟩
    exact ⟨name, hnotes _ _ hname⟩

-- The file that a note is about.
def placeOf (proof : PendingEncodeProof) : Proof where
  titleId := proof.titleId
  path := proof.path
  installB3 := proof.installB3

-- The note has done its work: the file is still the old one, or the record has followed.
def Settles (b3 : Bytes → Blake3Hex) (root : Text) (proof : PendingEncodeProof) (w : World) : Prop :=
  hashAt b3 root w proof.path = some proof.previousB3 ∨
    ∀ current ∈ recorded w.store (placeOf proof), hashAt b3 root w proof.path = some current

omit [UnicodeTables] in
theorem stable_settles (proof : PendingEncodeProof) : Stable root (Settles b3 root proof) := by
  intro w w' haside hw
  have hsame : hashAt b3 root w' proof.path = hashAt b3 root w proof.path := by
    unfold hashAt
    rw [haside.disk]
  unfold Settles
  rw [hsame, haside.recorded]
  exact hw

-- A note about a file that Home does not know is of no use to anyone.
omit [UnicodeTables] in
theorem settles_known {proof : PendingEncodeProof} (h : HomeLibrary.Kept b3 root known w)
    (hknown : placeOf proof ∈ known → Settles b3 root proof w) : Settles b3 root proof w := by
  by_cases hplace : placeOf proof ∈ known
  · exact hknown hplace
  · exact .inr fun current hcurrent => absurd ((h.known _).mp ⟨current, hcurrent⟩) hplace

omit [UnicodeTables] in
theorem kept_without {name : Text} (h : HomeLibrary.Kept b3 root known w)
    (hsettles : ∀ proof, w.note name = some (.Saved proof) → Settles b3 root proof w) :
    HomeLibrary.Kept b3 root known (without name w) := by
  refine h.apart rfl (h.covered.forget (fun _ => subset_rfl) rfl ?_)
  rintro proof ⟨previous, next⟩ ⟨other, hother⟩
  by_cases hname : name = other
  · subst hname
    rcases hsettles _ hother with hold | hnew
    · exact .inr (.inl hold)
    · exact .inr (.inr hnew)
  · exact .inl ⟨other, (note_without_of_ne hname).trans hother⟩

end Kept

section Persist

variable {R : World → Prop}

-- What does not look at the notes.
def NoteBlind (R : World → Prop) : Prop := ∀ w proofs, R w → R { w with proofs }

omit [UnicodeTables] in
theorem secure_makeNotes (hstable : Stable root R) (hblind : NoteBlind R) :
    Secure b3 root known (fun w => Settled w ∧ R w) makeNotes fun _ w => Settled w ∧ R w := by
  apply secure_perform ((onNotes_remaining []).stable.and hstable)
  · rintro w pick a w' hkept ⟨hsettled, hr⟩ hok
    cases hok
    exact ⟨kept_noting hkept rfl rfl fun _ _ h => h, hsettled, hblind w _ hr⟩
  · exact fun w part hkept _ => hkept

omit [UnicodeTables] in
theorem secure_createNote (name : Text) (hstable : Stable root R) (hblind : NoteBlind R) :
    Secure b3 root known (fun w => Settled w ∧ R w) (createNote name) fun _ w => Settled w ∧ R w := by
  apply secure_perform ((onNotes_remaining []).stable.and hstable)
  · rintro w pick a w' hkept ⟨hsettled, hr⟩ hok
    dsimp only at hok
    split at hok
    · next hnone =>
      cases hok
      refine ⟨kept_noting hkept rfl rfl fun found proof hfound => ?_, fun found proof hfound => ?_,
        hblind w _ hr⟩
      · exact absurd (hsettled found proof hfound) List.not_mem_nil
      · by_cases hname : name = found
        · subst hname
          rw [note_saveNote] at hfound
          cases hfound
        · rw [note_saveNote_of_ne hname] at hfound
          exact hsettled found proof hfound
    · cases hok
  · exact fun w part hkept _ => hkept

omit [UnicodeTables] in
theorem secure_writeNote (name : Text) (proof : PendingEncodeProof) (hstable : Stable root R)
    (hblind : NoteBlind R) :
    Secure b3 root known (fun w => Settled w ∧ R w) (writeNote name proof) fun _ w =>
      Pending name proof w ∧ R w := by
  have hwritten : ∀ w, HomeLibrary.Kept b3 root known w → Settled w →
      HomeLibrary.Kept b3 root known (saveNote name (.Saved proof) w) :=
    fun w hkept hsettled => kept_noting hkept rfl rfl fun found p hfound =>
      absurd (hsettled found p hfound) List.not_mem_nil
  apply secure_perform ((onNotes_remaining []).stable.and hstable)
  · rintro w pick a w' hkept ⟨hsettled, hr⟩ hok
    cases hok
    refine ⟨hwritten w hkept hsettled, ⟨note_saveNote, fun found p hfound => ?_⟩, hblind w _ hr⟩
    by_cases hname : name = found
    · exact List.mem_singleton.mpr hname.symm
    · rw [note_saveNote_of_ne hname] at hfound
      exact absurd (hsettled found p hfound) List.not_mem_nil
  · intro w part hkept hw
    dsimp only
    split
    · exact hkept
    · exact hwritten w hkept hw.1

omit [UnicodeTables] in
theorem onNotes_pending (name : Text) (proof : PendingEncodeProof) : OnNotes (Pending name proof) :=
  onNotes_and (onNotes_note name _) (onNotes_remaining _)

-- The note is complete before anything else is done.
omit [UnicodeTables] in
theorem secure_persist (proof : PendingEncodeProof) (hstable : Stable root R) (hblind : NoteBlind R) :
    Secure b3 root known (fun w => Settled w ∧ R w) (persistEncodeProof b3 proof) fun name w =>
      Pending name proof w ∧ R w := by
  have hpending : Stable root fun w => Pending (noteName b3 proof.path) proof w ∧ R w :=
    (onNotes_pending _ proof).stable.and hstable
  unfold persistEncodeProof
  refine Runs.bind (secure_makeNotes hstable hblind) fun _ => ?_
  refine Runs.bind (secure_createNote _ hstable hblind) fun _ => ?_
  refine Runs.bind (secure_writeNote _ proof hstable hblind) fun _ => ?_
  refine Runs.bind (secure_step _ hpending) fun _ => ?_
  refine Runs.bind (secure_step _ hpending) fun _ => ?_
  exact secure_pure fun _ hw => hw

omit [UnicodeTables] in
theorem secure_removeNote (name : Text) (names : List Text) :
    Secure b3 root known
      (fun w => Remaining (name :: names) w ∧
        ∃ proof, w.note name = some (.Saved proof) ∧ Settles b3 root proof w)
      (removeNote name) fun _ => Remaining names := by
  have hstable : Stable root fun w => Remaining (name :: names) w ∧
      ∃ proof, w.note name = some (.Saved proof) ∧ Settles b3 root proof w := by
    rintro w w' haside ⟨hremaining, proof, hnote, hsettles⟩
    exact ⟨(onNotes_remaining _).stable w w' haside hremaining, proof,
      (onNotes_note name _).stable w w' haside hnote, stable_settles proof w w' haside hsettles⟩
  apply secure_perform hstable
  · rintro w pick a w' hkept ⟨hremaining, proof, hnote, hsettles⟩ hok
    dsimp only at hok
    split at hok
    · cases hok
      refine ⟨kept_without hkept fun found hfound => ?_, hremaining.removed⟩
      cases hnote.symm.trans hfound
      exact hsettles
    · cases hok
  · exact fun w part hkept _ => hkept

end Persist

section Recover

variable {cluster : HomeObject} {rows : List TitleIndexEntry}

-- A note is settled once the program has looked at its file.
theorem secure_recoverEncodeProof (premise : Premise root known) (hrooted : Rooted root cluster)
    (hrows : ∀ row ∈ rows, Listed known row) (proof : PendingEncodeProof) {N : World → Prop}
    (hN : OnNotes N) :
    Secure b3 root known N (recoverEncodeProof b3 cluster root rows proof) fun _ w =>
      Settles b3 root proof w ∧ N w := by
  unfold recoverEncodeProof
  refine Runs.bind (A := fun path w => HomeLibrary.Kept b3 root known w ∧ N w ∧
    (placeOf proof ∈ known → path = proof.path)) ?_ fun path => ?_
  · refine secure_lift fun path hpath w hw => ⟨hw, fun hknown => ?_⟩
    have hspelled : Spelled proof.path := premise.spelled _ hknown
    rw [hspelled.schemaRelative] at hpath
    cases hpath
    rfl
  apply Runs.of_pre fun _ hw => hw.2.2
  intro hplace
  cases hfound : rows.find? fun row => row.path = path && row.titleId.render = proof.titleId with
  | none => exact secure_throw
  | some row =>
      obtain ⟨hpath, htitle⟩ : row.path = path ∧ row.titleId.render = proof.titleId := by
        simpa using List.find?_some hfound
      have hrow := hrows row (List.mem_of_find?_eq_some hfound)
      dsimp only
      apply runs_guard
      · exact fun _ hw => hw.1
      intro hagree
      have hinstall : row.installB3 = proof.installB3 := by
        by_contra hne
        exact hagree (.inl hne)
      refine Runs.bind (A := fun actual w => HomeLibrary.Kept b3 root known w ∧ N w ∧
        hashAt b3 root w path = some actual) ?_ fun actual => ?_
      · exact (secure_hashOf hN.stable).mono (fun _ hw => hw.1) fun _ _ hw => hw
      apply runs_ite
      · intro _
        have hmade : Proof.of { row with path, installB3 := proof.installB3, currentB3 := proof.currentB3 } =
            Proof.of row := by
          unfold Proof.of
          rw [hpath, hinstall]
        have hlisted : Listed known
            { row with path, installB3 := proof.installB3, currentB3 := proof.currentB3 } := by
          refine ⟨hmade ▸ hrow.1, ?_⟩
          rw [← hpath]
          exact hrow.2
        have hpublished : Secure b3 root known (fun _ => True) (publishRows b3 cluster
            [{ row with path, installB3 := proof.installB3, currentB3 := proof.currentB3 }] false) fun _ =>
            Published b3 root
              { row with path, installB3 := proof.installB3, currentB3 := proof.currentB3 } :=
          secure_publishRows premise hrooted hlisted
        replace hpublished := hpublished.noting (notes_publishRows _ _) hN
        refine Runs.mono hpublished (fun w hw => ⟨hw.1, trivial, hw.2.1⟩) (fun _ w hw => ?_) fun _ hw => hw
        obtain ⟨hkept, ⟨hrecorded, hactual⟩, hnotes⟩ := hw
        refine ⟨hkept, settles_known hkept fun hknown => .inr fun current hcurrent => ?_, hnotes⟩
        have hkey : placeOf proof = Proof.of row := by
          unfold placeOf Proof.of
          rw [htitle, hinstall, hpath, hplace hknown]
        rw [hkey, ← hmade, hrecorded] at hcurrent
        rw [Set.mem_singleton_iff.mp hcurrent, ← hplace hknown]
        exact hactual
      · intro _
        apply runs_ite
        · exact fun _ => runs_throw fun _ hw => hw.1
        · intro hprevious
          have hsame : actual = proof.previousB3 := by simpa using hprevious
          apply runs_pure
          rintro w ⟨hkept, hnotes, hactual⟩
          refine ⟨hkept, settles_known hkept fun hknown => .inl ?_, hnotes⟩
          rw [← hplace hknown, hactual, hsame]

omit [UnicodeTables] in
theorem secure_readNote (name : Text) {N : World → Prop} (hN : OnNotes N) :
    Secure b3 root known N (readNote name) fun file w => N w ∧ w.note name = some file := by
  apply secure_seen hN.stable
  · intro w pick file w' _ hw hok
    dsimp only at hok
    split at hok
    · next hfound =>
      cases hok
      exact ⟨rfl, hw, hfound⟩
    · cases hok
  · exact fun _ _ => rfl

theorem secure_recoverEntries (premise : Premise root known) (hrooted : Rooted root cluster)
    (hrows : ∀ row ∈ rows, Listed known row) (names : List Text) :
    Secure b3 root known (Remaining names) (recoverEntries b3 cluster root rows names) fun _ => Settled := by
  induction names with
  | nil => exact secure_pure fun _ hw => hw
  | cons name names ih =>
      unfold recoverEntries
      refine Runs.bind (secure_readNote name (onNotes_remaining _)) fun file => ?_
      cases file with
      | NotFile =>
          refine ih.mono (fun w hw => hw.1.passed fun proof hsaved => ?_) fun _ _ hw => hw
          cases hw.2.symm.trans hsaved
      | Torn => exact secure_throw
      | Saved proof =>
          have hN : OnNotes fun w => Remaining (name :: names) w ∧ w.note name = some (.Saved proof) :=
            onNotes_and (onNotes_remaining _) (onNotes_note _ _)
          refine Runs.bind (secure_recoverEncodeProof premise hrooted hrows proof hN) fun _ => ?_
          refine Runs.bind ((secure_removeNote name names).mono ?_ fun _ _ hw => hw) fun _ => ih
          exact fun w hw => ⟨hw.2.1, proof, hw.2.2, hw.1⟩

-- The entries of the directory, in whichever order they come.
omit [UnicodeTables] in
theorem remaining_entries (w : World) (pick : Nat) :
    Remaining (((w.entries.map Prod.fst).permutations[pick]?).getD (w.entries.map Prod.fst)) w := by
  intro name proof hnote
  obtain ⟨entry, hentry, -⟩ := Option.map_eq_some_iff.mp hnote
  have hname : entry.1 = name := by simpa using List.find?_some hentry
  have hmem : name ∈ w.entries.map Prod.fst :=
    List.mem_map.mpr ⟨entry, List.mem_of_find?_eq_some hentry, hname⟩
  cases hpick : (w.entries.map Prod.fst).permutations[pick]? with
  | none => exact hmem
  | some names =>
      have hperm := List.mem_permutations.mp (List.mem_of_getElem? hpick)
      exact hperm.mem_iff.mpr hmem

omit [UnicodeTables] in
theorem secure_readNotes : Secure b3 root known (fun _ => True) readNotes fun found w =>
    Remaining (found.getD []) w := by
  apply secure_seen stable_true
  · intro w pick found w' _ _ hok
    cases hok
    refine ⟨rfl, ?_⟩
    by_cases hsome : w.proofs.isSome
    · rw [if_pos hsome]
      exact remaining_entries w pick
    · rw [if_neg hsome]
      intro name proof hnote
      have hnone : w.proofs = none := by simpa using hsome
      unfold World.note World.entries at hnote
      rw [hnone] at hnote
      cases hnote
  · exact fun _ _ => rfl

theorem secure_recoverEncodeProofs (premise : Premise root known) (hrooted : Rooted root cluster) :
    Secure b3 root known (fun _ => True) (recoverEncodeProofs b3 cluster root) fun _ => Settled := by
  unfold recoverEncodeProofs
  refine Runs.bind secure_readNotes fun found => ?_
  cases found with
  | none => exact secure_pure fun _ hw => hw
  | some names =>
      refine Runs.bind (secure_rows premise hrooted (onNotes_remaining names).stable) fun rows => ?_
      apply Runs.of_pre fun _ hw => hw.2.2
      intro hrows
      exact (secure_recoverEntries premise hrooted hrows names).mono (fun _ hw => hw.1) fun _ _ hw => hw

end Recover

end Mediaops.Encode
