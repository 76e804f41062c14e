import Mediaops.HomeLibrary.Records
import Mediaops.Library.Handover

namespace Mediaops.HomeLibrary

-- What Home has recorded of a file is what is there, or is noted together with it; and the
-- rules for programs that keep this.

open Transfer (Volume look)

section

variable [UnicodeTables] (b3 : Bytes → Blake3Hex) (root : Text) (known : Set Proof)

def hashAt (w : World) (path : Text) : Option Blake3Hex :=
  (w.disk.volume.files.content (Path.join root path)).map b3

def handover (w : World) : Handover.State Proof Blake3Hex where
  recorded := recorded w.store
  actual proof := hashAt b3 root w proof.path
  noted proof := { entry | ∃ name, w.note name = some (.Saved {
    titleId := proof.titleId
    path := proof.path
    installB3 := proof.installB3
    previousB3 := entry.1
    currentB3 := entry.2 }) }

-- The files that Home knows: each is spelled as the program spells it, in a Title named as
-- the program names it, and no other Title has it.
structure Premise : Prop where
  absolute : Path.isAbsolute root = true
  titles : ∀ proof ∈ known, ∃ titleId, TitleId.parse proof.titleId = .ok titleId ∧
    titleId.render = proof.titleId
  spelled : ∀ proof ∈ known, Spelled proof.path
  once : ∀ proof ∈ known, ∀ other ∈ known, proof.path = other.path → proof = other

structure Kept (w : World) : Prop where
  orderly : Orderly root w.store
  known : ∀ proof, (recorded w.store proof).Nonempty ↔ proof ∈ known
  single : ∀ proof, (recorded w.store proof).Subsingleton
  covered : Handover.Covered (handover b3 root w)

-- What others do: they keep out of the library, of the notes and of what is recorded.
structure Aside (w w' : World) : Prop where
  disk : w'.disk = w.disk
  proofs : w'.proofs = w.proofs
  recorded : ∀ proof, recorded w'.store proof = recorded w.store proof
  orderly : Orderly root w.store → Orderly root w'.store

def others : Terms World where
  allowed move := ∀ w, Aside root w (move.outside w)
  guar _ _ _ := True

def Stable (P : World → Prop) : Prop := ∀ w w', Aside root w w' → P w → P w'

abbrev Secure {ε α : Type} (P : World → Prop) (m : Prog World ε α) (A : α → World → Prop) : Prop :=
  Runs (fun _ w => w) (others root) (fun w => Kept b3 root known w ∧ P w) m
    (fun a w => Kept b3 root known w ∧ A a w) (Kept b3 root known)

end

section Stable

variable {root : Text}

theorem stable_true : Stable root fun _ => True := fun _ _ _ _ => trivial

theorem Stable.and {P Q : World → Prop} (h : Stable root P) (h' : Stable root Q) :
    Stable root fun w => P w ∧ Q w :=
  fun w w' haside hw => ⟨h w w' haside hw.1, h' w w' haside hw.2⟩

theorem stable_disk {p : Install.Disk → Prop} : Stable root fun w => p w.disk := by
  intro w w' haside hw
  rw [haside.disk]
  exact hw

theorem stable_recorded {p : (Proof → Set Blake3Hex) → Prop} :
    Stable root fun w => p (recorded w.store) := by
  intro w w' haside hw
  rw [funext haside.recorded]
  exact hw

theorem root_ok {cluster : HomeObject} {found : Text} (h : HomeLibrary.root cluster = .ok found)
    (hrooted : Rooted root cluster) : found = root := by
  obtain ⟨spec, hspec, h⟩ := Checks.bind_ok h
  obtain ⟨-, h⟩ := Checks.ite_ok h
  cases h
  unfold specOf at hspec
  split at hspec
  · next spec' hcluster =>
    cases hspec
    exact hrooted _ hcluster
  · cases hspec

end Stable

section Rules

variable {b3 : Bytes → Blake3Hex} {root : Text} {known : Set Proof} {ε α : Type}
  {P : World → Prop} {A : α → World → Prop}

theorem handover_congr {w w' : World} (hdisk : w'.disk = w.disk) (hproofs : w'.proofs = w.proofs)
    (hrecorded : ∀ proof, recorded w'.store proof = recorded w.store proof) :
    handover b3 root w' = handover b3 root w := by
  have hstore : recorded w'.store = recorded w.store := funext hrecorded
  unfold handover hashAt World.note World.entries
  rw [hdisk, hproofs, hstore]

theorem Kept.aside {w w' : World} (h : Kept b3 root known w) (haside : Aside root w w') :
    Kept b3 root known w' where
  orderly := haside.orderly h.orderly
  known proof := by rw [haside.recorded, h.known]
  single proof := by rw [haside.recorded]; exact h.single proof
  covered := by rw [handover_congr haside.disk haside.proofs haside.recorded]; exact h.covered

-- A change of the notes and the disk that Home does not see.
theorem Kept.apart {w w' : World} (h : Kept b3 root known w) (hstore : w'.store = w.store)
    (hcovered : Handover.Covered (handover b3 root w')) : Kept b3 root known w' where
  orderly := by rw [hstore]; exact h.orderly
  known proof := by rw [hstore]; exact h.known proof
  single proof := by rw [hstore]; exact h.single proof
  covered := hcovered

theorem secure_pure {a : α} (h : ∀ w, P w → A a w) :
    Secure b3 root known P (pure a : Prog World ε α) A :=
  runs_pure fun w hw => ⟨hw.1, h w hw.2⟩

theorem secure_throw {e : ε} : Secure b3 root known P (throw e : Prog World ε α) A :=
  runs_throw fun _ hw => hw.1

theorem secure_lift {x : Except ε α} (h : ∀ a, x = .ok a → ∀ w, P w → A a w) :
    Secure b3 root known P (Prog.lift x) A :=
  runs_lift (fun a ha w hw => ⟨hw.1, h a ha w hw.2⟩) fun _ hw => hw.1

theorem Secure.mono {P' : World → Prop} {A' : α → World → Prop} {m : Prog World ε α}
    (h : Secure b3 root known P m A) (hpre : ∀ w, P' w → P w) (hpost : ∀ a w, A a w → A' a w) :
    Secure b3 root known P' m A' :=
  Runs.mono h (fun w hw => ⟨hw.1, hpre w hw.2⟩) (fun a w hw => ⟨hw.1, hpost a w hw.2⟩) fun _ hw => hw

theorem Secure.caught {m : Prog World ε α} {B : Except ε α → World → Prop}
    (h : Secure b3 root known P m fun a => B (.ok a)) (herror : ∀ e w, B (.error e) w) :
    Secure b3 root known P (caught m) B := by
  apply Runs.mapError
  apply Runs.attempt
  exact Runs.mono h (fun _ hw => hw) (fun _ _ hw => hw) fun w hw => ⟨hw, fun e => ⟨hw, herror e w⟩⟩

theorem secure_perform {c : Call World ε α} (hstable : Stable root P)
    (hrun : ∀ w pick a w', Kept b3 root known w → P w → c.run pick w = .ok (a, w') →
      Kept b3 root known w' ∧ A a w')
    (hpart : ∀ w part, Kept b3 root known w → P w → Kept b3 root known (c.partly part w)) :
    Secure b3 root known P (Prog.perform c) A := by
  rintro past w ⟨hkept, hw⟩
  apply wp_perform
  rintro move hmove _ o after rfl hanswer
  have hthere : Kept b3 root known (move.outside w) := hkept.aside (hmove w)
  have hstill : P (move.outside w) := hstable _ _ (hmove w) hw
  refine ⟨trivial, ?_⟩
  unfold Call.answer at hanswer
  split at hanswer
  · split at hanswer
    · next hok =>
      cases hanswer
      exact hrun _ _ _ _ hthere hstill hok
    · cases hanswer
      exact hthere
  · cases hanswer
    exact hpart _ _ hthere hstill
  · cases hanswer
    exact hpart _ _ hthere hstill

-- A call that only looks at the world.
theorem secure_seen {c : Call World ε α} (hstable : Stable root P)
    (hrun : ∀ w pick a w', Kept b3 root known w → P w → c.run pick w = .ok (a, w') → w' = w ∧ A a w)
    (hpart : ∀ w part, c.partly part w = w) : Secure b3 root known P (Prog.perform c) A := by
  apply secure_perform hstable
  · intro w pick a w' hkept hw hok
    obtain ⟨rfl, ha⟩ := hrun w pick a w' hkept hw hok
    exact ⟨hkept, ha⟩
  · intro w part hkept _
    rw [hpart]
    exact hkept

theorem secure_look {fault : ε} {f : Volume → Except ε α} (hstable : Stable root P)
    (h : ∀ w a, P w → f w.disk.volume = .ok a → A a w) :
    Secure b3 root known P (look fault f) A := by
  apply secure_seen hstable
  · intro w pick a w' _ hw hok
    obtain ⟨⟨a', v⟩, hv, heq⟩ := Checks.map_ok hok
    obtain ⟨a'', ha, heq'⟩ := Checks.map_ok hv
    cases heq'
    cases heq
    exact ⟨rfl, h w _ hw ha⟩
  · exact fun _ _ => rfl

theorem secure_step (fault : ε) (hstable : Stable root P) :
    Secure b3 root known P (Transfer.step fault) fun _ => P :=
  secure_look hstable fun _ _ hw _ => hw

end Rules

section Api

theorem getD_cases {α : Type} (found : Option α) (a : α) :
    found = some (found.getD a) ∨ found.getD a = a := by
  cases found with
  | none => exact .inr rfl
  | some b => exact .inl rfl

variable {b3 : Bytes → Blake3Hex} {root : Text} {known : Set Proof} {P : World → Prop}

theorem secure_get {kind : Kind} {name : Text} (hstable : Stable root P) :
    Secure b3 root known P (get kind name) fun obj w =>
      P w ∧ obj ∈ w.store.objects ∧ w.store.get kind name = some obj ∧ Rooted root obj := by
  apply secure_seen hstable
  · intro w pick obj w' hkept hw hok
    dsimp only at hok
    split at hok
    · next found hfound =>
      cases hok
      have hmem := Store.get_mem hfound
      exact ⟨rfl, hw, hmem, hfound, hkept.orderly.rooted _ hmem⟩
    · cases hok
  · exact fun _ _ => rfl

theorem secure_list {kind : Kind} (hstable : Stable root P) :
    Secure b3 root known P (list kind) fun objects w =>
      P w ∧ ∀ obj ∈ objects, obj ∈ w.store.objects ∧ obj.kind = kind := by
  apply secure_seen hstable
  · intro w pick objects w' _ hw hok
    cases hok
    refine ⟨rfl, hw, fun obj hobj => ?_⟩
    obtain ⟨hmem, hkind⟩ := Api.mem_list.mp hobj
    exact ⟨hmem, by simpa [Store.ofKind] using hkind⟩
  · exact fun _ _ => rfl

section Submit

variable [UnicodeTables] {request : Serve.Request} {obj : HomeObject}

theorem submission_run {w w' : World} {pick : Nat} {answer : Except HomeError HomeObject}
    (h : (submission b3 request obj).run pick w = .ok (answer, w')) :
    w' = (serve b3 request w).2 ∧ ∀ written, answer = .ok written →
      (serve b3 request w).1 = .ok () ∧
        ((serve b3 request w).2.store.get obj.kind obj.metadata.name = some written ∨ written = obj) := by
  cases h
  refine ⟨rfl, fun written hwritten => ?_⟩
  obtain ⟨u, hu, rfl⟩ := Checks.map_ok hwritten
  exact ⟨hu, getD_cases ..⟩

-- A write that the API serves, or refuses, or serves without an answer.
theorem secure_submit {A : World → Prop} (hstable : Stable root P)
    (h : ∀ w, Kept b3 root known w → P w → Kept b3 root known (serve b3 request w).2 ∧
      ((serve b3 request w).1 = .ok () → A (serve b3 request w).2)) :
    Secure b3 root known P (submit b3 request obj) fun _ => A := by
  unfold submit
  refine Runs.bind (A := fun (answer : Except HomeError HomeObject) w => Kept b3 root known w ∧
    ∀ written, answer = .ok written → A w) ?_ fun answer => ?_
  · apply secure_perform hstable
    · intro w pick answer w' hkept hw hok
      obtain ⟨rfl, hanswer⟩ := submission_run hok
      obtain ⟨hafter, hserved⟩ := h w hkept hw
      exact ⟨hafter, fun written hwritten => hserved (hanswer written hwritten).1⟩
    · intro w part hkept hw
      unfold submission
      dsimp only
      split
      · exact hkept
      · exact (h w hkept hw).1
  · apply runs_lift
    · exact fun written hwritten w hw => ⟨hw.1, hw.2 written (Checks.mapError_ok hwritten)⟩
    · exact fun w hw => hw.1

end Submit

end Api

end Mediaops.HomeLibrary
