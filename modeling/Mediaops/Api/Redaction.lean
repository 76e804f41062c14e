import Mediaops.Api.Reads

namespace Mediaops.Serve

-- What the CLI is told does not depend on the address of the seedbox.

def withAddress (address : Text) (obj : HomeObject) : HomeObject :=
  match obj.spec with
  | .Secret secret => { obj with spec := .Secret { secret with seedboxAddress := address } }
  | _ => obj

-- Two rows that differ at most in the address of a Secret.
def AlikeObject (a b : HomeObject) : Prop := ∃ address, b = withAddress address a

def AlikeEvent (a b : StoreEvent) : Prop := a.watch = b.watch ∧ AlikeObject a.object b.object

structure Alike (s t : Store) : Prop where
  rv : s.rv = t.rv
  floor : s.floor = t.floor
  objects : List.Forall₂ AlikeObject s.objects t.objects
  history : List.Forall₂ AlikeEvent s.history t.history

section Redact

@[simp] theorem redact_kind (obj : HomeObject) : obj.redact.kind = obj.kind := by
  unfold HomeObject.redact
  split <;> rfl

@[simp] theorem redact_metadata (obj : HomeObject) : obj.redact.metadata = obj.metadata := by
  unfold HomeObject.redact
  split <;> rfl

@[simp] theorem redact_key (obj : HomeObject) : obj.redact.key = obj.key := by
  simp [HomeObject.key]

@[simp] theorem redact_redact (obj : HomeObject) : obj.redact.redact = obj.redact := by
  cases hspec : obj.spec with
  | Secret secret => simp [HomeObject.redact, hspec]
  | _ => simp [HomeObject.redact, hspec]

@[simp] theorem redact_withAddress (address : Text) (obj : HomeObject) :
    (withAddress address obj).redact = obj.redact := by
  cases hspec : obj.spec with
  | Secret secret => simp [HomeObject.redact, withAddress, hspec]
  | _ => simp [withAddress, hspec]

def redactEvent (ev : StoreEvent) : StoreEvent := { ev with object := ev.object.redact }

@[simp] theorem redactEvent_revision (ev : StoreEvent) : (redactEvent ev).revision = ev.revision := by
  simp [redactEvent, StoreEvent.revision]

-- The store with every address taken out, which is all the CLI can see.
def redacted (s : Store) : Store :=
  { s with objects := s.objects.map HomeObject.redact, history := s.history.map redactEvent }

theorem map_eq_of_forall₂ {α β : Type} {r : α → α → Prop} {f : α → β}
    (hr : ∀ a b, r a b → f a = f b) {xs ys : List α} (h : List.Forall₂ r xs ys) :
    xs.map f = ys.map f := by
  induction h with
  | nil => rfl
  | cons hab _ ih => rw [List.map_cons, List.map_cons, hr _ _ hab, ih]

theorem Alike.redacted_eq {s t : Store} (h : Alike s t) : redacted s = redacted t := by
  have hobject : ∀ a b, AlikeObject a b → a.redact = b.redact := by
    rintro a _ ⟨address, rfl⟩
    rw [redact_withAddress]
  have hevent : ∀ a b, AlikeEvent a b → redactEvent a = redactEvent b := by
    rintro ⟨watch, a⟩ ⟨watch', b⟩ ⟨hwatch, hab⟩
    dsimp only at hwatch hab
    rw [redactEvent, redactEvent, hwatch, hobject a b hab]
  cases s
  cases t
  simp only [redacted, Store.mk.injEq]
  exact ⟨map_eq_of_forall₂ hobject h.objects, h.rv, h.floor, map_eq_of_forall₂ hevent h.history⟩

end Redact

-- A sort that does not look at what is taken out.
theorem map_insertionSort_same {α : Type} {r : α → α → Prop} [DecidableRel r] {f : α → α}
    (hr : ∀ a b, r a b ↔ r (f a) (f b)) (l : List α) :
    (l.insertionSort r).map f = (l.map f).insertionSort r :=
  List.map_insertionSort r r f l fun a _ b _ => hr a b

section Reads

variable (s : Store)

theorem get_redacted (kind : Kind) (name : Text) :
    (redacted s).get kind name = (s.get kind name).map HomeObject.redact := by
  unfold Store.get redacted Table.lookup
  dsimp only
  rw [List.find?_map]
  congr 2
  funext obj
  simp

theorem list_redacted (kind : Option Kind) :
    (redacted s).list kind = (s.list kind).map HomeObject.redact := by
  have hkind : Store.ofKind kind ∘ HomeObject.redact = Store.ofKind kind := by
    funext obj
    simp [Store.ofKind]
  unfold Store.list redacted
  rw [map_insertionSort_same fun a b => by simp [Store.listOrder]]
  dsimp only
  rw [List.filter_map, hkind]

theorem snapshot_redacted (kind : Option Kind) :
    (redacted s).snapshot kind =
      ((s.snapshot kind).1.map HomeObject.redact, (s.snapshot kind).2) := by
  unfold Store.snapshot
  rw [list_redacted]
  refine Prod.ext ?_ rfl
  dsimp only
  rw [map_insertionSort_same fun a b => by simp]

theorem eventsAfter_redacted (after : Int) :
    (redacted s).eventsAfter after = (s.eventsAfter after).map fun events => events.map redactEvent := by
  unfold Store.eventsAfter
  have hfloor : (redacted s).floor = s.floor := rfl
  rw [hfloor]
  split
  · rfl
  · have hpage : Journal.page StoreEvent.revision watchPageLimit (redacted s).history after =
        (Journal.page StoreEvent.revision watchPageLimit s.history after).map redactEvent := by
      have hafter : (fun ev => decide (after < StoreEvent.revision ev)) ∘ redactEvent =
          fun ev => decide (after < ev.revision) := by
        funext ev
        simp
      unfold Journal.page redacted
      rw [List.map_take, map_insertionSort_same fun a b => by simp]
      dsimp only
      rw [List.filter_map, hafter]
    rw [hpage]
    rfl

theorem maybeRedact_redact (obj : HomeObject) :
    maybeRedact .Cli obj.redact = maybeRedact .Cli obj := by simp [maybeRedact]

theorem serve_get_redacted (kind name : Text) :
    get (redacted s) .Cli kind name = get s .Cli kind name := by
  unfold get
  congr 1
  funext kind
  rw [get_redacted]
  cases s.get kind name with
  | none => rfl
  | some obj => simp only [Option.map_some, maybeRedact_redact]

theorem serve_list_redacted (kind : Text) : list (redacted s) .Cli kind = list s .Cli kind := by
  unfold list
  congr 1
  funext kind
  rw [list_redacted, List.map_map]
  congr 2
  funext obj
  exact maybeRedact_redact obj

theorem serve_watch_redacted (kind : Text) (resourceVersion : Int) :
    watch (redacted s) .Cli kind resourceVersion = watch s .Cli kind resourceVersion := by
  unfold watch
  congr 1
  funext kind
  rw [snapshot_redacted]
  simp only [List.map_map]
  have hitem : (fun obj => (WatchType.Added, maybeRedact .Cli obj)) ∘ HomeObject.redact =
      fun obj => (WatchType.Added, maybeRedact .Cli obj) := by
    funext obj
    simp only [Function.comp, maybeRedact_redact]
  rw [hitem]

theorem poll_redacted (stream : Stream) : poll (redacted s) .Cli stream = poll s .Cli stream := by
  unfold poll
  rw [eventsAfter_redacted]
  cases s.eventsAfter stream.after with
  | error e => rfl
  | ok events =>
      simp only [Except.map, List.filter_map, List.map_map, List.getLast?_map, Option.map_map]
      have hkind : (fun ev : StoreEvent => Store.ofKind stream.kind ev.object) ∘ redactEvent =
          fun ev => Store.ofKind stream.kind ev.object := by
        funext ev
        simp [redactEvent, Store.ofKind]
      have hitem : (fun ev => (Except.ok (itemOf .Cli ev) : Except HomeError WatchItem)) ∘ redactEvent =
          fun ev => .ok (itemOf .Cli ev) := by
        funext ev
        simp [redactEvent, itemOf, maybeRedact_redact]
      have hrevision : StoreEvent.revision ∘ redactEvent = StoreEvent.revision := by
        funext ev
        simp
      rw [hkind, hitem, hrevision]

-- One step of a CLI session reads only the redacted store.
theorem read_redacted (streams : List (Option Stream)) (step : ReadStep) :
    read .Cli (redacted s) streams step = read .Cli s streams step := by
  cases step with
  | Send request =>
      cases request with
      | Get kind name => simp only [read, serve_get_redacted]
      | List kind => simp only [read, serve_list_redacted]
      | Watch kind resourceVersion => simp only [read, serve_watch_redacted]
  | Poll i => simp only [read, poll_redacted]

end Reads

-- Two stores that change in step and are alike at every moment give a CLI session
-- the same answers, snapshots, replays and live events.
theorem cli_noninterference {steps steps' : List (Store × ReadStep)}
    (h : List.Forall₂ (fun a b => Alike a.1 b.1 ∧ a.2 = b.2) steps steps')
    (streams : List (Option Stream)) :
    responses .Cli streams steps = responses .Cli streams steps' := by
  induction h generalizing streams with
  | nil => rfl
  | @cons a b steps steps' hab _ ih =>
      obtain ⟨s, step⟩ := a
      obtain ⟨t, step'⟩ := b
      obtain ⟨halike, rfl⟩ := hab
      dsimp only at halike ih
      have hread : read .Cli s streams step = read .Cli t streams step := by
        rw [← read_redacted s, ← read_redacted t, halike.redacted_eq]
      simp only [responses, hread, ih]

-- A Secret at one address and at another, read by name and watched.
def secretAt (address : Text) : Store where
  objects := [HomeObject.new .Secret secretName (.Secret { seedboxAddress := address })
    (StatusBody.empty .Secret)]
  rv := 1
  floor := 0
  history := [⟨.Added, HomeObject.new .Secret secretName (.Secret { seedboxAddress := address })
    (StatusBody.empty .Secret)⟩]

theorem alike_secretAt (address address' : Text) : Alike (secretAt address) (secretAt address') where
  rv := rfl
  floor := rfl
  objects := .cons ⟨address', rfl⟩ .nil
  history := .cons ⟨rfl, address', rfl⟩ .nil

def readsOf (s : Store) : List (Store × ReadStep) :=
  [(s, .Send (.Get "Secret".toList secretName)), (s, .Send (.Watch [] 0)), (s, .Poll 0)]

theorem cli_noninterference_secretAt :
    secretAt "here:1".toList ≠ secretAt "there:2".toList ∧
      responses .Cli [] (readsOf (secretAt "here:1".toList)) =
        responses .Cli [] (readsOf (secretAt "there:2".toList)) :=
  ⟨by decide, cli_noninterference (.cons ⟨alike_secretAt _ _, rfl⟩ (.cons ⟨alike_secretAt _ _, rfl⟩
    (.cons ⟨alike_secretAt _ _, rfl⟩ .nil))) []⟩

end Mediaops.Serve
