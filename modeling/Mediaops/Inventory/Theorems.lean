import Mediaops.Inventory.Protocol

namespace Mediaops.Inventory

open Arr (HoldLiveItem)

-- Every call of the worker keeps the protocol, and so a Sync captures the listing of
-- one scan that began after the request.

theorem nextGeneration_gt {existing existingHolds : List HomeObject} {previous : Int}
    {old : HomeObject} (hold : old ∈ existing ++ existingHolds) {generation : Int}
    (hgeneration : generationOf old = some generation) :
    generation < nextGeneration existing existingHolds previous := by
  have hmem : generation ∈ (existing ++ existingHolds).filterMap generationOf :=
    List.mem_filterMap.mpr ⟨old, hold, hgeneration⟩
  unfold nextGeneration
  cases hmax : ((existing ++ existingHolds).filterMap generationOf).max? with
  | none =>
      rw [List.max?_eq_none_iff.mp hmax] at hmem
      cases hmem
  | some top =>
      have hle := (List.max?_eq_some_iff.mp hmax).2 generation hmem
      simp only [Option.getD_some]
      omega

section

variable [UnicodeTables]

-- A call ends in the phase it was made for, or leaves the store alone.
theorem call_cases (env : Env) (s : Store) (request : Serve.Request) (phase : Phase)
    (hrefused : ∀ e s', Serve.serve env s s .Inventory request = (.error e, s') → s' = s) :
    call env s request phase = (.Idle, s) ∨
      ∃ s', Serve.serve env s s .Inventory request = (.ok (), s') ∧
        call env s request phase = (phase, s') := by
  unfold call
  cases hres : Serve.serve env s s .Inventory request with
  | mk outcome s' =>
      cases outcome with
      | error e =>
          rw [hrefused e s' hres]
          exact .inl rfl
      | ok u => exact .inr ⟨s', rfl, rfl⟩

theorem call_step (env : Env) (s : Store) (past : List Store) (request : Serve.Request)
    (phase : Phase) : Api.Step (s :: past) s (call env s request phase).2 := by
  have hstep : Api.Step (s :: past) s (Serve.serve env s s .Inventory request).2 :=
    .Request env s List.mem_cons_self .Inventory request
  unfold call
  split <;> next heq => rwa [heq] at hstep

-- Whatever the worker does next is a step of the run.
theorem next_step (env : Env) (s : Store) (past : List Store) (phase : Phase) :
    Api.Step (s :: past) s (next env s phase).2 := by
  cases phase with
  | Idle =>
      have hstep : Api.Step (s :: past) s (Serve.serve env s s .Inventory .BeginInventory).2 :=
        .Request env s List.mem_cons_self .Inventory .BeginInventory
      simp only [next, begin]
      split
      · next heq =>
          rw [heq] at hstep
          split <;> exact hstep
      · next heq => rwa [heq] at hstep
  | Committing batch node attempt =>
      have hstep : Api.Step (s :: past) s (Serve.serve env s s .Inventory
          (.Patch .PatchStatus (batch.committed env.now node))).2 :=
        .Request env s List.mem_cons_self .Inventory _
      simp only [next, commit]
      split
      · exact Api.step_idle
      split
      · next heq => rwa [heq] at hstep
      · next heq =>
          rw [heq] at hstep
          split <;> exact hstep
      · next heq => rwa [heq] at hstep
  | Rejecting scan previous pending =>
      cases pending with
      | nil =>
          simp only [next]
          split <;> exact Api.step_idle
      | cons hold rest =>
          simp only [next]
          split
          · exact Api.step_idle
          · exact Api.step_idle
          · exact call_step ..
  | Publishing batch pending =>
      cases pending with
      | nil => exact Api.step_idle
      | cons entry rest =>
          simp only [next]
          split
          · exact call_step ..
          · exact Api.step_idle
  | Dropping batch name rv pending => exact call_step ..
  | Sending batch request pending => exact call_step ..
  | Deleting batch pending =>
      cases pending with
      | nil => exact Api.step_idle
      | cons old rest =>
          simp only [next]
          split <;> exact Api.step_idle
  | Holding batch pending => cases pending <;> exact Api.step_idle
  | Scanned scan =>
      simp only [next]
      split
      · exact Api.step_idle
      split
      · exact Api.step_idle
      split
      · split <;> exact Api.step_idle
      · exact Api.step_idle
  | Fetching batch attempt =>
      simp only [next]
      split <;> exact Api.step_idle
  | Listed scan previous cluster existing =>
      simp only [next]
      split <;> exact Api.step_idle
  | _ => exact Api.step_idle

namespace Rows

variable {s s' : Store} {batch : Batch} {done : List RemoteEntry}

-- Before the first row is written, every row is older than the batch.
theorem nothing (h : ∀ row ∈ s.objects, row.kind = .RemoteFile → ∀ status,
    row.status = .RemoteFile status → status.listGeneration < batch.generation) :
    Rows s batch [] := by
  refine ⟨fun row hrow hkind status hstatus hge => ?_, fun entry hentry => by cases hentry⟩
  have hlt := h row hrow hkind status hstatus
  omega

theorem skip (h : Rows s batch done) {entry : RemoteEntry} (hmedia : ¬entry.isMedia = true) :
    Rows s batch (done ++ [entry]) := by
  refine ⟨fun row hrow hkind status hstatus hge => ?_, fun e he hm => ?_⟩
  · obtain ⟨e, he, hrest⟩ := h.sound row hrow hkind status hstatus hge
    exact ⟨e, List.mem_append_left _ he, hrest⟩
  · rcases List.mem_append.mp he with he | he
    · exact h.complete e he hm
    · rw [List.mem_singleton.mp he] at hm
      exact absurd hm hmedia

-- One more row, under a name that no row of the batch has.
theorem publish (h : Rows s batch done) (hs : Store.Sound s) {entry : RemoteEntry}
    (hmedia : entry.isMedia = true) {watch : WatchType} {row : HomeObject}
    (hwatch : watch ≠ .Deleted) (hkey : row.key = (.RemoteFile, entry.name))
    (hstatus : row.status = .RemoteFile (batch.status entry))
    (hfree : ∀ old ∈ s.objects, old.key = (.RemoteFile, entry.name) → ∀ status,
      old.status = .RemoteFile status → status.listGeneration < batch.generation) :
    Rows (s.write ⟨watch, row⟩) batch (done ++ [entry]) := by
  constructor
  · intro found hfound hkind status hfoundStatus hge
    rcases hs.mem_write hfound with ⟨-, rfl⟩ | ⟨hold, -⟩
    · refine ⟨entry, by simp, hmedia, congrArg Prod.snd hkey, ?_⟩
      have hsame : StatusBody.RemoteFile (batch.status entry) = .RemoteFile status :=
        hstatus.symm.trans hfoundStatus
      exact (StatusBody.RemoteFile.inj hsame).symm
    · obtain ⟨e, he, hrest⟩ := h.sound found hold hkind status hfoundStatus hge
      exact ⟨e, List.mem_append_left _ he, hrest⟩
  · intro e he hm
    rcases List.mem_append.mp he with he | he
    · obtain ⟨old, hold, hkind, hname, holdStatus⟩ := h.complete e he hm
      refine ⟨old, hs.mem_write_of_ne hold fun hsame => ?_, hkind, hname, holdStatus⟩
      have hlt := hfree old hold (hsame.trans hkey) _ holdStatus
      exact absurd hlt (lt_irrefl _)
    · rw [List.mem_singleton.mp he]
      exact ⟨row, Store.Sound.mem_write_self hwatch, congrArg Prod.fst hkey, congrArg Prod.snd hkey,
        hstatus⟩

-- A row that the scan did not see goes.
theorem drop (h : Rows s batch batch.scan.entries) (hs : Store.Sound s) {name : Text}
    (hname : Unseen batch name) {old : HomeObject} (hkey : old.key = (.RemoteFile, name)) :
    Rows (s.write ⟨.Deleted, old⟩) batch batch.scan.entries := by
  constructor
  · intro found hfound hkind
    rcases hs.mem_write hfound with ⟨hkept, -⟩ | ⟨hold, -⟩
    · exact absurd rfl hkept
    · exact h.sound found hold hkind
  · intro entry hentry hmedia
    obtain ⟨row, hrow, hkind, hrowName, hstatus⟩ := h.complete entry hentry hmedia
    refine ⟨row, hs.mem_write_of_ne hrow fun hsame => ?_, hkind, hrowName, hstatus⟩
    have hnamed : row.metadata.name = name := congrArg Prod.snd (hsame.trans hkey)
    exact hname entry hentry hmedia (hrowName.symm.trans hnamed)

end Rows

theorem Batch.row_key (batch : Batch) (entry : RemoteEntry) :
    (batch.row entry).key = (.RemoteFile, entry.name) := by
  unfold Batch.row
  dsimp only
  split
  · next old hold =>
      have hname := List.find?_some hold
      exact Prod.ext rfl (of_decide_eq_true hname)
  · rfl

theorem Batch.row_status (batch : Batch) (entry : RemoteEntry) :
    (batch.row entry).status = .RemoteFile (batch.status entry) ∧
      (batch.row entry).spec = .RemoteFile := by
  unfold Batch.row
  dsimp only
  split <;> exact ⟨rfl, rfl⟩

-- A published row takes the place of a listed one or of none.
theorem rows_apply {trace : List Store} {s s' : Store} {batch : Batch} {done : List RemoteEntry}
    {entry : RemoteEntry} {env : Env} (h : Api.Settled trace s) (holder : Older trace batch)
    (hrows : Rows s batch done) (hmedia : entry.isMedia = true)
    (hres : Serve.apply env s s .Inventory (batch.row entry) = (.ok (), s')) :
    Rows s' batch (done ++ [entry]) ∧ getNode s' = getNode s := by
  have hkey := batch.row_key entry
  obtain ⟨hkind, hname⟩ := Prod.mk.inj hkey
  obtain ⟨hstatus, hspec⟩ := batch.row_status entry
  have hnode : ∀ row : HomeObject, row.kind = (batch.row entry).kind → row.kind ≠ .Node := by
    intro row hrow
    rw [hrow, hkind]
    exact Kind.noConfusion
  obtain ⟨-, ⟨old, hold, hrv, rfl⟩ | ⟨habsent, rfl⟩⟩ := Api.apply_served h.sound hres
  · refine ⟨?_, getNode_write_of_ne (hnode _ rfl)⟩
    refine hrows.publish h.sound hmedia WatchType.noConfusion hkey ?_ ?_
    · simp only [Api.reapplied, hspec, Spec.isStatusOnly, if_true, hstatus]
    · -- The row in place is the one that was listed, by its revision.
      intro found hfound hfoundKey status hfoundStatus
      have hget := h.sound.get_of_mem hfound
      rw [(Prod.mk.inj hfoundKey).1, (Prod.mk.inj hfoundKey).2, ← hkind, ← hname, hold] at hget
      obtain rfl := Option.some.inj hget
      unfold Batch.row at hrv
      dsimp only at hrv
      split at hrv
      · next listed hlisted =>
          obtain ⟨⟨view, hview, hmem⟩, -, hlt⟩ := holder listed (List.mem_of_find?_eq_some hlisted)
          obtain ⟨hv, hsince⟩ := h.views view hview
          obtain rfl := hsince.coherent hv hmem hfound hrv.symm
          exact hlt status hfoundStatus
      · have hpos := (h.sound.bound old hfound).1
        have hzero : (0 : Int) = old.metadata.resourceVersion := hrv
        omega
  · refine ⟨?_, getNode_write_of_ne (hnode _ rfl)⟩
    refine hrows.publish h.sound hmedia WatchType.noConfusion hkey ?_ ?_
    · have hwant : ¬(batch.row entry).kind = .Want := by
        rw [hkind]
        exact Kind.noConfusion
      simp only [Api.freshlyApplied, if_neg hwant, hstatus]
    · intro found hfound hfoundKey
      have hget := h.sound.get_of_mem hfound
      rw [(Prod.mk.inj hfoundKey).1, (Prod.mk.inj hfoundKey).2, ← hkind, ← hname, habsent] at hget
      cases hget

-- A call about a Hold leaves the listing and the Node alone.
theorem holdCall {trace : List Store} {s s' : Store} {env : Env} {request : Serve.Request}
    (h : Api.Settled trace s) (hrequest : OfHold request)
    (hres : Serve.serve env s s .Inventory request = (.ok (), s')) :
    (∀ obj, obj.kind = .RemoteFile → (obj ∈ s'.objects ↔ obj ∈ s.objects)) ∧
      getNode s' = getNode s := by
  have hwrite : ∀ ev : StoreEvent, ev.object.kind = .Hold →
      (∀ obj, obj.kind = .RemoteFile → (obj ∈ (s.write ev).objects ↔ obj ∈ s.objects)) ∧
        getNode (s.write ev) = getNode s := by
    intro ev hkind
    refine ⟨rows_write_of_ne h.sound ?_, getNode_write_of_ne ?_⟩ <;>
    · rw [hkind]
      exact Kind.noConfusion
  cases request with
  | Apply obj =>
      have hkind : obj.kind = .Hold := hrequest
      obtain ⟨-, ⟨old, hold, -, rfl⟩ | ⟨-, rfl⟩⟩ := Api.apply_served h.sound hres
      · exact hwrite _ hkind
      · exact hwrite _ hkind
  | Patch op obj =>
      obtain ⟨rfl, hkind⟩ := hrequest
      obtain ⟨old, hold, -, rfl⟩ := Api.patch_served h.typed hres
      exact hwrite _ ((congrArg Prod.fst (Store.get_key hold)).trans hkind)
  | Delete kind name rv => exact hrequest.elim
  | Reconcile => exact hrequest.elim
  | Sync requestId => exact hrequest.elim
  | BeginInventory => exact hrequest.elim

theorem holdCall_refused {s s' : Store} {env : Env} {request : Serve.Request}
    (hrequest : OfHold request) {e : HomeError}
    (hres : Serve.serve env s s .Inventory request = (.error e, s')) : s' = s := by
  cases request with
  | Apply obj => exact Api.apply_refused hres
  | Patch op obj =>
      obtain ⟨rfl, -⟩ := hrequest
      exact Api.patch_refused hres
  | Delete kind name rv => exact hrequest.elim
  | Reconcile => exact hrequest.elim
  | Sync requestId => exact hrequest.elim
  | BeginInventory => exact hrequest.elim

theorem acknowledged_kind {hold obj : HomeObject} (h : acknowledged hold = .ok (some obj)) :
    obj.kind = hold.kind := by
  unfold acknowledged at h
  split at h
  · split at h
    · cases h
    · obtain ⟨_, -, h₁⟩ := Checks.bind_ok h
      obtain ⟨-, h₂⟩ := Checks.guard_ok h₁
      cases h₂
      rfl
  · cases h

-- What a call of a working scan may change: the phase, and rows of the listing.
structure Advance (s : Store) (past : List Store) (start : ScanStart) (phase' : Phase) (s' : Store) :
    Prop where
  node : getNode s' = getNode s
  token : ∀ token, phase'.token = some token → token = start
  progress : Progress s' (s' :: s :: past) phase'
  open_ : ∀ batch, phase' ≠ .Committed batch

namespace Advance

variable {s s' : Store} {past : List Store} {start : ScanStart} {phase' : Phase}

theorem idle : Advance s past start .Idle s := by
  refine ⟨rfl, fun token h => ?_, trivial, fun batch h => ?_⟩
  · cases h
  · cases h

-- The call only read.
theorem read (htoken : phase'.token = some start) (hprogress : Progress s (s :: past) phase') :
    Advance s past start phase' s := by
  refine ⟨rfl, fun token h => ?_, hprogress.frame (fun _ _ => Iff.rfl) (List.subset_cons_self _ _), ?_⟩
  · rw [htoken] at h
    exact (Option.some.inj h).symm
  · rintro batch rfl
    cases htoken

theorem write (hnode : getNode s' = getNode s) (htoken : phase'.token = some start)
    (hprogress : Progress s' (s' :: s :: past) phase') : Advance s past start phase' s' := by
  refine ⟨hnode, fun token h => ?_, hprogress, ?_⟩
  · rw [htoken] at h
    exact (Option.some.inj h).symm
  · rintro batch rfl
    cases htoken

end Advance

theorem advance_listed {s : Store} {past : List Store} (env : Env) (scan : Scan) (previous : Int) (cluster : ClusterSpec)
    (existing : List HomeObject)
    (hprogress : Progress s (s :: past) (.Listed scan previous cluster existing)) :
    Advance s past scan.start (next env s (.Listed scan previous cluster existing)).1
      (next env s (.Listed scan previous cluster existing)).2 := by
  obtain ⟨hsame, hkinds⟩ := hprogress
  simp only [next]
  split
  · exact .idle
  · have hlt : ∀ old ∈ existing, ∀ status, old.status = .RemoteFile status →
        status.listGeneration < nextGeneration existing (s.list (some .Hold)) previous := by
      intro old hold status hstatus
      refine nextGeneration_gt (List.mem_append_left _ hold) ?_
      simp only [generationOf, hstatus]
    refine .read rfl ⟨fun old hold => ?_, [], rfl, .nothing fun row hrow hkind status hstatus => ?_⟩
    · have hmem := (hsame old (hkinds old hold)).mpr hold
      exact ⟨⟨s, List.mem_cons_self, hmem⟩, hkinds old hold, hlt old hold⟩
    · exact hlt row ((hsame row hkind).mp hrow) status hstatus

section Publish

variable {s : Store} {past : List Store} (h : Api.Settled (s :: past) s) (env : Env)

include h

theorem advance_rejecting (scan : Scan) (previous : Int) (pending : List HomeObject)
    (hprogress : Progress s (s :: past) (.Rejecting scan previous pending)) :
    Advance s past scan.start (next env s (.Rejecting scan previous pending)).1
      (next env s (.Rejecting scan previous pending)).2 := by
  cases pending with
  | nil =>
      simp only [next]
      split
      · exact .read rfl trivial
      · exact .idle
  | cons hold rest =>
      have hrest : ∀ hold ∈ rest, hold.kind = .Hold := fun other hother =>
        hprogress other (List.mem_cons_of_mem _ hother)
      simp only [next]
      split
      · exact .idle
      · exact .read rfl hrest
      · next obj hobj =>
          have hrequest : OfHold (.Patch .PatchStatus obj) :=
            ⟨rfl, (acknowledged_kind hobj).trans (hprogress hold List.mem_cons_self)⟩
          rcases call_cases env s (.Patch .PatchStatus obj) (.Rejecting scan previous rest)
            (fun _ _ hres => holdCall_refused hrequest hres) with heq | ⟨s', hres, heq⟩
          · rw [heq]
            exact .idle
          · rw [heq]
            exact .write (holdCall h hrequest hres).2 rfl hrest

theorem advance_publishing (batch : Batch) (pending : List RemoteEntry)
    (hprogress : Progress s (s :: past) (.Publishing batch pending)) :
    Advance s past batch.scan.start (next env s (.Publishing batch pending)).1
      (next env s (.Publishing batch pending)).2 := by
  obtain ⟨holder, done, hdone, hrows⟩ := hprogress
  cases pending with
  | nil =>
      rw [List.append_nil] at hdone
      rw [← hdone] at hrows
      refine .read rfl ⟨hrows, fun old hold entry hentry hmedia hname => ?_⟩
      have hunseen := (List.mem_filter.mp hold).2
      simp only [Bool.not_eq_true', List.any_eq_false, Bool.and_eq_true, decide_eq_true_eq,
        not_and] at hunseen
      exact hunseen entry hentry hmedia hname
  | cons entry rest =>
      have hnext : batch.scan.entries = (done ++ [entry]) ++ rest := by
        rw [hdone, List.append_assoc]
        rfl
      simp only [next]
      split
      · next hmedia =>
          rcases call_cases env s (.Apply (batch.row entry)) (.Publishing batch rest)
            (fun _ _ hres => Api.apply_refused hres) with heq | ⟨s', hres, heq⟩
          · rw [heq]
            exact .idle
          · rw [heq]
            obtain ⟨hpublished, hnode⟩ := rows_apply h holder hrows hmedia hres
            exact .write hnode rfl
              ⟨holder.mono (List.subset_cons_self _ _), done ++ [entry], hnext, hpublished⟩
      · next hmedia => exact .read rfl ⟨holder, done ++ [entry], hnext, hrows.skip hmedia⟩

theorem advance_dropping (batch : Batch) (name : Text) (rv : Int) (pending : List HomeObject)
    (hprogress : Progress s (s :: past) (.Dropping batch name rv pending)) :
    Advance s past batch.scan.start (next env s (.Dropping batch name rv pending)).1
      (next env s (.Dropping batch name rv pending)).2 := by
  obtain ⟨hrows, hunseen, hpending⟩ := hprogress
  simp only [next]
  rcases call_cases env s (.Delete .RemoteFile name rv) (.Deleting batch pending)
    (fun _ _ hres => Api.delete_refused hres) with heq | ⟨s', hres, heq⟩
  · rw [heq]
    exact .idle
  · rw [heq]
    obtain ⟨old, hold, -, rfl⟩ := Api.delete_served h.typed hres
    have hkey := Store.get_key hold
    have hkind : old.kind = .RemoteFile := congrArg Prod.fst hkey
    refine .write (getNode_write_of_ne ?_) rfl ⟨hrows.drop h.sound hunseen hkey, hpending⟩
    simp [Api.rewritten, hkind]

theorem advance_sending (batch : Batch) (request : Serve.Request) (pending : List HoldLiveItem)
    (hprogress : Progress s (s :: past) (.Sending batch request pending)) :
    Advance s past batch.scan.start (next env s (.Sending batch request pending)).1
      (next env s (.Sending batch request pending)).2 := by
  obtain ⟨hrows, hrequest⟩ := hprogress
  simp only [next]
  rcases call_cases env s request (.Holding batch pending)
    (fun _ _ hres => holdCall_refused hrequest hres) with heq | ⟨s', hres, heq⟩
  · rw [heq]
    exact .idle
  · rw [heq]
    obtain ⟨hsame, hnode⟩ := holdCall h hrequest hres
    exact .write hnode rfl (hrows.frame hsame)

-- Every call but a commit that goes through.
theorem advance {phase : Phase} {start : ScanStart} (htoken : phase.token = some start)
    (hprogress : Progress s (s :: past) phase)
    (hopen : ∀ batch, (next env s phase).1 ≠ .Committed batch) :
    Advance s past start (next env s phase).1 (next env s phase).2 := by
  cases phase with
  | Idle => cases htoken
  | Committed batch => cases htoken
  | Started token => exact .read htoken trivial
  | Scanned scan =>
      cases htoken
      simp only [next]
      split
      · exact .idle
      split
      · exact .idle
      split
      · split
        · exact .idle
        · exact .read rfl trivial
      · exact .idle
  | Checked scan previous =>
      cases htoken
      refine .read rfl fun hold hhold => ?_
      simpa [Store.ofKind] using (Api.mem_list.mp hhold).2
  | Rejecting scan previous pending =>
      cases htoken
      exact advance_rejecting h env scan previous pending hprogress
  | Configured scan previous cluster =>
      cases htoken
      refine .read rfl ⟨fun obj hkind => ?_, fun old hold => ?_⟩
      · rw [Api.mem_list]
        simp [Store.ofKind, hkind]
      · simpa [Store.ofKind] using (Api.mem_list.mp hold).2
  | Listed scan previous cluster existing =>
      cases htoken
      exact advance_listed env scan previous cluster existing hprogress
  | Publishing batch pending =>
      cases htoken
      exact advance_publishing h env batch pending hprogress
  | Deleting batch pending =>
      cases htoken
      obtain ⟨hrows, hunseen⟩ := hprogress
      cases pending with
      | nil => exact .read rfl hrows
      | cons old rest =>
          simp only [next]
          split
          · exact .idle
          · exact .read rfl ⟨hrows, hunseen old List.mem_cons_self,
              fun other hother => hunseen other (List.mem_cons_of_mem _ hother)⟩
  | Dropping batch name rv pending =>
      cases htoken
      exact advance_dropping h env batch name rv pending hprogress
  | Holding batch pending =>
      cases htoken
      cases pending with
      | nil => exact .read rfl hprogress
      | cons hold rest =>
          refine .read rfl ⟨hprogress, ?_⟩
          cases hget : s.get .Hold hold.name with
          | none => exact rfl
          | some existing => exact ⟨rfl, congrArg Prod.fst (Store.get_key hget)⟩
  | Sending batch request pending =>
      cases htoken
      exact advance_sending h env batch request pending hprogress
  | Fetching batch attempt =>
      cases htoken
      simp only [next]
      split
      · exact .idle
      · next node hnode => exact .read rfl ⟨hprogress, s, List.mem_cons_self, hnode⟩
  | Committing batch node attempt =>
      cases htoken
      obtain ⟨hrows, -⟩ := hprogress
      simp only [next, commit] at hopen ⊢
      split
      · exact .idle
      next hsame =>
        rw [if_neg hsame] at hopen
        cases hres : Serve.serve env s s .Inventory
            (.Patch .PatchStatus (batch.committed env.now node)) with
        | mk outcome s' =>
            rw [hres] at hopen
            cases outcome with
            | ok u => exact absurd rfl (hopen batch)
            | error e =>
                obtain rfl := Api.patch_refused hres
                cases e with
                | Conflict kind name =>
                    dsimp only
                    split
                    · exact .read rfl hrows
                    · exact .idle
                | _ => exact .idle

end Publish

-- Only a commit that went through ends in a committed listing.
theorem committed_of_next {env : Env} {s : Store} {phase : Phase} {batch : Batch}
    (h : (next env s phase).1 = .Committed batch) : ∃ node attempt s',
      phase = .Committing batch node attempt ∧ scanStart node = some batch.scan.start ∧
      Serve.serve env s s .Inventory (.Patch .PatchStatus (batch.committed env.now node)) =
        (.ok (), s') ∧ next env s phase = (.Committed batch, s') := by
  have hcall : ∀ request after, (call env s request after).1 = .Committed batch →
      after = .Committed batch := by
    intro request after hafter
    unfold call at hafter
    split at hafter
    · exact hafter
    · cases hafter
  cases phase with
  | Committing other node attempt =>
      simp only [next, commit] at h ⊢
      by_cases hscan : scanStart node ≠ some other.scan.start
      · rw [if_pos hscan] at h
        cases h
      rw [if_neg hscan] at h ⊢
      push Not at hscan
      cases hres : Serve.serve env s s .Inventory
          (.Patch .PatchStatus (other.committed env.now node)) with
      | mk outcome s' =>
          rw [hres] at h
          cases outcome with
          | ok u =>
              cases h
              exact ⟨node, attempt, s', rfl, hscan, hres, rfl⟩
          | error e =>
              cases e with
              | Conflict kind name =>
                  dsimp only at h
                  split at h <;> cases h
              | _ => cases h
  | Idle =>
      simp only [next, begin] at h
      split at h
      · split at h <;> cases h
      · cases h
  | Rejecting scan previous pending =>
      cases pending with
      | nil =>
          simp only [next] at h
          split at h <;> cases h
      | cons hold rest =>
          simp only [next] at h
          split at h
          · cases h
          · cases h
          · cases hcall _ _ h
  | Publishing other pending =>
      cases pending with
      | nil => cases h
      | cons entry rest =>
          simp only [next] at h
          split at h
          · cases hcall _ _ h
          · cases h
  | Deleting other pending =>
      cases pending with
      | nil => cases h
      | cons old rest =>
          simp only [next] at h
          split at h <;> cases h
  | Dropping other name rv pending => cases hcall _ _ h
  | Sending other request pending => cases hcall _ _ h
  | Holding other pending => cases pending <;> cases h
  | Scanned scan =>
      simp only [next] at h
      split at h
      · cases h
      split at h
      · cases h
      split at h
      · split at h <;> cases h
      · cases h
  | Listed scan previous cluster existing =>
      simp only [next] at h
      split at h <;> cases h
  | Fetching other attempt =>
      simp only [next] at h
      split at h <;> cases h
  | _ => cases h

namespace Inv

variable {w : World}

-- A working scan offers nothing, so only its own progress is to be kept.
theorem work (h : Inv w) {start : ScanStart} (hlive : w.phase.token = some start) {phase' : Phase}
    {s' : Store} (hstep : Api.Step w.trace w.store s')
    (ha : Advance w.store w.past start phase' s') :
    Inv { store := s', past := w.trace, phase := phase', begun := w.begun,
          listings := w.listings } := by
  obtain ⟨hbegun, hunready⟩ := h.live start hlive
  have hunready' : Unready s' := by
    intro node status hnode
    rw [ha.node] at hnode
    exact hunready node status hnode
  refine ⟨.Next h.run hstep, ?_, fun begun hb => (h.began begun hb).mono (sub w s'), ?_, ?_,
    ha.progress⟩
  · intro node status hnode
    have hbefore : getNode w.store = some node := ha.node ▸ hnode
    exact h.token node status hbefore
  · intro node status hnode hstatus hready
    have hoff := hunready' node status hnode hstatus
    rw [hoff] at hready
    cases hready
  · intro token htoken
    rw [ha.token token htoken]
    exact ⟨hbegun, hunready'⟩

-- The worker is between two scans and only looks on.
theorem rest (h : Inv w) :
    Inv { store := w.store, past := w.trace, phase := .Idle, begun := w.begun,
          listings := w.listings } := by
  refine ⟨.Next h.run Api.step_idle, h.token, fun begun hb => (h.began begun hb).mono (sub w w.store),
    ?_, ?_, trivial⟩
  · intro node status hnode hstatus hready htoken
    obtain ⟨begun, batch, hoffered⟩ := h.offered node status hnode hstatus hready htoken
    exact ⟨begun, batch, hoffered.latest, hoffered.listing, hoffered.token, hoffered.generation,
      hoffered.rows⟩
  · intro token hlive
    cases hlive

theorem served (_ : Inv w) {env : Env} {request : Serve.Request} {outcome : Except HomeError Unit}
    {s' : Store} (hres : Serve.serve env w.store w.store .Inventory request = (outcome, s')) :
    Api.Step w.trace w.store s' := by
  have hstep : Api.Step w.trace w.store (Serve.serve env w.store w.store .Inventory request).2 :=
    .Request env w.store List.mem_cons_self .Inventory request
  rwa [hres] at hstep

-- A scan begins: the Node gets the token of this state and is not ready.
theorem begins (h : Inv w) {env : Env} {s' : Store}
    (hres : Serve.serve env w.store w.store .Inventory .BeginInventory = (.ok (), s')) :
    ∃ start, (getNode s').bind scanStart = some start ∧
      Inv { store := s', past := w.trace, phase := .Started start, begun := some w.store,
            listings := w.listings } := by
  have hsettled := h.settled
  have hstep := served h hres
  obtain ⟨watch, node, status, before, hwatch, rfl, hchange, hkey, hstatus, hscan⟩ :=
    Api.beginInventory_served hsettled.sound hsettled.typed hres
  have hnode : getNode (w.store.write ⟨watch, node⟩) = some node := getNode_write_self hwatch hkey
  have htoken : tokenOf status = tokenAt w.store := by
    rw [hscan]
    rfl
  have hstart : (getNode (w.store.write ⟨watch, node⟩)).bind scanStart = some (tokenOf status) := by
    rw [hnode, Option.bind_some, scanStart, hstatus]
  have hread : ∀ found found', getNode (w.store.write ⟨watch, node⟩) = some found →
      found.status = .Node found' → found' = status := by
    intro found found' hfound hfound'
    rw [hnode] at hfound
    cases hfound
    rw [hstatus] at hfound'
    exact (StatusBody.Node.inj hfound').symm
  have hready : status.ready = false := by
    rw [hscan]
    rfl
  refine ⟨tokenOf status, hstart, .Next h.run hstep, ?_, ?_, ?_, ?_, trivial⟩
  · intro found found' hfound hfound' _
    rw [hread found found' hfound hfound']
    exact ⟨w.store, rfl, htoken⟩
  · intro begun hbegun
    cases hbegun
    refine ⟨List.mem_cons_of_mem _ List.mem_cons_self, _, List.mem_cons_self,
      Int.lt_succ w.store.rv, fun row hrow hkind => ?_⟩
    rcases hsettled.sound.mem_write hrow with ⟨-, rfl⟩ | ⟨hold, -⟩
    · cases hkind.symm.trans (congrArg Prod.fst hkey)
    · exact hold
  · intro found found' hfound hfound' hon _
    rw [hread found found' hfound hfound', hready] at hon
    cases hon
  · intro token hlive
    cases hlive
    refine ⟨⟨w.store, rfl, htoken⟩, fun found found' hfound hfound' => ?_⟩
    rw [hread found found' hfound hfound', hready]

-- A commit that goes through offers the rows of the batch.
theorem commits (h : Inv w) {env : Env} {batch : Batch} {node : HomeObject} {attempt : Nat}
    (hphase : w.phase = .Committing batch node attempt)
    (hscan : scanStart node = some batch.scan.start) {s' : Store}
    (hres : Serve.serve env w.store w.store .Inventory
      (.Patch .PatchStatus (batch.committed env.now node)) = (.ok (), s')) :
    Inv { store := s', past := w.trace, phase := .Committed batch, begun := w.begun,
          listings := (w.begun.map fun begun => { begun, batch }).toList ++ w.listings } := by
  have hsettled := h.settled
  have hprogress := h.progress
  obtain ⟨⟨begun, hbegun, hstart⟩, -⟩ := h.live batch.scan.start (by rw [hphase]; rfl)
  rw [hphase] at hprogress
  obtain ⟨hrows, view, hview, hread⟩ := hprogress
  obtain ⟨status, hstatus, htoken⟩ :
      ∃ status, node.status = .Node status ∧ tokenOf status = batch.scan.start := by
    unfold scanStart at hscan
    split at hscan
    · next status hstatus => exact ⟨status, hstatus, Option.some.inj hscan⟩
    · cases hscan
  have hstep := served h hres
  simp only [Batch.committed, hstatus] at hres
  obtain ⟨-, hnew, hframe⟩ := patched_node hsettled hview hread hres
  have hdone : ∀ found found', getNode s' = some found → found.status = .Node found' →
      tokenOf found' = batch.scan.start ∧ found'.listGeneration = batch.generation := by
    intro found found' hfound hfound'
    rw [hnew] at hfound
    cases hfound
    cases hfound'
    exact ⟨htoken, rfl⟩
  refine ⟨.Next h.run hstep, ?_, fun b hb => (h.began b hb).mono (sub w s'), ?_, ?_, trivial⟩
  · intro found found' hfound hfound' _
    exact ⟨begun, hbegun, (hdone found found' hfound hfound').1.trans hstart⟩
  · intro found found' hfound hfound' _ _
    refine ⟨begun, batch, hbegun, ?_, hstart, (hdone found found' hfound hfound').2.symm,
      hrows.frame hframe⟩
    simp [hbegun]
  · intro token hlive
    cases hlive

theorem publish (h : Inv w) (env : Env) : Inv (w.publish env) := by
  unfold World.publish
  have hstep := next_step env w.store w.past w.phase
  cases htoken : w.phase.token with
  | none =>
      cases hphase : w.phase with
      | Idle =>
          simp only [next, begin]
          cases hres : Serve.serve env w.store w.store .Inventory .BeginInventory with
          | mk outcome s' =>
              cases outcome with
              | error e =>
                  obtain rfl := Api.beginInventory_refused hres
                  exact h.rest
              | ok u =>
                  obtain ⟨start, hstart, hinv⟩ := h.begins hres
                  simp only [hstart]
                  exact hinv
      | Committed batch => exact h.rest
      | _ =>
          rw [hphase] at htoken
          cases htoken
  | some start =>
      by_cases hdone : ∃ batch, (next env w.store w.phase).1 = .Committed batch
      · obtain ⟨batch, hbatch⟩ := hdone
        obtain ⟨node, attempt, s', hphase, hscan, hres, hnext⟩ := committed_of_next hbatch
        rw [hnext, hphase]
        exact h.commits hphase hscan hres
      · push Not at hdone
        have hadvance := advance h.settled env htoken h.progress hdone
        generalize hnext : next env w.store w.phase = after at hstep hdone hadvance
        obtain ⟨phase', s'⟩ := after
        have hinv := h.work htoken hstep hadvance
        cases hphase : w.phase with
        | Idle =>
            rw [hphase] at htoken
            cases htoken
        | Committing batch node attempt =>
            cases phase' with
            | Committed other => exact absurd rfl (hdone other)
            | _ => exact hinv
        | _ => exact hinv

end Inv

theorem Reachable.inv {w : World} (h : Reachable w) : Inv w := by
  induction h with
  | Start =>
      refine ⟨.Start, ?_, ?_, ?_, ?_, trivial⟩
      · intro node status hnode
        cases hnode
      · intro begun hbegun
        cases hbegun
      · intro node status hnode
        cases hnode
      · intro token htoken
        cases htoken
  | Other _ step hforeign ih => exact ih.other step hforeign
  | Heartbeat _ env view hview ready hready now request hrequest ih =>
      exact ih.heartbeats env hview hready hrequest
  | Receive _ start hphase entries holds ih => exact ih.receive hphase entries holds
  | Publish _ env ih => exact ih.publish env
  | Crash _ ih => exact ih.crash

end

end Mediaops.Inventory
