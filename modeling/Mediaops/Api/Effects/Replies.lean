import Mediaops.Api.Effects.Steps

namespace Mediaops.Api

-- What a caller learns from a read and from the reply to its request.

section Store

theorem mem_snapshot {s : Store} {kind : Option Kind} {obj : HomeObject} :
    obj ∈ (s.snapshot kind).1 ↔ obj ∈ s.objects ∧ Store.ofKind kind obj = true := by
  rw [(Store.snapshot_perm s kind).mem_iff, List.mem_filter]

theorem mem_list {s : Store} {kind : Option Kind} {obj : HomeObject} :
    obj ∈ s.list kind ↔ obj ∈ s.objects ∧ Store.ofKind kind obj = true := by
  rw [Store.list, (List.perm_insertionSort _ _).mem_iff, List.mem_filter]

variable {s s' : Store}

-- A snapshot finds the row that the store has.
theorem findObject_snapshot (hs : Store.Sound s) (kind : Kind) (name : Text) :
    findObject (s.snapshot none).1 kind name = s.get kind name := by
  unfold findObject
  cases hfind : (s.snapshot none).1.find? fun obj => obj.kind = kind && obj.metadata.name = name with
  | none =>
      cases hget : s.get kind name with
      | none => rfl
      | some obj =>
          have hkey := Store.get_key hget
          have hmem : obj ∈ (s.snapshot none).1 := mem_snapshot.mpr ⟨Store.get_mem hget, rfl⟩
          have hnot := List.find?_eq_none.mp hfind obj hmem
          simp only [HomeObject.key, Prod.mk.injEq] at hkey
          simp [hkey] at hnot
  | some obj =>
      have hmem := (mem_snapshot.mp (List.mem_of_find?_eq_some hfind)).1
      have hkey := List.find?_some hfind
      simp only [Bool.and_eq_true, decide_eq_true_eq] at hkey
      rw [← hkey.1, ← hkey.2, hs.get_of_mem hmem]

theorem reply_ok {α : Type} {result : Except StoreError α × Store}
    (h : Serve.reply result = (.ok (), s')) : ∃ a, result = (.ok a, s') := by
  obtain ⟨outcome, s₁⟩ := result
  cases outcome with
  | error e => cases h
  | ok a =>
      cases h
      exact ⟨a, rfl⟩

theorem reply_error {α : Type} {result : Except StoreError α × Store} {e : HomeError}
    (h : Serve.reply result = (.error e, s')) : ∃ e', result = (.error e', s') := by
  obtain ⟨outcome, s₁⟩ := result
  cases outcome with
  | error e' =>
      cases h
      exact ⟨e', rfl⟩
  | ok a => cases h

theorem delete_refused {actor : Actor} {kind : Kind} {name : Text} {rv : Int} {e : HomeError}
    (h : Serve.delete s actor kind name rv = (.error e, s')) : s' = s := by
  unfold Serve.delete at h
  split at h
  · cases h
    rfl
  · obtain ⟨e', hres⟩ := reply_error h
    exact Store.transaction_error (Store.quiet_deleteTx _ _ _) hres

theorem delete_served (ht : Typed s) {actor : Actor} {kind : Kind} {name : Text} {rv : Int}
    (h : Serve.delete s actor kind name rv = (.ok (), s')) :
    ∃ old, s.get kind name = some old ∧ old.metadata.resourceVersion = rv ∧
      s' = s.write ⟨.Deleted, rewritten s old⟩ := by
  unfold Serve.delete at h
  split at h
  · cases h
  · obtain ⟨written, hres⟩ := reply_ok h
    exact delete_ok ht hres

-- The row that `begin_inventory` leaves: not ready, under the token of the state it
-- was served in.
theorem beginInventory_served (hs : Store.Sound s) (ht : Typed s) {env : Env} {actor : Actor}
    (h : Serve.beginInventory env s actor = (.ok (), s')) :
    ∃ watch node status before, watch ≠ .Deleted ∧ s' = s.write ⟨watch, node⟩ ∧
      Store.Change s ⟨watch, node⟩ ∧ node.key = (.Node, WorkerKind.Inventory.nodeName) ∧
      node.status = .Node status ∧
      status = Sync.scanStatus env (s.snapshot none).1 s.rv before := by
  unfold Serve.beginInventory at h
  split at h
  · cases h
  obtain ⟨written, hres⟩ := reply_ok h
  unfold Sync.beginInventory at hres
  dsimp only at hres
  rw [findObject_snapshot hs] at hres
  cases hget : s.get .Node WorkerKind.Inventory.nodeName with
  | none =>
      rw [hget] at hres
      simp only [Option.getD_none, Option.isSome_none, Bool.false_eq_true, if_false] at hres
      split at hres
      · next before hbefore =>
          split at hres
          · next found watch s₁ happly =>
              cases hres
              have hname : WorkerKind.Inventory.nodeName ≠ [] := by decide
              rcases apply_ok hs hname happly with ⟨old, hold, -⟩ | ⟨hnone, rfl⟩
              · have hsome : s.get .Node WorkerKind.Inventory.nodeName = some old := hold
                rw [hget] at hsome
                cases hsome
              · exact ⟨.Added, _, _, before, WatchType.noConfusion, rfl,
                  .Create ⟨rfl, hnone, rfl, rfl, rfl⟩, rfl, rfl, rfl⟩
          · cases hres
      · cases hres
  | some node =>
      rw [hget] at hres
      simp only [Option.getD_some, Option.isSome_some, if_true] at hres
      split at hres
      · next before hbefore =>
          obtain ⟨old, hold, -, rfl⟩ := patchStatus_ok ht hres
          have hmem := Store.get_mem hold
          have hkey := Store.get_key hget
          have hkind : old.kind = .Node := congrArg Prod.fst (Store.get_key hold)
          have hname : old.metadata.name = node.metadata.name := congrArg Prod.snd (Store.get_key hold)
          have hnode : node.metadata.name = WorkerKind.Inventory.nodeName := congrArg Prod.snd hkey
          refine ⟨.Modified, _, _, before, WatchType.noConfusion, rfl, ?_, ?_, rfl, rfl⟩
          · exact .Update old ⟨rfl, hs.get_of_mem hmem, fun _ => rfl, by simp [rewritten], rfl⟩
          · exact Prod.ext hkind (hname.trans hnode)
      · cases hres

theorem beginInventory_refused {env : Env} {actor : Actor} {e : HomeError}
    (h : Serve.beginInventory env s actor = (.error e, s')) : s' = s := by
  unfold Serve.beginInventory at h
  split at h
  · cases h
    rfl
  obtain ⟨e', hres⟩ := reply_error h
  unfold Sync.beginInventory at hres
  dsimp only at hres
  split at hres
  · split at hres
    · exact Store.transaction_error (Store.quiet_patchStatusTx _ _ _ _) hres
    · split at hres
      · cases hres
      · next happly =>
          cases hres
          exact Store.transaction_error (Store.quiet_applyTx _) happly
  · cases hres
    rfl

end Store

variable [UnicodeTables] {s s' : Store}

-- A refused request leaves the store alone.
theorem apply_refused {env : Env} {view : Store} {actor : Actor} {obj : HomeObject} {e : HomeError}
    (h : Serve.apply env view s actor obj = (.error e, s')) : s' = s := by
  unfold Serve.apply at h
  split at h
  · cases h
    rfl
  · obtain ⟨e', hres⟩ := reply_error h
    exact Store.transaction_error (Store.quiet_applyTx _) hres

theorem patch_refused {env : Env} {view : Store} {actor : Actor} {obj : HomeObject} {e : HomeError}
    (h : Serve.patch env view s actor .PatchStatus obj = (.error e, s')) : s' = s := by
  unfold Serve.patch at h
  split at h
  · cases h
    rfl
  · obtain ⟨e', hres⟩ := reply_error h
    exact Store.transaction_error (Store.quiet_patchStatusTx _ _ _ _) hres

theorem apply_served (hs : Store.Sound s) {env : Env} {view : Store} {actor : Actor}
    {obj : HomeObject} (h : Serve.apply env view s actor obj = (.ok (), s')) :
    obj.Valid ∧
    ((∃ old, s.get obj.kind obj.metadata.name = some old ∧
      obj.metadata.resourceVersion = old.metadata.resourceVersion ∧
      s' = s.write ⟨.Modified, reapplied s obj old⟩) ∨
    (s.get obj.kind obj.metadata.name = none ∧ s' = s.write ⟨.Added, freshlyApplied s obj⟩)) := by
  unfold Serve.apply at h
  split at h
  · cases h
  next hadmit =>
    have hvalid := Admission.validateApply_valid (Checks.when_ok (Checks.seq_ok hadmit).2).2
    obtain ⟨written, hres⟩ := reply_ok h
    exact ⟨hvalid, apply_ok hs hvalid.name hres⟩

-- A state may stand still.
theorem step_idle {past : List Store} : Step (s :: past) s s :=
  .Request { now := 0, disk := .empty } s List.mem_cons_self .Pull .Reconcile

theorem patchSpec_served (ht : Typed s) {env : Env} {view : Store} {actor : Actor}
    {obj : HomeObject} (h : Serve.patch env view s actor .PatchSpec obj = (.ok (), s')) :
    ∃ old, s.get obj.kind obj.metadata.name = some old ∧
      old.metadata.resourceVersion = obj.metadata.resourceVersion ∧
      s' = s.write ⟨.Modified, respecified s old obj.spec⟩ := by
  unfold Serve.patch at h
  split at h
  · cases h
  · obtain ⟨written, hres⟩ := reply_ok h
    exact patchSpec_ok ht hres

theorem patch_served (ht : Typed s) {env : Env} {view : Store} {actor : Actor}
    {obj : HomeObject} (h : Serve.patch env view s actor .PatchStatus obj = (.ok (), s')) :
    ∃ old, s.get obj.kind obj.metadata.name = some old ∧
      old.metadata.resourceVersion = obj.metadata.resourceVersion ∧
      s' = s.write ⟨.Modified, rewritten s { old with status := obj.status }⟩ := by
  unfold Serve.patch at h
  split at h
  · cases h
  · obtain ⟨written, hres⟩ := reply_ok h
    exact patchStatus_ok ht hres

theorem patch_valid {env : Env} {view : Store} {actor : Actor} {obj old : HomeObject}
    (h : Serve.patch env view s actor .PatchStatus obj = (.ok (), s'))
    (hold : s.get obj.kind obj.metadata.name = some old) :
    HomeObject.Valid { old with status := obj.status } := by
  unfold Serve.patch at h
  split at h
  · cases h
  next hadmit =>
    obtain ⟨-, hrest⟩ := Checks.seq_ok hadmit
    obtain ⟨found, hcurrent, hcheck⟩ := Checks.bind_ok (Checks.when_ok hrest).2
    obtain ⟨hfound, -⟩ := Admission.current_ok hcurrent
    obtain rfl := Option.some.inj (hold.symm.trans hfound)
    exact Admission.validateStatusPatch_valid hcheck

end Mediaops.Api
