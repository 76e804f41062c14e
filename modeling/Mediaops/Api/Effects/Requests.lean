import Mediaops.Api.Effects

namespace Mediaops.Api

-- The effect of each request, from its admission.

section Admitted

variable {actor : Actor} {op : HomeOp} {kind : Kind}

theorem admitOp_ok (h : admitOp actor op kind = .ok ()) : admitted actor op kind = true := by
  unfold admitOp at h
  by_cases hadm : admitted actor op kind = true
  · exact hadm
  · rw [if_neg hadm] at h
    cases h

-- No role applies or patches a Sync, and the spec of a Job is only bound.
theorem admitted_apply (h : admitted actor .Apply kind = true) : kind ≠ .Sync := by
  rintro rfl
  cases actor <;> simp [admitted] at h

theorem admitted_patchStatus (h : admitted actor .PatchStatus kind = true) : kind ≠ .Sync := by
  rintro rfl
  cases actor <;> simp [admitted] at h

theorem admitted_patchSpec (h : admitted actor .PatchSpec kind = true) :
    kind ≠ .Sync ∧ kind ≠ .Job := by
  constructor <;> rintro rfl <;> cases actor <;> simp [admitted] at h

-- Titles and the Cluster are there for good.
theorem admitted_delete (h : admitted actor .Delete kind = true) :
    kind ≠ .Title ∧ kind ≠ .Cluster := by
  constructor <;> rintro rfl <;> cases actor <;> simp [admitted] at h

end Admitted

theorem isLifecycle_false {kind : Kind} (hjob : kind ≠ .Job) (htitle : kind ≠ .Title)
    (hsync : kind ≠ .Sync) : isLifecycle kind = false := by
  simp [isLifecycle, hjob, htitle, hsync]

theorem Plain.of_kind {ev : StoreEvent} (hagrees : ev.object.Agrees)
    (hkind : ev.object.kind ≠ .Sync)
    (hnew : Unsynced ev) : Plain ev := by
  have hnone : ∀ status, ev.object.status ≠ .Sync status := by
    intro status hstatus
    have hsync := hagrees.2
    rw [hstatus] at hsync
    exact hkind hsync.symm
  exact ⟨hnew, fun _ status hstatus => absurd hstatus (hnone status),
    fun _ status hstatus => absurd hstatus (hnone status)⟩

theorem Plain.deleted {obj : HomeObject} : Plain ⟨.Deleted, obj⟩ :=
  ⟨fun h => WatchType.noConfusion h, fun h => absurd rfl h, fun h => absurd rfl h⟩

-- The new row of a Sync that waits or failed.
theorem Plain.of_phase {ev : StoreEvent} {status : SyncStatus} (hnew : Unsynced ev)
    (hstatus : ev.object.status = .Sync status)
    (hphase : status.phase = .WaitingInventory ∨ status.phase = .Failed) : Plain ev := by
  refine ⟨hnew, fun _ after hafter => ?_, fun _ after hafter => ?_⟩ <;>
    rw [hstatus] at hafter <;> cases hafter <;>
    rcases hphase with h | h <;> rw [h] <;> exact SyncPhase.noConfusion

theorem approves_kind {spec : Spec} (h : Admission.approves spec = true) : spec.kind = .Hold := by
  cases spec with
  | Hold spec => rfl
  | _ => cases h

section Bodies

variable {obj : HomeObject}

theorem specOf_job (h : obj.Agrees) (hkind : obj.kind = .Job) : ∃ spec, obj.spec = .Job spec := by
  have hspec := h.1
  rw [hkind] at hspec
  cases hs : obj.spec <;> rw [hs] at hspec <;> first | exact ⟨_, rfl⟩ | cases hspec

theorem statusOf_job (h : obj.Agrees) (hkind : obj.kind = .Job) :
    ∃ status, obj.status = .Job status := by
  have hstatus := h.2
  rw [hkind] at hstatus
  cases hs : obj.status <;> rw [hs] at hstatus <;> first | exact ⟨_, rfl⟩ | cases hstatus

theorem specOf_title (h : obj.Agrees) (hkind : obj.kind = .Title) :
    ∃ spec, obj.spec = .Title spec := by
  have hspec := h.1
  rw [hkind] at hspec
  cases hs : obj.spec <;> rw [hs] at hspec <;> first | exact ⟨_, rfl⟩ | cases hspec

theorem statusOf_title (h : obj.Agrees) (hkind : obj.kind = .Title) :
    ∃ status, obj.status = .Title status := by
  have hstatus := h.2
  rw [hkind] at hstatus
  cases hs : obj.status <;> rw [hs] at hstatus <;> first | exact ⟨_, rfl⟩ | cases hstatus

theorem statusOf_sync (h : obj.Agrees) (hkind : obj.kind = .Sync) :
    ∃ status, obj.status = .Sync status := by
  have hstatus := h.2
  rw [hkind] at hstatus
  cases hs : obj.status <;> rw [hs] at hstatus <;> first | exact ⟨_, rfl⟩ | cases hstatus

end Bodies

section Guards

variable {s : Store}

-- A new row changes nothing that was there.
theorem Guarded.created {obj : HomeObject} (habsent : s.get obj.kind obj.metadata.name = none) :
    Guarded s ⟨.Added, obj⟩ := by
  have hnone : ∀ old ∈ s.objects, old.key ≠ obj.key := fun _ hold =>
    Table.lookup_none habsent hold
  exact ⟨fun old hold hkey => absurd hkey (hnone old hold),
    fun old hold hkey => absurd hkey (hnone old hold)⟩

-- The row that is there decides.
theorem Guarded.rewrite (hs : Store.Sound s) {old new : HomeObject} (hold : old ∈ s.objects)
    (hkey : new.key = old.key)
    (happroval : Admission.approves old.spec = true → Admission.approves new.spec = true ∨
      (s.list (some .Job)).any (Admission.boundTo old.metadata.name) = false)
    (hroot : ∀ before after, old.spec = .Cluster before → new.spec = .Cluster after →
      before.libraryRoot = after.libraryRoot ∨
        (s.list (some .Job)).any (Admission.activeUnder after.libraryRoot) = false) :
    Guarded s ⟨.Modified, new⟩ := by
  have hsame : ∀ prev ∈ s.objects, prev.key = new.key → prev = old := fun prev hprev hk =>
    Table.eq_of_key_eq hs.keyed hprev hold (hk.trans hkey)
  constructor
  · intro prev hprev hk happroved
    obtain rfl := hsame prev hprev hk
    rcases happroval happroved with hkeeps | hfree
    · exact .inl ⟨WatchType.noConfusion, hkeeps⟩
    · exact .inr hfree
  · intro prev hprev hk before hbefore
    obtain rfl := hsame prev hprev hk
    exact ⟨WatchType.noConfusion, fun after hafter => hroot before after hbefore hafter⟩

theorem Guarded.same_spec (hs : Store.Sound s) {old new : HomeObject} (hold : old ∈ s.objects)
    (hkey : new.key = old.key) (hspec : new.spec = old.spec) : Guarded s ⟨.Modified, new⟩ := by
  refine .rewrite hs hold hkey (fun happroved => .inl (by rwa [hspec])) ?_
  intro before after hbefore hafter
  rw [hspec, hbefore] at hafter
  cases hafter
  exact .inl rfl

theorem Guarded.removed (hs : Store.Sound s) {old : HomeObject} (hold : old ∈ s.objects)
    (hcluster : ∀ before, old.spec ≠ .Cluster before)
    (happroval : Admission.approves old.spec = true →
      (s.list (some .Job)).any (Admission.boundTo old.metadata.name) = false) :
    Guarded s ⟨.Deleted, rewritten s old⟩ := by
  have hsame : ∀ prev ∈ s.objects, prev.key = (rewritten s old).key → prev = old :=
    fun prev hprev hk => Table.eq_of_key_eq hs.keyed hprev hold hk
  constructor
  · intro prev hprev hk happroved
    obtain rfl := hsame prev hprev hk
    exact .inr (happroval happroved)
  · intro prev hprev hk before hbefore
    obtain rfl := hsame prev hprev hk
    exact absurd hbefore (hcluster before)

-- The checks on the root speak of Clusters only.
theorem root_kept {before after : Spec} (h : Admission.validateRootChange s before after = .ok ()) :
    ∀ b a, before = .Cluster b → after = .Cluster a → b.libraryRoot = a.libraryRoot ∨
      (s.list (some .Job)).any (Admission.activeUnder a.libraryRoot) = false := by
  rintro b a rfl rfl
  exact Admission.validateRootChange_ok h

end Guards

theorem accepted_ok {env : Env} {name : Text} {objects : List HomeObject} {revision : Int}
    {request : HomeObject} (h : Sync.accepted env name objects revision = .ok request) :
    ∃ status, request = .new .Sync name (.Sync {}) (.Sync status) ∧
      status.phase = .WaitingInventory ∧ status.acceptanceRv = revision := by
  unfold Sync.accepted at h
  split at h
  · cases h
  split at h
  · obtain ⟨-, h₁⟩ := Checks.ite_ok h
    cases h₁
    exact ⟨_, rfl, rfl, rfl⟩
  · cases h

variable [UnicodeTables] {s : Store}

theorem Effect.done (s : Store) : Effect s s :=
  .Writes (.Done s) (.inl (Nat.zero_le 1))

theorem Effect.single {ev : StoreEvent} (h : Write s ev) (hp : Plain ev) :
    Effect s (s.write ev) := .Writes (.single ⟨h, hp⟩) (.inl (Nat.le_refl 1))

theorem Effect.update {obj : HomeObject} (ht : Typed s) (h : Write s ⟨.Modified, obj⟩)
    (hkind : obj.kind ≠ .Sync) : Effect s (s.write ⟨.Modified, obj⟩) :=
  .single h (.of_kind (h.typed ht).1 hkind fun h => WatchType.noConfusion h)

-- A row of another kind changes in any way the store allows.
theorem other_update {old new : HomeObject} (hs : Store.Sound s) (hold : old ∈ s.objects)
    (hkey : new.key = old.key) (huid : new.metadata.uid = old.metadata.uid)
    (hgen : new.metadata.generation = if new.spec = old.spec then old.metadata.generation
      else old.metadata.generation + 1)
    (hrv : new.metadata.resourceVersion = s.rv + 1) (hkind : isLifecycle new.kind = false)
    (hagrees : new.Agrees) (hversion : new.apiVersion = homeApiVersion)
    (hguarded : Guarded s ⟨.Modified, new⟩) : Effect s (s.write ⟨.Modified, new⟩) := by
  have hfound : s.get new.kind new.metadata.name = some old := by
    have hget := hs.get_of_mem hold
    rwa [← (Prod.mk.inj hkey).1, ← (Prod.mk.inj hkey).2] at hget
  have hsync : new.kind ≠ .Sync := by
    intro h
    simp [h, isLifecycle] at hkind
  exact .single (.Other hkind (.Update old ⟨rfl, hfound, fun _ => huid, hgen, hrv⟩) hagrees hversion
    hguarded) (.of_kind hagrees hsync fun h => WatchType.noConfusion h)

theorem reapply_effect (hs : Store.Sound s) (ht : Typed s) {obj old : HomeObject}
    (hvalid : obj.Valid) (hsync : obj.kind ≠ .Sync)
    (hold : s.get obj.kind obj.metadata.name = some old)
    (hadmitted : Admission.ReapplyAdmitted s obj old) :
    Effect s (s.write ⟨.Modified, reapplied s obj old⟩) := by
  have hmem := Store.get_mem hold
  have hkey := Store.get_key hold
  have hkind : old.kind = obj.kind := congrArg Prod.fst hkey
  have hname : old.metadata.name = obj.metadata.name := congrArg Prod.snd hkey
  have hversion := ht.version old hmem
  have hagrees := ht.agrees old hmem
  by_cases hjob : obj.kind = .Job
  · -- The Job keeps its spec and its status.
    obtain ⟨spec, hspec⟩ := specOf_job hvalid.agrees hjob
    have hsame := hadmitted.job hjob
    have hrow : reapplied s obj old = rewritten s old := by
      have hstatus : obj.spec.isStatusOnly = false := by rw [hspec]; rfl
      simp only [reapplied, rewritten, hsame.symm, hstatus, hkind.symm, hname.symm, hversion.symm,
        if_true, Bool.false_eq_true, if_false]
    rw [hrow]
    have holdKind := hkind.trans hjob
    exact .update ht (.Job (.Reapplied old hmem holdKind)) (by simp [rewritten, holdKind])
  by_cases htitle : obj.kind = .Title
  · obtain ⟨spec, hspec⟩ := specOf_title hvalid.agrees htitle
    have hid := hvalid.spec
    rw [hspec] at hid
    obtain ⟨_, -, hguard⟩ := Checks.bind_ok hid
    have hnamed := not_not.mp (Checks.ite_ok hguard).1
    have hrow : reapplied s obj old = rewritten s { old with
        spec := .Title spec
        metadata := { old.metadata with
          generation := if .Title spec = old.spec then old.metadata.generation
            else old.metadata.generation + 1 } } := by
      have hstatus : obj.spec.isStatusOnly = false := by rw [hspec]; rfl
      simp only [reapplied, rewritten, hspec, hkind, hname, hversion, Spec.isStatusOnly,
        Bool.false_eq_true, if_false]
    rw [hrow]
    have holdKind := hkind.trans htitle
    exact .update ht (.Title (.Respecified old spec hmem holdKind
      (hnamed.symm.trans hname.symm) _ rfl)) (by simp [rewritten, holdKind])
  · refine other_update hs hmem hkey.symm rfl rfl rfl (isLifecycle_false hjob htitle hsync) ?_ rfl
      (.rewrite hs hmem hkey.symm (fun happroved => ?_) (root_kept hadmitted.root))
    · refine ⟨hvalid.agrees.1, ?_⟩
      simp only [reapplied]
      split
      · exact hvalid.agrees.2
      · rw [hagrees.2, hkind]
    · -- An approving row is a Hold, whose spec an apply keeps.
      have hhold : obj.kind = .Hold := by
        rw [← hkind, ← hagrees.1]
        exact approves_kind happroved
      left
      simpa only [reapplied, hadmitted.hold hhold] using happroved

theorem apply_effect (hs : Store.Sound s) (ht : Typed s) (env : Env) (view : Store) (actor : Actor)
    (obj : HomeObject) : Effect s (Serve.apply env view s actor obj).2 := by
  unfold Serve.apply
  split
  · exact .done s
  next hadmit =>
    obtain ⟨hop, hrest⟩ := Checks.seq_ok hadmit
    have hval := (Checks.when_ok hrest).2
    have hsync := admitted_apply (admitOp_ok hop)
    have hvalid := Admission.validateApply_valid hval
    rcases apply_cases hs obj hvalid.name with hsame | ⟨old, hold, hrv, hwrite⟩ | ⟨habsent, hwrite⟩
    · rw [Serve.reply, hsame]
      exact .done s
    · rw [Serve.reply, hwrite]
      exact reapply_effect hs ht hvalid hsync hold (Admission.validateApply_some hval hold)
    · rw [Serve.reply, hwrite]
      obtain ⟨hunsynced, hinitial⟩ := Admission.validateApply_none hval habsent
      by_cases hjob : obj.kind = .Job
      · obtain ⟨spec, hspec⟩ := specOf_job hvalid.agrees hjob
        obtain ⟨hnode, hstatus⟩ := Admission.validateInitial_job hspec hinitial
        have hrow : (⟨.Added, freshlyApplied s obj⟩ : StoreEvent) =
            Store.scheduledJob obj.metadata.name spec (s.rv + 1) := by
          simp only [freshlyApplied, Store.scheduledJob, hjob, hspec, hstatus, reduceCtorEq, if_false]
        rw [hrow]
        have hnew : (HomeObject.new .Job obj.metadata.name (.Job spec)
            (StatusBody.empty .Job)).Valid := by
          refine ⟨rfl, ⟨rfl, rfl⟩, hvalid.name, ?_, ?_⟩
          · simpa only [HomeObject.new, hspec] using hvalid.spec
          · simpa only [HomeObject.new, hspec, hstatus, hjob] using hvalid.status
        rw [hjob] at habsent
        have hplain : Admission.isSyncJob (.Job spec) = false := by rwa [hspec] at hunsynced
        exact .single (.Job (.Created _ spec habsent hnew hnode))
          (.of_kind ⟨rfl, rfl⟩ Kind.noConfusion fun _ => hplain)
      by_cases htitle : obj.kind = .Title
      · have hwant : ¬obj.kind = .Want := by rw [htitle]; decide
        rw [htitle] at habsent
        have hnew : (freshlyApplied s obj).Valid := by
          refine ⟨rfl, ⟨hvalid.agrees.1, ?_⟩, hvalid.name, hvalid.spec, ?_⟩
          · simpa only [freshlyApplied, if_neg hwant] using hvalid.agrees.2
          · simpa only [freshlyApplied, if_neg hwant] using hvalid.status
        refine .single (.Title (.Created _ htitle habsent hnew rfl ?_ rfl))
          (.of_kind hnew.agrees hsync fun _ => hunsynced)
        simp only [freshlyApplied, htitle]
      · have hagrees : (freshlyApplied s obj).Agrees := by
          refine ⟨hvalid.agrees.1, ?_⟩
          simp only [freshlyApplied]
          split
          · next hwant => simp [hwant]
          · exact hvalid.agrees.2
        exact .single (.Other (isLifecycle_false hjob htitle hsync)
          (.Create ⟨rfl, habsent, rfl, rfl, rfl⟩) hagrees rfl (.created habsent))
          (.of_kind hagrees hsync fun _ => hunsynced)

theorem statusPatch_effect (hs : Store.Sound s) (ht : Typed s) {disk : Disk} {actor : Actor}
    {old : HomeObject} {status : StatusBody} {verifyDisk : Bool} (hold : old ∈ s.objects)
    (hsync : old.kind ≠ .Sync)
    (h : Admission.validateStatusPatch disk s actor old status verifyDisk = .ok ()) :
    Effect s (s.write ⟨.Modified, rewritten s { old with status }⟩) := by
  have hvalid := Admission.validateStatusPatch_valid h
  have hagrees := ht.agrees old hold
  by_cases hjob : old.kind = .Job
  · obtain ⟨spec, hspec⟩ := specOf_job hagrees hjob
    obtain ⟨before, hbefore⟩ := statusOf_job hagrees hjob
    obtain ⟨after, rfl⟩ := statusOf_job hvalid.agrees hjob
    exact .update ht (.Job (.Reported old spec before after hold hjob hspec hbefore hvalid
      (Admission.validateStatusPatch_job h hspec hbefore))) hsync
  by_cases htitle : old.kind = .Title
  · obtain ⟨spec, hspec⟩ := specOf_title hagrees htitle
    obtain ⟨after, rfl⟩ := statusOf_title hvalid.agrees htitle
    exact .update ht (.Title (.Observed old after hold htitle hvalid fun file hfile =>
      Admission.validateStatusPatch_title h hspec hfile)) hsync
  · exact other_update hs hold rfl rfl (by simp [rewritten]) rfl
      (isLifecycle_false hjob htitle hsync) hvalid.agrees hvalid.version
      (.same_spec hs hold rfl rfl)

theorem specPatch_effect (hs : Store.Sound s) (ht : Typed s) {env : Env} {old : HomeObject} {spec : Spec}
    (hold : old ∈ s.objects) (hsync : old.kind ≠ .Sync) (hjob : old.kind ≠ .Job)
    (h : Admission.validateSpecPatch env s old spec = .ok ()) :
    Effect s (s.write ⟨.Modified, respecified s old spec⟩) := by
  have hadmitted := Admission.validateSpecPatch_ok (ht.agrees old hold) h
  have hvalid := hadmitted.valid
  by_cases htitle : old.kind = .Title
  · obtain ⟨after, hafter⟩ := specOf_title hvalid.agrees htitle
    cases hafter
    obtain ⟨_, -, hguard⟩ := Checks.bind_ok hvalid.spec
    exact .update ht (.Title (.Respecified old after hold htitle
      (not_not.mp (Checks.ite_ok hguard).1).symm _ rfl)) hsync
  · exact other_update hs hold rfl rfl rfl rfl (isLifecycle_false hjob htitle hsync)
      hvalid.agrees hvalid.version
      (.rewrite hs hold rfl hadmitted.hold (root_kept hadmitted.root))

theorem bind_effect (ht : Typed s) {env : Env} {obj old : HomeObject} (hkind : obj.kind = .Job)
    (hold : s.get obj.kind obj.metadata.name = some old)
    (hadmitted : Admission.validateBind env s old obj.spec = .ok ()) :
    Effect s (Serve.patchWrite s .PatchBind obj).2 := by
  obtain ⟨before, worker, status, hspec, hworker, hstatus, hbind⟩ :=
    Admission.validateBind_ok hadmitted
  have hmem := Store.get_mem hold
  have hkey := Store.get_key hold
  have holdKind : old.kind = .Job := (congrArg Prod.fst hkey).trans hkind
  rw [hkind] at hold
  have hnew : Serve.bindSpec s obj = .ok (.Job (boundSpec before)) := by
    simp only [Serve.bindSpec, hworker, hold, Option.map_some, hspec, hbind.node, hbind.worker]
    rfl
  simp only [Serve.patchWrite, hkind, ne_eq, not_true_eq_false, if_false, hnew, Serve.reply]
  rcases patchSpec_cases ht .Job obj.metadata.name _ obj.metadata.resourceVersion with
    hsame | ⟨found, hfound, -, hwrite⟩
  · rw [hsame]
    exact .done s
  · rw [hwrite]
    obtain rfl : old = found := by rw [hold] at hfound; exact Option.some.inj hfound
    -- The stored spec is unbound, so a bind always changes it.
    rw [respecified, hspec, if_neg (boundSpec_ne hbind.unbound)]
    exact .update ht
      (.Job (.Bound old before worker status env.disk hmem holdKind hspec hstatus hbind))
      (by simp [rewritten, holdKind])

theorem patch_effect (hs : Store.Sound s) (ht : Typed s) (env : Env) (view : Store) (actor : Actor)
    (op : HomeOp) (obj : HomeObject) : Effect s (Serve.patch env view s actor op obj).2 := by
  unfold Serve.patch
  split
  · exact .done s
  next hadmit =>
    obtain ⟨hop, hrest⟩ := Checks.seq_ok hadmit
    have hadmitted := admitOp_ok hop
    obtain ⟨old, hcurrent, hcheck⟩ := Checks.bind_ok (Checks.when_ok hrest).2
    obtain ⟨hold, hrv⟩ := Admission.current_ok hcurrent
    have hmem := Store.get_mem hold
    have hkind : old.kind = obj.kind := congrArg Prod.fst (Store.get_key hold)
    cases op with
    | PatchStatus =>
        simp only [Serve.patchWrite, Serve.reply]
        rcases patchStatus_cases ht obj.kind obj.metadata.name obj.status
          obj.metadata.resourceVersion with hsame | ⟨found, hfound, -, hwrite⟩
        · rw [hsame]
          exact .done s
        · rw [hwrite]
          obtain rfl : old = found := by rw [hold] at hfound; exact Option.some.inj hfound
          exact statusPatch_effect hs ht hmem (hkind ▸ admitted_patchStatus hadmitted) hcheck
    | PatchSpec =>
        obtain ⟨hsync, hjob⟩ := admitted_patchSpec hadmitted
        simp only [Serve.patchWrite, Serve.reply]
        rcases patchSpec_cases ht obj.kind obj.metadata.name obj.spec
          obj.metadata.resourceVersion with hsame | ⟨found, hfound, -, hwrite⟩
        · rw [hsame]
          exact .done s
        · rw [hwrite]
          obtain rfl : old = found := by rw [hold] at hfound; exact Option.some.inj hfound
          exact specPatch_effect hs ht hmem (hkind ▸ hsync) (hkind ▸ hjob) hcheck
    | PatchBind =>
        by_cases hjob : obj.kind = .Job
        · exact bind_effect ht hjob hold hcheck
        · simp only [Serve.patchWrite, ne_eq, hjob, not_false_eq_true, if_true]
          exact .done s
    | _ => cases hcheck

theorem delete_effect (hs : Store.Sound s) (ht : Typed s) (actor : Actor) (kind : Kind)
    (name : Text) (rv : Int) : Effect s (Serve.delete s actor kind name rv).2 := by
  unfold Serve.delete
  split
  · exact .done s
  next hadmit =>
    obtain ⟨hop, hval⟩ := Checks.seq_ok hadmit
    obtain ⟨htitle, hcluster⟩ := admitted_delete (admitOp_ok hop)
    have hdelete := Admission.validateDelete_ok hval
    rcases delete_cases ht kind name rv with hsame | ⟨old, hold, -, hwrite⟩
    · rw [Serve.reply, hsame]
      exact .done s
    · rw [Serve.reply, hwrite]
      have hmem := Store.get_mem hold
      have hkey := Store.get_key hold
      obtain rfl : old.kind = kind := congrArg Prod.fst hkey
      obtain rfl : old.metadata.name = name := congrArg Prod.snd hkey
      by_cases hjob : old.kind = .Job
      · exact .single (.Job (.Deleted old hmem hjob (hdelete.free old hold))) .deleted
      by_cases hsync : old.kind = .Sync
      · refine .single (.Sync (.Deleted old hmem hsync ?_)) .deleted
        simpa [hsync] using hdelete.sync
      · have hagrees := ht.agrees old hmem
        refine .single (.Other (isLifecycle_false hjob htitle hsync)
          (.Remove old ⟨rfl, hs.get_of_mem hmem, rfl⟩) hagrees (ht.version old hmem)
          (.removed hs hmem (fun before hbefore => ?_) fun happroved => ?_)) .deleted
        · have hspec := hagrees.1
          rw [hbefore] at hspec
          exact hcluster hspec.symm
        · exact hdelete.hold (hagrees.1.symm.trans (approves_kind happroved))

-- A status written over a row of another kind.
theorem otherStatus_effect (hs : Store.Sound s) (ht : Typed s) {kind : Kind} (name : Text)
    (status : StatusBody) (rv : Int) (hkind : isLifecycle kind = false)
    (hstatus : status.kind = kind) : Effect s (s.patchStatus kind name status rv).2 := by
  rcases patchStatus_cases ht kind name status rv with hsame | ⟨old, hold, -, hwrite⟩
  · rw [hsame]
    exact .done s
  · rw [hwrite]
    have hmem := Store.get_mem hold
    obtain rfl : old.kind = kind := congrArg Prod.fst (Store.get_key hold)
    exact other_update hs hmem rfl rfl (by simp [rewritten]) rfl hkind
      ⟨(ht.agrees old hmem).1, hstatus⟩ (ht.version old hmem) (.same_spec hs hmem rfl rfl)

theorem reconcile_effect (hs : Store.Sound s) (ht : Typed s) (actor : Actor) :
    Effect s (Serve.reconcile s actor).2 := by
  unfold Serve.reconcile
  split
  · exact .done s
  split
  · exact .done s
  split
  · exact otherStatus_effect hs ht _ _ _ rfl rfl
  · exact .done s

theorem sync_effect (hs : Store.Sound s) (env : Env) (actor : Actor) (requestId : Text) :
    Effect s (Serve.sync env s actor requestId).2 := by
  unfold Serve.sync
  split
  · exact .done s
  change Effect s (Sync.start env s requestId).2
  unfold Sync.start
  split
  · exact .done s
  next hid =>
    push Not at hid
    split
    · exact .done s
    next habsent =>
      dsimp only
      split
      · exact .done s
      next request hrequest =>
        obtain ⟨status, rfl, hphase, hacceptance⟩ := accepted_ok hrequest
        have heffect : Effect s (s.apply (.new .Sync requestId (.Sync {}) (.Sync status))).2 := by
          rcases apply_cases hs (.new .Sync requestId (.Sync {}) (.Sync status)) hid.1 with
            hsame | ⟨old, hold, -⟩ | ⟨-, hwrite⟩
          · rw [hsame]
            exact .done s
          · have hnone : s.get .Sync requestId = some old := hold
            rw [habsent] at hnone
            cases hnone
          · rw [hwrite]
            exact .single (.Sync (.Accepted _ status rfl ⟨rfl, rfl⟩ habsent hid.1 rfl rfl rfl rfl
              rfl hphase hacceptance)) (.of_phase (fun _ => rfl) rfl (.inl hphase))
        split <;> next heq => rwa [heq] at heffect

theorem beginInventory_effect (hs : Store.Sound s) (ht : Typed s) (env : Env) (actor : Actor) :
    Effect s (Serve.beginInventory env s actor).2 := by
  unfold Serve.beginInventory
  split
  · exact .done s
  change Effect s (Sync.beginInventory env s).2
  unfold Sync.beginInventory
  dsimp only
  split
  · split
    · exact otherStatus_effect hs ht _ _ _ rfl rfl
    · next status hstatus hprevious =>
        have hnone := Option.not_isSome_iff_eq_none.mp hprevious
        rw [hnone] at hstatus ⊢
        have heffect : ∀ status, Effect s
            (s.apply { Sync.inventoryNodeObject with status := .Node status }).2 := by
          intro status
          rcases apply_cases hs { Sync.inventoryNodeObject with status := .Node status }
            (show WorkerKind.Inventory.nodeName ≠ [] by decide) with hsame | ⟨old, hold, -, hwrite⟩ | ⟨habsent, hwrite⟩
          · rw [hsame]
            exact .done s
          · rw [hwrite]
            have hmem := Store.get_mem hold
            have hkind : old.kind = .Node := congrArg Prod.fst (Store.get_key hold)
            refine other_update hs hmem (Store.get_key hold).symm rfl rfl rfl rfl ⟨rfl, ?_⟩ rfl
              (.rewrite hs hmem (Store.get_key hold).symm (fun happroved => ?_) fun b a hb ha => ?_)
            · exact (ht.agrees old hmem).2.trans hkind
            · have hhold := approves_kind happroved
              rw [(ht.agrees old hmem).1, hkind] at hhold
              cases hhold
            · cases ha
          · rw [hwrite]
            exact .single (.Other rfl (.Create ⟨rfl, habsent, rfl, rfl, rfl⟩) ⟨rfl, rfl⟩ rfl
              (.created habsent))
              (.of_kind ⟨rfl, rfl⟩ Kind.noConfusion fun _ => rfl)
        have happly := heffect (Sync.scanStatus env (s.snapshot none).1 (s.snapshot none).2 status)
        split <;> next heq =>
          simp only [Option.getD_none] at heq
          rwa [heq] at happly
  · exact .done s

theorem serve_effect (hs : Store.Sound s) (ht : Typed s) (env : Env) (view : Store) (actor : Actor)
    (request : Serve.Request) : Effect s (Serve.serve env view s actor request).2 := by
  cases request with
  | Apply obj => exact apply_effect hs ht env view actor obj
  | Patch op obj => exact patch_effect hs ht env view actor op obj
  | Delete kind name rv => exact delete_effect hs ht actor kind name rv
  | Reconcile => exact reconcile_effect hs ht actor
  | Sync requestId => exact sync_effect hs env actor requestId
  | BeginInventory => exact beginInventory_effect hs ht env actor

end Mediaops.Api
