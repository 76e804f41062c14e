import Mediaops.Store.Runs

namespace Mediaops.Store

-- Revisions, identities and generations over whole runs.

theorem uidOf_injective {kind : Kind} {m n : Int} (hm : 0 ≤ m) (hn : 0 ≤ n)
    (h : uidOf kind m = uidOf kind n) : m = n := by
  unfold uidOf at h
  exact Text.decimalInt_injective hm hn (List.append_cancel_left h)

theorem uidOf_ne_nil (kind : Kind) (rv : Int) : uidOf kind rv ≠ [] := by
  simp [uidOf]

-- The identity of a row is the revision it was created at, and each row holds
-- the revision of its last write.
structure Sound (s : Store) : Prop where
  counter : 0 ≤ s.rv
  keyed : Table.Keyed HomeObject.key s.objects
  revisions : ∀ a ∈ s.objects, ∀ b ∈ s.objects,
    a.metadata.resourceVersion = b.metadata.resourceVersion → a = b
  bound : ∀ obj ∈ s.objects,
    0 < obj.metadata.resourceVersion ∧ obj.metadata.resourceVersion ≤ s.rv
  uids : ∀ obj ∈ s.objects, ∃ born, 0 < born ∧ born ≤ s.rv ∧
    obj.metadata.uid = uidOf obj.kind born
  uidsDistinct : ∀ a ∈ s.objects, ∀ b ∈ s.objects, a.kind = b.kind →
    a.metadata.uid = b.metadata.uid → a = b

theorem sound_empty : Sound empty where
  counter := le_refl 0
  keyed := List.nodup_nil
  revisions := by simp [empty]
  bound := by simp [empty]
  uids := by simp [empty]
  uidsDistinct := by simp [empty]

namespace Sound

variable {s : Store} {ev : StoreEvent}

theorem get_of_mem (h : Sound s) {obj : HomeObject} (hobj : obj ∈ s.objects) :
    s.get obj.kind obj.metadata.name = some obj := Table.lookup_of_mem h.keyed hobj

theorem uid_ne_nil (h : Sound s) {obj : HomeObject} (hobj : obj ∈ s.objects) :
    obj.metadata.uid ≠ [] := by
  obtain ⟨born, -, -, huid⟩ := h.uids obj hobj
  rw [huid]
  exact uidOf_ne_nil _ _

-- The rows after a write are the written row and the rows of other names.
theorem mem_write (h : Sound s) {obj : HomeObject} (hobj : obj ∈ (s.write ev).objects) :
    (ev.watch ≠ .Deleted ∧ obj = ev.object) ∨ (obj ∈ s.objects ∧ obj.key ≠ ev.object.key) := by
  obtain ⟨watch, new⟩ := ev
  cases watch with
  | Deleted => exact .inr (Table.mem_erase.mp hobj)
  | Added => exact ((Table.mem_upsert h.keyed).mp hobj).imp (fun e => ⟨by simp, e⟩) id
  | Modified => exact ((Table.mem_upsert h.keyed).mp hobj).imp (fun e => ⟨by simp, e⟩) id

theorem keyed_write (h : Sound s) : Table.Keyed HomeObject.key (s.write ev).objects :=
  Journal.keyed_applyChange h.keyed ev.change

theorem mem_write_self (hw : ev.watch ≠ .Deleted) : ev.object ∈ (s.write ev).objects := by
  obtain ⟨watch, new⟩ := ev
  cases watch with
  | Deleted => exact absurd rfl hw
  | Added => exact Table.mem_upsert_self new s.objects
  | Modified => exact Table.mem_upsert_self new s.objects

theorem mem_write_of_ne (h : Sound s) {obj : HomeObject} (hobj : obj ∈ s.objects)
    (hne : obj.key ≠ ev.object.key) : obj ∈ (s.write ev).objects := by
  obtain ⟨watch, new⟩ := ev
  cases watch with
  | Deleted => exact Table.mem_erase.mpr ⟨hobj, hne⟩
  | Added => exact (Table.mem_upsert h.keyed).mpr (.inr ⟨hobj, hne⟩)
  | Modified => exact (Table.mem_upsert h.keyed).mpr (.inr ⟨hobj, hne⟩)

end Sound

-- The later object is the earlier one rewritten: same name and identity, and the
-- generation counts the changes of its spec.
structure Evolves (prev obj : HomeObject) : Prop where
  key : prev.key = obj.key
  uid : prev.metadata.uid = obj.metadata.uid
  generation : obj.metadata.generation =
    if obj.spec = prev.spec then prev.metadata.generation else prev.metadata.generation + 1

theorem Evolves.refl (obj : HomeObject) : Evolves obj obj := ⟨rfl, rfl, by simp⟩

-- An object of a name that was free, with an identity the store has not reached.
def BornAfter (s : Store) (obj : HomeObject) : Prop :=
  s.get obj.kind obj.metadata.name = none ∧
    ∃ born, s.rv < born ∧ obj.metadata.uid = uidOf obj.kind born

-- Where a row comes from, over one write.
theorem Change.origin {s : Store} {ev : StoreEvent} (hs : Sound s) (hc : Change s ev)
    {obj : HomeObject} (hobj : obj ∈ (s.write ev).objects) :
    (∃ prev ∈ s.objects, Evolves prev obj) ∨ (obj = ev.object ∧ Created s ev) := by
  rcases hs.mem_write hobj with ⟨hw, rfl⟩ | ⟨hold, -⟩
  · cases hc with
    | Create hc => exact .inr ⟨rfl, hc⟩
    | Update prev hc =>
        have hprev := get_mem hc.found
        exact .inl ⟨prev, hprev, get_key hc.found, (hc.uid (hs.uid_ne_nil hprev)).symm,
          hc.generation⟩
    | Remove prev hc => exact absurd hc.watch hw
  · exact .inl ⟨obj, hold, .refl obj⟩

theorem Change.revision_eq {s : Store} {ev : StoreEvent} (hc : Change s ev) :
    ev.object.metadata.resourceVersion = s.rv + 1 := hc.fresh

theorem Sound.write {s : Store} {ev : StoreEvent} (hs : Sound s) (hc : Change s ev) :
    Sound (s.write ev) := by
  have hcounter := hs.counter
  have hrv := hc.revision_eq
  have hnext : (s.write ev).rv = s.rv + 1 := rfl
  refine ⟨?_, hs.keyed_write, ?_, ?_, ?_, ?_⟩
  · omega
  · intro a ha b hb hab
    rcases hs.mem_write ha with ⟨-, rfl⟩ | ⟨ha, -⟩ <;>
      rcases hs.mem_write hb with ⟨-, rfl⟩ | ⟨hb, -⟩
    · rfl
    · have := (hs.bound b hb).2
      omega
    · have := (hs.bound a ha).2
      omega
    · exact hs.revisions a ha b hb hab
  · intro obj hobj
    rcases hs.mem_write hobj with ⟨-, rfl⟩ | ⟨hold, -⟩
    · omega
    · have := hs.bound obj hold
      omega
  · intro obj hobj
    rcases hc.origin hs hobj with ⟨prev, hprev, hev⟩ | ⟨rfl, hnew⟩
    · obtain ⟨born, hpos, hle, huid⟩ := hs.uids prev hprev
      have hkind : prev.kind = obj.kind := congrArg Prod.fst hev.key
      exact ⟨born, hpos, by omega, by rw [← hev.uid, huid, hkind]⟩
    · exact ⟨s.rv + 1, by omega, by omega, hnew.uid⟩
  · -- Two rows with one identity come from one row, or one of them is new and the
    -- other is older than its identity.
    have hnew : ∀ {a b : HomeObject}, b ∈ s.objects → a.kind = b.kind →
        a.metadata.uid = uidOf a.kind (s.rv + 1) → a.metadata.uid ≠ b.metadata.uid := by
      intro a b hb hkind huid heq
      obtain ⟨born, hpos, hle, hborn⟩ := hs.uids b hb
      rw [huid, hborn, hkind] at heq
      have := uidOf_injective (by omega) (by omega) heq
      omega
    intro a ha b hb hkind huid
    refine Table.eq_of_key_eq hs.keyed_write ha hb ?_
    rcases hc.origin hs ha with ⟨pa, hpa, hea⟩ | ⟨rfl, hca⟩ <;>
      rcases hc.origin hs hb with ⟨pb, hpb, heb⟩ | ⟨rfl, hcb⟩
    · have hka : pa.kind = a.kind := congrArg Prod.fst hea.key
      have hkb : pb.kind = b.kind := congrArg Prod.fst heb.key
      have hpab := hs.uidsDistinct pa hpa pb hpb (by rw [hka, hkb, hkind])
        (by rw [hea.uid, heb.uid, huid])
      rw [← hea.key, ← heb.key, hpab]
    · have hka : pa.kind = a.kind := congrArg Prod.fst hea.key
      exact absurd (by rw [hea.uid, huid]) (hnew hpa (by rw [hka, hkind]) hcb.uid)
    · have hkb : pb.kind = b.kind := congrArg Prod.fst heb.key
      exact absurd (by rw [heb.uid, huid]) (hnew hpb (by rw [hkb, hkind]) hca.uid)
    · rfl


theorem Created.bornAfter {s : Store} {ev : StoreEvent} (h : Created s ev) :
    BornAfter s ev.object := ⟨h.absent, s.rv + 1, by omega, h.uid⟩

-- What a sequence of creations does: nothing is lost, and what is new is new.
structure Grown (s s' : Store) : Prop where
  sound : Sound s'
  counter : s.rv ≤ s'.rv
  kept : ∀ obj ∈ s.objects, obj ∈ s'.objects
  added : ∀ obj ∈ s'.objects, obj ∈ s.objects ∨ BornAfter s obj

theorem BornAfter.of_grown {s s₁ : Store} (h : Grown s s₁) {obj : HomeObject}
    (hb : BornAfter s₁ obj) : BornAfter s obj := by
  obtain ⟨habsent, born, hborn, huid⟩ := hb
  refine ⟨?_, born, lt_of_le_of_lt h.counter hborn, huid⟩
  cases hget : s.get obj.kind obj.metadata.name with
  | none => rfl
  | some prev =>
      have hmem := h.kept prev (get_mem hget)
      exact absurd (get_key hget) (Table.lookup_none habsent hmem)

theorem Trail.grown {s s' : Store} {evs : List StoreEvent} (h : Trail Created s evs s')
    (hs : Sound s) : Grown s s' := by
  induction h with
  | Done s => exact ⟨hs, le_refl _, fun _ h => h, fun _ h => .inl h⟩
  | @Write s s' ev evs hev _ ih =>
      have hgrown := ih (hs.write (.Create hev))
      have hcounter := hgrown.counter
      have hnext : (s.write ev).rv = s.rv + 1 := rfl
      have hfirst : Grown s (s.write ev) := by
        refine ⟨hs.write (.Create hev), by omega, fun obj hobj => ?_, fun obj hobj => ?_⟩
        · exact hs.mem_write_of_ne hobj (Table.lookup_none hev.absent hobj)
        · rcases hs.mem_write hobj with ⟨-, rfl⟩ | ⟨hold, -⟩
          · exact .inr hev.bornAfter
          · exact .inl hold
      refine ⟨hgrown.sound, by omega, fun obj hobj => hgrown.kept _ (hfirst.kept _ hobj),
        fun obj hobj => ?_⟩
      rcases hgrown.added obj hobj with hmid | hborn
      · exact hfirst.added obj hmid
      · exact .inr (hborn.of_grown hfirst)

-- The effect of one call on the identities of the store.
structure Stepped (s s' : Store) : Prop where
  sound : Sound s'
  counter : s.rv ≤ s'.rv
  origin : ∀ obj ∈ s'.objects, (∃ prev ∈ s.objects, Evolves prev obj) ∨ BornAfter s obj

theorem Stepped.refl {s : Store} (hs : Sound s) : Stepped s s :=
  ⟨hs, le_refl _, fun obj hobj => .inl ⟨obj, hobj, .refl obj⟩⟩

section

variable [UnicodeTables]

theorem stepped_of_body {s s' : Store} {op : Op} {obj : HomeObject} (hs : Sound s)
    (hf : op.Faithful s) (h : Tx.Yields op.body s obj s') : Stepped s s' ∧ s.rv < s'.rv := by
  obtain ⟨evs, s₁, ev, htrail, hchange, rfl⟩ := body_shape hf h
  have hgrown := htrail.grown hs
  have hcounter := hgrown.counter
  have hnext : (s₁.write ev).rv = s₁.rv + 1 := rfl
  refine ⟨⟨hgrown.sound.write hchange, by omega, fun obj hobj => ?_⟩, by omega⟩
  rcases hchange.origin hgrown.sound hobj with ⟨prev, hprev, hev⟩ | ⟨rfl, hnew⟩
  · rcases hgrown.added prev hprev with hold | hborn
    · exact .inl ⟨prev, hold, hev⟩
    · -- Rewriting a row created in the same call keeps its new identity.
      obtain ⟨habsent, born, hborn, huid⟩ := hborn
      have hkind : prev.kind = obj.kind := congrArg Prod.fst hev.key
      have hname : prev.metadata.name = obj.metadata.name := congrArg Prod.snd hev.key
      refine .inr ⟨by rwa [hkind, hname] at habsent, born, hborn, ?_⟩
      rw [← hev.uid, huid, hkind]
  · exact .inr (hnew.bornAfter.of_grown hgrown)

theorem exec_stepped {s : Store} (hs : Sound s) {call : Call} (hf : call.op.Faithful s) :
    Stepped s (exec s call).2 := by
  cases hres : exec s call with
  | mk result s' =>
      cases result with
      | error e =>
          obtain rfl := exec_error hres
          exact .refl hs
      | ok obj => exact (stepped_of_body hs hf (exec_ok hres)).1

-- Every call of the run hands `schedule_sync` the stored Sync.
def FaithfulRun : Store → List Call → Prop
  | _, [] => True
  | s, call :: calls => call.op.Faithful s ∧ FaithfulRun (exec s call).2 calls

theorem faithfulRun_append {s : Store} {pre post : List Call} :
    FaithfulRun s (pre ++ post) ↔ FaithfulRun s pre ∧ FaithfulRun (run s pre) post := by
  induction pre generalizing s with
  | nil => exact ⟨fun h => ⟨trivial, h⟩, fun h => h.2⟩
  | cons call pre ih =>
      have hstep := ih (s := (exec s call).2)
      simp only [List.cons_append, FaithfulRun, hstep, and_assoc]
      rfl

theorem run_sound {s : Store} (hs : Sound s) {calls : List Call} (hf : FaithfulRun s calls) :
    Sound (run s calls) := by
  induction calls generalizing s with
  | nil => exact hs
  | cons call calls ih => exact ih (exec_stepped hs hf.1).sound hf.2

theorem run_counter {s : Store} (hs : Sound s) {calls : List Call} (hf : FaithfulRun s calls) :
    s.rv ≤ (run s calls).rv := by
  induction calls generalizing s with
  | nil => exact le_refl _
  | cons call calls ih =>
      have hstep := exec_stepped hs hf.1
      exact le_trans hstep.counter (ih hstep.sound hf.2)

-- Two rows of one kind and identity, one of an earlier and one of a later state,
-- are one object that was there all the time in between.
theorem same_incarnation {s : Store} (hs : Sound s) {calls : List Call}
    (hf : FaithfulRun s calls) {a b : HomeObject} (ha : a ∈ s.objects)
    (hb : b ∈ (run s calls).objects) (hkind : a.kind = b.kind)
    (huid : a.metadata.uid = b.metadata.uid) :
    a.key = b.key ∧ ∀ mid, mid <+: calls →
      ∃ c ∈ (run s mid).objects, c.key = a.key ∧ c.metadata.uid = a.metadata.uid := by
  induction calls using List.reverseRecOn generalizing b with
  | nil =>
      obtain rfl := hs.uidsDistinct a ha b hb hkind huid
      refine ⟨rfl, fun mid hmid => ⟨a, ?_, rfl, rfl⟩⟩
      rwa [List.prefix_nil.mp hmid]
  | append_singleton calls call ih =>
      obtain ⟨hpre, hcall, -⟩ := faithfulRun_append.mp hf
      have hstep := exec_stepped (run_sound hs hpre) hcall
      have hb' := hb
      rw [run_concat] at hb'
      rcases hstep.origin b hb' with ⟨prev, hprev, hev⟩ | ⟨-, born, hborn, hnew⟩
      · have hk : prev.kind = b.kind := congrArg Prod.fst hev.key
        obtain ⟨hkey, hmid⟩ := ih hpre hprev (hkind.trans hk.symm) (huid.trans hev.uid.symm)
        refine ⟨hkey.trans hev.key, fun mid hm => ?_⟩
        rcases List.prefix_concat_iff.mp hm with rfl | hm
        · exact ⟨b, hb, (hkey.trans hev.key).symm, huid.symm⟩
        · exact hmid mid hm
      · -- An identity given out by this call is later than every one in use before.
        obtain ⟨born', hpos, hle, hborn'⟩ := hs.uids a ha
        have hcounter := run_counter hs hpre
        rw [hnew, hborn', hkind] at huid
        have := uidOf_injective (by omega) (by omega) huid
        omega

end

-- The object a call is about and the revision it carries for it.
def Op.target : Op → Kind × Text
  | Apply obj _ =>
      (obj.kind, if obj.metadata.name = [] then defaultName obj.kind else obj.metadata.name)
  | PatchStatus name status _ => (status.kind, name)
  | PatchSpec name spec _ => (spec.kind, name)
  | Delete kind name _ => (kind, name)
  | ScheduleSync _ request _ _ => (.Sync, request.metadata.name)

def Op.version : Op → Int
  | Apply obj _ => obj.metadata.resourceVersion
  | PatchStatus _ _ expectedRv | PatchSpec _ _ expectedRv | Delete _ _ expectedRv => expectedRv
  | ScheduleSync _ request _ _ => request.metadata.resourceVersion

section

variable [UnicodeTables]

theorem body_version {s s' : Store} {op : Op} {obj prev : HomeObject}
    (h : Tx.Yields op.body s obj s') (hprev : s.get op.target.1 op.target.2 = some prev) :
    op.version = prev.metadata.resourceVersion := by
  cases op with
  | Apply arg _ =>
      obtain ⟨⟨written, watch⟩, s₁, ha, -⟩ := Tx.yields_bind h
      obtain ⟨name, made, rfl, hover, -⟩ := yields_applyTx ha
      simp only [Op.target] at hprev
      rw [hprev] at hover
      exact (applyOver_some hover).2.1
  | PatchStatus name status rv =>
      obtain ⟨found, hfound, hrv, -⟩ := yields_patchStatusTx h
      simp only [Op.target] at hprev
      rw [hprev] at hfound
      cases hfound
      exact hrv
  | PatchSpec name spec rv =>
      obtain ⟨found, hfound, hrv, -⟩ := yields_patchSpecTx h
      simp only [Op.target] at hprev
      rw [hprev] at hfound
      cases hfound
      exact hrv
  | Delete kind name rv =>
      obtain ⟨found, hfound, hrv, -⟩ := yields_deleteTx h
      simp only [Op.target] at hprev
      rw [hprev] at hfound
      cases hfound
      exact hrv
  | ScheduleSync rv request _ now =>
      obtain ⟨stored, status, entries, s₁, -, hstored, hrv, -⟩ := yields_scheduleSyncTx h
      simp only [Op.target] at hprev
      rw [hprev] at hstored
      cases hstored
      exact hrv.symm

-- What a call promises on the state it is made in.
structure CallContract (s : Store) (call : Call) : Prop where
  monotone : s.rv ≤ (exec s call).2.rv
  strict : ∀ obj, (exec s call).1 = .ok obj → s.rv < (exec s call).2.rv
  failure : ∀ e, (exec s call).1 = .error e → (exec s call).2 = s
  version : ∀ obj, (exec s call).1 = .ok obj → ∀ prev,
    s.get call.op.target.1 call.op.target.2 = some prev →
      call.op.version = prev.metadata.resourceVersion
  generation : ∀ prev ∈ s.objects, ∀ obj ∈ (exec s call).2.objects, prev.key = obj.key →
    obj.metadata.generation =
      if obj.spec = prev.spec then prev.metadata.generation else prev.metadata.generation + 1

theorem callContract {s : Store} (hs : Sound s) {call : Call} (hf : call.op.Faithful s) :
    CallContract s call := by
  have hstep := exec_stepped hs hf
  refine ⟨hstep.counter, fun obj hok => ?_, fun e herr => ?_, fun obj hok prev hprev => ?_, ?_⟩
  · exact (stepped_of_body hs hf (exec_ok (Prod.ext hok rfl))).2
  · exact exec_error (Prod.ext herr rfl)
  · exact body_version (exec_ok (Prod.ext hok rfl)) hprev
  · intro prev hprev obj hobj hkey
    rcases hstep.origin obj hobj with ⟨prev', hprev', hev⟩ | ⟨habsent, -⟩
    · obtain rfl := Table.eq_of_key_eq hs.keyed hprev hprev' (hkey.trans hev.key.symm)
      exact hev.generation
    · exact absurd hkey (Table.lookup_none habsent hprev)

-- The contract of the store, over every run of any calls with any faults.
theorem store_contract (calls : List Call) (hf : FaithfulRun empty calls) :
    ((run empty calls).objects.map fun obj => obj.metadata.resourceVersion).Nodup ∧
      (∀ obj ∈ (run empty calls).objects, obj.metadata.resourceVersion ≤ (run empty calls).rv) ∧
      (∀ call : Call, call.op.Faithful (run empty calls) → CallContract (run empty calls) call) ∧
      (∀ pre, pre <+: calls → ∀ a ∈ (run empty pre).objects, ∀ b ∈ (run empty calls).objects,
        a.kind = b.kind → a.metadata.uid = b.metadata.uid →
          a.metadata.name = b.metadata.name ∧ ∀ mid, pre <+: mid → mid <+: calls →
            ∃ c ∈ (run empty mid).objects, c.key = a.key ∧ c.metadata.uid = a.metadata.uid) := by
  have hs := run_sound sound_empty hf
  refine ⟨?_, fun obj hobj => (hs.bound obj hobj).2, fun call hcall => callContract hs hcall, ?_⟩
  · exact List.Nodup.map_on hs.revisions (List.Nodup.of_map _ hs.keyed)
  · rintro pre ⟨post, rfl⟩ a ha b hb hkind huid
    obtain ⟨hpre, hpost⟩ := faithfulRun_append.mp hf
    rw [run_append] at hb
    obtain ⟨hkey, hmid⟩ := same_incarnation (run_sound sound_empty hpre) hpost ha hb hkind huid
    refine ⟨congrArg Prod.snd hkey, ?_⟩
    rintro mid ⟨more, rfl⟩ hm
    obtain ⟨c, hc, hrest⟩ := hmid more ((List.prefix_append_right_inj pre).mp hm)
    exact ⟨c, by rwa [run_append], hrest⟩

end

-- A Want is created, deleted and created again: the second one is `want-3`.
theorem store_contract_recreated :
    let := UnicodeTables.ascii
    let want : HomeObject := .new .Want "movie-tmdb-1" (.Want { titleId := "movie-tmdb-1" })
      (StatusBody.empty .Want)
    let calls : List Call := [{ op := .Apply want (by decide) },
      { op := .Delete .Want "movie-tmdb-1" 1 }, { op := .Apply want (by decide) }]
    FaithfulRun empty calls ∧
      ((run empty calls).objects.map fun obj => obj.metadata.uid) = ["want-3".toList] ∧
      ((run empty calls).objects.map fun obj => obj.metadata.resourceVersion).Nodup := by
  intro _ want calls
  have hf : FaithfulRun empty calls := ⟨trivial, trivial, trivial, trivial⟩
  exact ⟨hf, by decide +kernel, (store_contract calls hf).1⟩

end Mediaops.Store
