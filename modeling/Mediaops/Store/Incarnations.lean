import Mediaops.Library.Incarnations
import Mediaops.Library.Text.Lemmas
import Mediaops.Store.Replay
import Mediaops.Store.Revisions

namespace Mediaops.Store

-- The writes of the store as a log of incarnations: a row keeps its uid until it is
-- deleted, and no uid comes back.

-- A change whose tombstone carries the uid of the row it ends.
structure Lawful (s : Store) (ev : StoreEvent) : Prop where
  change : Change s ev
  ended : ∀ prev, ev.watch = .Deleted →
    s.get ev.object.kind ev.object.metadata.name = some prev →
      ev.object.metadata.uid = prev.metadata.uid

theorem Created.lawful {s : Store} {ev : StoreEvent} (h : Created s ev) : Lawful s ev where
  change := .Create h
  ended _ hwatch _ := by
    rw [h.watch] at hwatch
    cases hwatch

section Calls

variable [UnicodeTables]

omit [UnicodeTables] in
theorem lawful_applyTx {arg obj : HomeObject} {watch : WatchType} {s s' : Store}
    (h : Tx.Yields (applyTx arg) s (obj, watch) s') :
    Lawful s ⟨watch, obj.row⟩ ∧ s' = s.write ⟨watch, obj.row⟩ := by
  obtain ⟨hchange, hwrite⟩ := change_applyTx h
  refine ⟨⟨hchange, fun prev hdeleted _ => ?_⟩, hwrite⟩
  obtain ⟨name, made, -, hover, -, -⟩ := yields_applyTx h
  have hwatch : watch = .Deleted := hdeleted
  cases hget : s.get arg.kind name with
  | none =>
      rw [hget] at hover
      rw [(applyOver_none hover).1] at hwatch
      cases hwatch
  | some old =>
      rw [hget] at hover
      rw [(applyOver_some hover).1] at hwatch
      cases hwatch

-- What a call that went through has written.
theorem body_lawful {s s' : Store} {op : Op} {obj : HomeObject} (hf : op.Faithful s)
    (h : Tx.Yields op.body s obj s') : ∃ evs, Trail Lawful s evs s' := by
  have hmodified : ∀ {s : Store} {new : HomeObject},
      Change s ⟨.Modified, new⟩ → Lawful s ⟨.Modified, new⟩ :=
    fun hchange => ⟨hchange, fun _ hdeleted _ => by cases hdeleted⟩
  cases op with
  | Apply arg _ =>
      obtain ⟨⟨written, watch⟩, s₁, ha, hp⟩ := Tx.yields_bind h
      obtain ⟨rfl, rfl⟩ := Tx.yields_pure hp
      obtain ⟨hlawful, rfl⟩ := lawful_applyTx ha
      exact ⟨_, .single hlawful⟩
  | PatchStatus name status rv =>
      obtain ⟨prev, s₁, hg, hm⟩ := Tx.yields_bind h
      obtain ⟨hprev, -, rfl⟩ := yields_getExpected hg
      obtain ⟨hchange, rfl⟩ := change_modify hprev hm rfl rfl (by simp)
      exact ⟨_, .single (hmodified hchange)⟩
  | PatchSpec name spec rv =>
      obtain ⟨prev, s₁, hg, hm⟩ := Tx.yields_bind h
      obtain ⟨hprev, -, rfl⟩ := yields_getExpected hg
      obtain ⟨hchange, rfl⟩ := change_modify hprev hm rfl rfl (by simp [eq_comm])
      exact ⟨_, .single (hmodified hchange)⟩
  | Delete kind name rv =>
      obtain ⟨prev, hprev, -, rfl, rfl⟩ := yields_deleteTx h
      obtain ⟨hkind, hname⟩ := Prod.mk.inj (get_key hprev)
      have hfound : s.get prev.kind prev.metadata.name = some prev := by rw [hkind, hname, hprev]
      refine ⟨_, .single ⟨.Remove prev ⟨rfl, hfound, rfl⟩, fun other _ hother => ?_⟩⟩
      obtain rfl := Option.some.inj (hfound.symm.trans hother)
      rfl
  | ScheduleSync rv request agrees now =>
      obtain ⟨evs, s₁, htrail, hchange, rfl⟩ := change_scheduled hf h
      exact ⟨_, (htrail.mono fun _ _ hcreated => hcreated.lawful).append
        (.single (hmodified hchange))⟩

theorem exec_lawful {s : Store} {call : Call} (hf : call.op.Faithful s) :
    ∃ evs, Trail Lawful s evs (exec s call).2 := by
  cases hres : exec s call with
  | mk result s' =>
      cases result with
      | error e =>
          obtain rfl := exec_error hres
          exact ⟨[], .Done s'⟩
      | ok obj => exact body_lawful hf (exec_ok hres)

-- Every run of the store is a trail of lawful writes.
theorem run_lawful {s : Store} {calls : List Call} (hf : FaithfulRun s calls) :
    ∃ evs, Trail Lawful s evs (run s calls) := by
  induction calls generalizing s with
  | nil => exact ⟨[], .Done s⟩
  | cons call calls ih =>
      obtain ⟨evs, hexec⟩ := exec_lawful hf.1
      obtain ⟨evs', hrest⟩ := ih hf.2
      exact ⟨evs ++ evs', hexec.append hrest⟩

end Calls

section Log

def evKey (ev : StoreEvent) : Kind × Text := ev.object.key

def evUid (ev : StoreEvent) : Text := ev.object.metadata.uid

def evDead (ev : StoreEvent) : Bool := ev.watch = .Deleted

-- The row that an event leaves under its key.
def rowAfter : Option StoreEvent → Option HomeObject
  | some ev => if ev.watch = .Deleted then none else some ev.object
  | none => none

theorem decimalInt_dash {n : Int} (hn : 0 ≤ n) : '-' ∉ Text.decimalInt n := by
  intro h
  rw [Text.decimalInt, if_neg (by omega)] at h
  exact absurd (Text.isDigit_decimal h) (by decide)

-- A uid tells its revision, whatever the kind.
theorem uidOf_revision {kind kind' : Kind} {m n : Int} (hm : 0 ≤ m) (hn : 0 ≤ n)
    (h : uidOf kind m = uidOf kind' n) : m = n := by
  have hsplit := congrArg (Text.rsplitOnce '-') h
  have huid : ∀ (kind : Kind) (n : Int), uidOf kind n =
      kind.storeKey ++ '-' :: Text.decimalInt n := fun kind n => by simp [uidOf]
  rw [huid, huid, Text.rsplitOnce_append _ (decimalInt_dash hm),
    Text.rsplitOnce_append _ (decimalInt_dash hn)] at hsplit
  exact Text.decimalInt_injective hm hn (Prod.mk.inj (Option.some.inj hsplit)).2

-- A store and everything that was ever written to it.
structure Logged (log : List StoreEvent) (s : Store) : Prop where
  sound : Sound s
  journaled : Journaled log s
  lawful : Incarnations.Lawful evKey evUid evDead log
  rows : ∀ kind name, s.get kind name =
    rowAfter (Incarnations.lastOf evKey (kind, name) log)
  uids : ∀ ev ∈ log, ∃ born, 0 < born ∧ born ≤ s.rv ∧ evUid ev = uidOf ev.object.kind born

theorem logged_empty : Logged [] empty where
  sound := sound_empty
  journaled := journaled_empty
  lawful := .Start
  rows _ _ := rfl
  uids _ h := by cases h

namespace Logged

variable {log : List StoreEvent} {s : Store}

theorem follows (h : Logged log s) {ev : StoreEvent} (hev : Lawful s ev) :
    Incarnations.Follows evKey evUid evDead log ev := by
  have hrow := h.rows ev.object.kind ev.object.metadata.name
  have hlast : ∀ prev, s.get ev.object.kind ev.object.metadata.name = some prev →
      ∃ last, Incarnations.lastOf evKey (evKey ev) log = some last ∧ evDead last = false ∧
        last.object = prev := by
    intro prev hprev
    rw [hrow] at hprev
    cases hfind : Incarnations.lastOf evKey (ev.object.kind, ev.object.metadata.name) log with
    | none =>
        rw [hfind] at hprev
        cases hprev
    | some last =>
        rw [hfind] at hprev
        simp only [rowAfter] at hprev
        split_ifs at hprev with hdeleted
        exact ⟨last, hfind, by simpa [evDead] using hdeleted, Option.some.inj hprev⟩
  cases hev.change with
  | Create hc =>
      refine .inr ⟨fun last hfind => ?_, by simp [evDead, hc.watch], fun old hold huid => ?_⟩
      · have habsent := hc.absent
        rw [hrow] at habsent
        have hfind' : Incarnations.lastOf evKey
            (ev.object.kind, ev.object.metadata.name) log = some last := hfind
        rw [hfind'] at habsent
        simp only [rowAfter] at habsent
        split_ifs at habsent with hdeleted
        simpa [evDead] using hdeleted
      · obtain ⟨born, hpos, hle, hborn⟩ := h.uids old hold
        have hcounter := h.sound.counter
        have hsame : uidOf old.object.kind born = uidOf ev.object.kind (s.rv + 1) := by
          rw [← hborn, huid]
          exact hc.uid
        have hrv := uidOf_revision (by omega) (by omega) hsame
        omega
  | Update prev hc =>
      obtain ⟨last, hfind, hlive, rfl⟩ := hlast prev hc.found
      exact .inl ⟨last, hfind, hlive, hc.uid (h.sound.uid_ne_nil (get_mem hc.found))⟩
  | Remove prev hc =>
      obtain ⟨last, hfind, hlive, rfl⟩ := hlast prev hc.found
      exact .inl ⟨last, hfind, hlive, hev.ended _ hc.watch hc.found⟩

theorem write (h : Logged log s) {ev : StoreEvent} (hev : Lawful s ev) :
    Logged (log ++ [ev]) (s.write ev) where
  sound := h.sound.write hev.change
  journaled := h.journaled.write hev.change.fresh
  lawful := .Next h.lawful (h.follows hev)
  rows kind name := by
    rw [Incarnations.lastOf_append]
    by_cases hkey : evKey ev = (kind, name)
    · rw [if_pos hkey]
      obtain ⟨rfl, rfl⟩ := Prod.mk.inj hkey
      by_cases hdeleted : ev.watch = .Deleted
      · simp only [rowAfter, if_pos hdeleted]
        obtain ⟨watch, obj⟩ := ev
        obtain rfl : watch = .Deleted := hdeleted
        exact Table.lookup_erase_self _ _
      · simp only [rowAfter, if_neg hdeleted]
        exact get_write_self hdeleted
    · rw [if_neg hkey, get_write_of_ne hkey, h.rows]
  uids old hold := by
    have hcounter := h.sound.counter
    have hnext : (s.write ev).rv = s.rv + 1 := rfl
    rcases List.mem_append.mp hold with hold | hold
    · obtain ⟨born, hpos, hle, hborn⟩ := h.uids old hold
      exact ⟨born, hpos, by omega, hborn⟩
    · obtain rfl := List.mem_singleton.mp hold
      have hkept : ∀ prev, s.get old.object.kind old.object.metadata.name = some prev →
          old.object.metadata.uid = prev.metadata.uid →
          ∃ born, 0 < born ∧ born ≤ (s.write old).rv ∧ evUid old = uidOf old.object.kind born := by
        intro prev hprev huid
        obtain ⟨born, hpos, hle, hborn⟩ := h.sound.uids prev (get_mem hprev)
        have hkind : prev.kind = old.object.kind := congrArg Prod.fst (get_key hprev)
        exact ⟨born, hpos, by omega, by rw [evUid, huid, hborn, hkind]⟩
      cases hev.change with
      | Create hc => exact ⟨s.rv + 1, by omega, by omega, hc.uid⟩
      | Update prev hc =>
          exact hkept prev hc.found (hc.uid (h.sound.uid_ne_nil (get_mem hc.found)))
      | Remove prev hc => exact hkept prev hc.found (hev.ended prev hc.watch hc.found)

theorem trail (h : Logged log s) {evs : List StoreEvent} {s' : Store}
    (ht : Trail Lawful s evs s') : Logged (log ++ evs) s' := by
  induction ht generalizing log with
  | Done s => simpa using h
  | Write hev _ ih => simpa using ih (h.write hev)

-- The revision of an event is its place in the log.
theorem revision_eq (h : Logged log s) {i : Nat} {ev : StoreEvent} (hev : log[i]? = some ev) :
    ev.object.metadata.resourceVersion = (i : Int) + 1 := by
  obtain ⟨hlen, rfl⟩ := List.getElem?_eq_some_iff.mp hev
  have hdrop := h.journaled.numbered.drop (Nat.le_of_lt hlen)
  rw [List.drop_eq_getElem_cons hlen] at hdrop
  have hrev := hdrop.1
  rw [Int.zero_add] at hrev
  exact hrev

end Logged

end Log

end Mediaops.Store
