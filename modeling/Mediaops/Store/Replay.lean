import Mediaops.Store.Runs

namespace Mediaops.Store

-- The watch history replays to the live rows.

-- `log` is everything recorded since the store was empty. The live rows are its
-- replay, and the history is what lies above the floor.
structure Journaled (log : List StoreEvent) (s : Store) : Prop where
  numbered : Journal.NumberedFrom StoreEvent.revision 0 log
  length : s.rv = log.length
  floorNonneg : 0 ≤ s.floor
  floorLe : s.floor ≤ s.rv
  history : s.history = log.filter fun ev => s.floor < ev.revision
  objects : s.objects = Journal.replay HomeObject.key [] (log.map StoreEvent.change)

theorem journaled_empty : Journaled [] empty where
  numbered := trivial
  length := rfl
  floorNonneg := le_refl 0
  floorLe := le_refl 0
  history := rfl
  objects := rfl

theorem Journaled.write {log : List StoreEvent} {s : Store} (h : Journaled log s)
    {ev : StoreEvent} (hfresh : Fresh s ev) : Journaled (log ++ [ev]) (s.write ev) := by
  have hrv : ev.revision = s.rv + 1 := hfresh
  have hlen := h.length
  have hfloor := h.floorLe
  have hnonneg := h.floorNonneg
  refine ⟨?_, ?_, ?_, ?_, ?_, ?_⟩
  · refine Journal.numberedFrom_append.mpr ⟨h.numbered, ?_, trivial⟩
    rw [hrv, hlen, Int.zero_add]
  · simp only [Store.write, List.length_append, List.length_singleton, hlen]
    omega
  · simp only [Store.write]
    omega
  · simp only [Store.write, watchHistoryLimit]
    omega
  · -- Trimming at the new boundary trims at the new floor, since nothing at or
    -- below the old floor was left.
    have hkeep : s.floor < ev.revision := by omega
    have hold : s.history ++ [ev] = (log ++ [ev]).filter fun old => s.floor < old.revision := by
      rw [List.filter_append, h.history, List.filter_cons_of_pos (by simpa using hkeep),
        List.filter_nil]
    simp only [Store.write, hold, List.filter_filter]
    refine List.filter_congr fun old _ => ?_
    rw [← Bool.decide_and, decide_eq_decide]
    omega
  · simp only [Store.write, h.objects, Journal.replay, List.map_append, List.map_cons,
      List.map_nil, List.foldl_append, List.foldl_cons, List.foldl_nil]

theorem Journaled.trail {log : List StoreEvent} {s s' : Store} (h : Journaled log s)
    {evs : List StoreEvent} (ht : Trail Fresh s evs s') : Journaled (log ++ evs) s' := by
  induction ht generalizing log with
  | Done s => simpa using h
  | Write hev _ ih => simpa using ih (h.write hev)

theorem Journaled.keyed {log : List StoreEvent} {s : Store} (h : Journaled log s) :
    Table.Keyed HomeObject.key s.objects := by
  have hempty : Table.Keyed HomeObject.key ([] : List HomeObject) := List.nodup_nil
  rw [h.objects]
  exact Journal.keyed_replay hempty _

theorem eventsAfter_above_floor (s : Store) (n : Nat) :
    s.eventsAfter (s.floor + n) =
      .ok (Journal.page StoreEvent.revision watchPageLimit s.history (s.floor + n)) := by
  rw [Store.eventsAfter, if_neg (by omega)]
  rfl

-- The history is numbered from the floor.
theorem Journaled.history_eq_drop {log : List StoreEvent} {s : Store} (h : Journaled log s) :
    s.history = log.drop s.floor.toNat := by
  have hfloor : ((s.floor.toNat : Nat) : Int) = s.floor := Int.toNat_of_nonneg h.floorNonneg
  have hdrop := h.numbered.filter_eq_drop s.floor.toNat
  rw [h.history, ← hdrop, hfloor]
  simp only [Int.zero_add]

theorem Journaled.history_numbered {log : List StoreEvent} {s : Store} (h : Journaled log s) :
    Journal.NumberedFrom StoreEvent.revision s.floor s.history := by
  have hlen := h.length
  have hle := h.floorLe
  have hfloor : ((s.floor.toNat : Nat) : Int) = s.floor := Int.toNat_of_nonneg h.floorNonneg
  have hd := h.numbered.drop (n := s.floor.toNat) (by omega)
  rwa [hfloor, Int.zero_add, ← h.history_eq_drop] at hd

-- From any cursor at or above the floor, paging returns the log after it.
theorem Journaled.drain {log : List StoreEvent} {s : Store} (h : Journaled log s) {cursor : Int}
    (hfloor : s.floor ≤ cursor) (hrv : cursor ≤ s.rv) (calls : Nat)
    (hcalls : (log.drop cursor.toNat).length < calls) :
    Journal.drain StoreEvent.revision s.eventsAfter calls cursor =
      some (.ok (log.drop cursor.toNat)) := by
  have hlen := h.length
  have hle := h.floorLe
  have hnonneg := h.floorNonneg
  have hcursor : cursor = s.floor + (((cursor - s.floor).toNat : Nat) : Int) := by omega
  have hhistory : s.history.length = log.length - s.floor.toNat := by
    rw [h.history_eq_drop, List.length_drop]
  have hdrop : s.history.drop (cursor - s.floor).toNat = log.drop cursor.toNat := by
    rw [h.history_eq_drop, List.drop_drop]
    congr 1
    omega
  rw [List.length_drop] at hcalls
  rw [hcursor, Journal.drain_numbered h.history_numbered (by decide) s.eventsAfter_above_floor _ _
    (by omega) (by omega), hdrop, ← hcursor]

theorem snapshot_perm (s : Store) (kind : Option Kind) :
    (s.snapshot kind).1.Perm (s.objects.filter (ofKind kind)) :=
  (List.perm_insertionSort _ _).trans (List.perm_insertionSort _ _)

theorem ofKind_key (kind : Option Kind) (a b : HomeObject) (h : a.key = b.key) :
    ofKind kind a = ofKind kind b := by
  have hk : a.kind = b.kind := congrArg Prod.fst h
  simp only [ofKind, hk]

section

variable [UnicodeTables]

theorem Journaled.exec {log : List StoreEvent} {s : Store} (h : Journaled log s) (call : Call) :
    ∃ evs, Journaled (log ++ evs) (exec s call).2 := by
  cases hres : Store.exec s call with
  | mk result s' =>
      cases result with
      | error e =>
          obtain rfl := exec_error hres
          exact ⟨[], by simpa using h⟩
      | ok obj =>
          obtain ⟨evs, -, ht⟩ := body_fresh (exec_ok hres)
          exact ⟨evs, h.trail ht⟩

theorem Journaled.run {log : List StoreEvent} {s : Store} (h : Journaled log s)
    (calls : List Call) : ∃ evs, Journaled (log ++ evs) (run s calls) := by
  induction calls generalizing log s with
  | nil => exact ⟨[], by rwa [List.append_nil]⟩
  | cons call calls ih =>
      obtain ⟨evs, hexec⟩ := h.exec call
      obtain ⟨evs', hrun⟩ := ih hexec
      exact ⟨evs ++ evs', by rwa [← List.append_assoc]⟩

-- A watcher that has the snapshot of an earlier state and pages through the
-- history from its revision ends with the rows of the current state.
theorem watch_replay_lossless (pre post : List Call) (kind : Option Kind) :
    ((run empty (pre ++ post)).floor ≤ ((run empty pre).snapshot kind).2 →
      ∃ events : List StoreEvent,
        (∀ calls, events.length < calls →
          Journal.drain StoreEvent.revision (run empty (pre ++ post)).eventsAfter calls
            ((run empty pre).snapshot kind).2 = some (.ok events)) ∧
        Journal.NumberedFrom StoreEvent.revision ((run empty pre).snapshot kind).2 events ∧
        ((run empty pre).snapshot kind).2 + events.length = (run empty (pre ++ post)).rv ∧
        events.Pairwise (fun a b => a.revision < b.revision) ∧
        (Journal.replay HomeObject.key ((run empty pre).snapshot kind).1
          ((events.filter fun ev => ofKind kind ev.object).map StoreEvent.change)).Perm
          ((run empty (pre ++ post)).objects.filter (ofKind kind))) ∧
    (∀ after < (run empty (pre ++ post)).floor,
      (run empty (pre ++ post)).eventsAfter after =
        .error (.Home (.Expired after (min ((run empty (pre ++ post)).floor + 1) i64Max)))) := by
  obtain ⟨log, hpre⟩ := journaled_empty.run pre
  rw [List.nil_append] at hpre
  obtain ⟨events, hpost⟩ := hpre.run post
  rw [← run_append] at hpost
  have hcursor : ((run empty pre).snapshot kind).2 = (log.length : Int) := hpre.length
  have hlen := hpost.length
  rw [List.length_append] at hlen
  have hdrop : (log ++ events).drop ((log.length : Int).toNat) = events := by simp
  have hnumbered := (Journal.numberedFrom_append.mp hpost.numbered).2
  rw [Int.zero_add] at hnumbered
  rw [hcursor]
  constructor
  · intro hfloor
    refine ⟨events, ?_, hnumbered, ?_, hnumbered.pairwise, ?_⟩
    · intro calls hcalls
      have hd := hpost.drain hfloor (by omega) calls (by rwa [hdrop])
      rwa [hdrop] at hd
    · omega
    · have hkeyed : Table.Keyed HomeObject.key ((run empty pre).objects.filter (ofKind kind)) :=
        List.Nodup.sublist (List.filter_sublist.map _) hpre.keyed
      have hfilter := Journal.filter_replay (ofKind kind) (ofKind_key kind) (run empty pre).objects
        (events.map StoreEvent.change)
      have hobjects : (run empty (pre ++ post)).objects =
          Journal.replay HomeObject.key (run empty pre).objects (events.map StoreEvent.change) := by
        rw [hpost.objects, hpre.objects, List.map_append, Journal.replay_append]
      have hchanges : (events.map StoreEvent.change).filter (fun change => ofKind kind change.row) =
          (events.filter fun ev => ofKind kind ev.object).map StoreEvent.change := by
        rw [List.filter_map]
        congr 2
        funext ev
        simp only [Function.comp_apply, StoreEvent.row_change]
      rw [hobjects, hfilter, hchanges]
      exact Journal.perm_replay (snapshot_perm _ kind) (hkeyed.perm (snapshot_perm _ kind).symm) _
  · intro after hafter
    rw [Store.eventsAfter, if_pos hafter]
    rfl

end

def sampleWant : HomeObject :=
  .new .Want "movie-tmdb-1" (.Want { titleId := "movie-tmdb-1" }) (StatusBody.empty .Want)

-- A Want is created, the watcher takes its snapshot, the Want is deleted.
theorem watch_replay_after_delete :
    letI := UnicodeTables.ascii
    let pre : List Call := [{ op := .Apply sampleWant (by decide) }]
    let post : List Call := [{ op := .Delete .Want "movie-tmdb-1" 1 }]
    (run empty (pre ++ post)).objects = [] ∧ (run empty (pre ++ post)).rv = 2 ∧
      ∃ events, (∀ calls, events.length < calls →
        Journal.drain StoreEvent.revision (run empty (pre ++ post)).eventsAfter calls 1 =
          some (.ok events)) ∧ events.length = 1 := by
  let := UnicodeTables.ascii
  have h := watch_replay_lossless [{ op := .Apply sampleWant (by decide) }]
    [{ op := .Delete .Want "movie-tmdb-1" 1 }] none
  obtain ⟨events, hdrain, -, hrv, -⟩ := h.1 (by decide +kernel)
  refine ⟨by decide +kernel, by decide +kernel, events, hdrain, ?_⟩
  have hsnapshot : ((run empty [{ op := .Apply sampleWant (by decide) }]).snapshot none).2 = 1 := by
    decide +kernel
  have hend : (run empty ([{ op := .Apply sampleWant (by decide) }] ++
      [{ op := .Delete .Want "movie-tmdb-1" 1 }])).rv = 2 := by decide +kernel
  rw [hsnapshot, hend] at hrv
  omega

end Mediaops.Store
