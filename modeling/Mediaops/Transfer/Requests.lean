import Mediaops.Library.Smooth
import Mediaops.Transfer.Schedule

namespace Mediaops.Transfer

-- The requests of a pull's loop: the loop with a log of them beside it.

section

variable [UnicodeTables] {W : Type} [Mounted W] (b3 : Bytes → Text)
  (remote : Text × List Component → Bytes) (spec : PullSpec) (layout : StagingLayout)

-- `finishRange`, which makes the one request for its task.
def finishRangeLogged (sidecar : Sidecar) (log : List (Nat × Nat)) (task : Nat × Nat) :
    Prog W TransferError (Sidecar × List (Nat × Nat)) := do
  let (offset, len) := task
  let bytes ← getRange remote spec offset len
  let log := log ++ [(offset, len)]
  if bytes.length ≠ len then throw (.ShortRange offset len bytes.length)
  writeRange layout.partialPath offset bytes
  let sidecar := sidecar.record offset len (b3 bytes)
  save layout.sidecar sidecar
  pure (sidecar, log)

def drainTasksLogged : Nat → List (Nat × Nat) → Sidecar → List (Nat × Nat) →
    Prog W TransferError (Sidecar × List (Nat × Nat))
  | 0, _, sidecar, log => pure (sidecar, log)
  | fuel + 1, tasks, sidecar, log => do
      let k ← pickTask tasks
      match tasks[k]? with
      | none => pure (sidecar, log)
      | some task =>
          let (sidecar, log) ← finishRangeLogged b3 remote spec layout sidecar log task
          drainTasksLogged fuel (tasks.eraseIdx k) sidecar log

def fetchRoundsLogged : Nat → List (Nat × Nat) → Sidecar → List (Nat × Nat) →
    Prog W TransferError (Sidecar × List (Nat × Nat))
  | 0, _, sidecar, log => pure (sidecar, log)
  | fuel + 1, todo, sidecar, log =>
      if todo = [] then pure (sidecar, log)
      else do
        let (batch, todo) := batchOf todo spec.concurrency
        let (sidecar, log) ←
          drainTasksLogged b3 remote spec layout batch.length batch sidecar log
        fetchRoundsLogged fuel todo sidecar log

section Log

variable {b3 remote spec layout}

theorem finishRange_logged (sidecar : Sidecar) (log : List (Nat × Nat)) (task : Nat × Nat) :
    (finishRange b3 remote spec layout sidecar task : Prog W TransferError Sidecar) =
      finishRangeLogged b3 remote spec layout sidecar log task >>= fun found => pure found.1 := by
  obtain ⟨offset, len⟩ := task
  simp only [finishRange, finishRangeLogged, Prog.bind_assoc]
  congr 1
  funext bytes
  by_cases hlen : bytes.length ≠ len
  · simp only [if_pos hlen]
    rfl
  · simp only [if_neg hlen, Prog.bind_assoc]
    rfl

theorem drainTasks_logged (fuel : Nat) (tasks : List (Nat × Nat)) (sidecar : Sidecar)
    (log : List (Nat × Nat)) :
    (drainTasks b3 remote spec layout fuel tasks sidecar : Prog W TransferError Sidecar) =
      drainTasksLogged b3 remote spec layout fuel tasks sidecar log >>= fun found =>
        pure found.1 := by
  induction fuel generalizing tasks sidecar log with
  | zero => rfl
  | succ fuel ih =>
      rw [drainTasks, drainTasksLogged, Prog.bind_assoc]
      congr 1
      funext k
      cases tasks[k]? with
      | none => rfl
      | some task =>
          simp only [finishRange_logged sidecar log task, Prog.bind_assoc]
          congr 1
          funext found
          exact ih _ found.1 found.2

-- The loop with its log dropped is the loop.
theorem fetchRounds_logged (fuel : Nat) (todo : List (Nat × Nat)) (sidecar : Sidecar)
    (log : List (Nat × Nat)) :
    (fetchRounds b3 remote spec layout fuel todo sidecar : Prog W TransferError Sidecar) =
      fetchRoundsLogged b3 remote spec layout fuel todo sidecar log >>= fun found =>
        pure found.1 := by
  induction fuel generalizing todo sidecar log with
  | zero => rfl
  | succ fuel ih =>
      rw [fetchRounds, fetchRoundsLogged]
      by_cases htodo : todo = []
      · rw [if_pos htodo, if_pos htodo]
        rfl
      · rw [if_neg htodo, if_neg htodo]
        simp only [drainTasks_logged _ _ sidecar log, Prog.bind_assoc]
        congr 1
        funext found
        exact ih _ found.1 found.2

end Log

section Gives

variable {b3 remote spec layout}

-- What a part of the loop returns after the requests `order`: these are all in the
-- log and on record, and nothing recorded is lost.
structure Requested (sidecar : Sidecar) (log order : List (Nat × Nat))
    (found : Sidecar × List (Nat × Nat)) : Prop where
  log : found.2 = log ++ order
  recorded : ∀ range ∈ order, found.1.has range.1 range.2 = true
  kept : ∀ offset len, sidecar.has offset len = true → found.1.has offset len = true

omit [UnicodeTables] in
theorem requested_none (sidecar : Sidecar) (log : List (Nat × Nat)) :
    Requested sidecar log [] (sidecar, log) :=
  ⟨(List.append_nil log).symm, by simp, fun _ _ h => h⟩

omit [UnicodeTables] in
theorem Requested.append {sidecar : Sidecar} {log order more : List (Nat × Nat)}
    {found found' : Sidecar × List (Nat × Nat)} (h : Requested sidecar log order found)
    (h' : Requested found.1 found.2 more found') : Requested sidecar log (order ++ more) found' where
  log := by rw [h'.log, h.log, List.append_assoc]
  recorded := by
    intro range hrange
    rcases List.mem_append.mp hrange with hrange | hrange
    · exact h'.kept _ _ (h.recorded range hrange)
    · exact h'.recorded range hrange
  kept := fun offset len hhas => h'.kept _ _ (h.kept offset len hhas)

theorem gives_finishRange (sidecar : Sidecar) (log : List (Nat × Nat)) (task : Nat × Nat) :
    Gives (finishRangeLogged b3 remote spec layout sidecar log task :
      Prog W TransferError (Sidecar × List (Nat × Nat))) (Requested sidecar log [task]) := by
  obtain ⟨offset, len⟩ := task
  refine (gives_any _).bind fun bytes _ => ?_
  apply gives_ite
  · intro _
    exact (gives_throw _).bind fun _ (h : False) => h.elim
  · intro _
    refine (gives_any _).bind fun _ _ => (gives_any _).bind fun _ _ => gives_pure ⟨rfl, ?_, ?_⟩
    · intro range hrange
      obtain rfl := List.mem_singleton.mp hrange
      exact Sidecar.has_record
    · exact fun offset len hhas => Sidecar.record_mono hhas

omit [UnicodeTables] in
theorem gives_pickTask {tasks : List (Nat × Nat)} (h : tasks ≠ []) :
    Gives (pickTask tasks : Prog W TransferError Nat) fun k => k < tasks.length := by
  apply gives_perform
  intro pick w k w' hrun
  obtain ⟨rfl, -⟩ := Prod.mk.inj (Except.ok.inj hrun)
  exact Nat.mod_lt _ (List.length_pos_iff.mpr h)

-- Every task in flight makes its request, in whatever order they end.
theorem gives_drainTasks (tasks : List (Nat × Nat)) (sidecar : Sidecar) (log : List (Nat × Nat)) :
    Gives (drainTasksLogged b3 remote spec layout tasks.length tasks sidecar log :
      Prog W TransferError (Sidecar × List (Nat × Nat)))
      fun found => ∃ order, order.Perm tasks ∧ Requested sidecar log order found := by
  obtain ⟨fuel, hfuel⟩ : ∃ fuel, tasks.length = fuel := ⟨_, rfl⟩
  rw [hfuel]
  induction fuel generalizing tasks sidecar log with
  | zero =>
      obtain rfl := List.length_eq_zero_iff.mp hfuel
      exact gives_pure ⟨[], .refl _, requested_none sidecar log⟩
  | succ fuel ih =>
      have hne : tasks ≠ [] := by
        rintro rfl
        cases hfuel
      rw [drainTasksLogged]
      refine (gives_pickTask hne).bind fun k hk => ?_
      rw [List.getElem?_eq_getElem hk]
      refine (gives_finishRange sidecar log tasks[k]).bind fun found hfound => ?_
      have hrest := ih (tasks.eraseIdx k) found.1 found.2 (by
        rw [List.length_eraseIdx_of_lt hk]
        omega)
      refine fun moves turn s result hran => ?_
      obtain ⟨order, hperm, hmore⟩ := hrest moves turn s result hran
      refine ⟨[tasks[k]] ++ order, ?_, hfound.append hmore⟩
      exact (hperm.cons _).trans (List.getElem_cons_eraseIdx_perm hk)

theorem gives_fetchRounds {fuel : Nat} {todo : List (Nat × Nat)} (hfuel : todo.length ≤ fuel)
    (sidecar : Sidecar) (log : List (Nat × Nat)) :
    Gives (fetchRoundsLogged b3 remote spec layout fuel todo sidecar log :
      Prog W TransferError (Sidecar × List (Nat × Nat)))
      fun found => ∃ order, order.Perm todo ∧ Requested sidecar log order found := by
  induction fuel generalizing todo sidecar log with
  | zero =>
      obtain rfl := List.length_eq_zero_iff.mp (Nat.le_zero.mp hfuel)
      exact gives_pure ⟨[], .refl _, requested_none sidecar log⟩
  | succ fuel ih =>
      rw [fetchRoundsLogged]
      apply gives_ite
      · rintro rfl
        exact gives_pure ⟨[], .refl _, requested_none sidecar log⟩
      · intro hne
        have hpos := List.length_pos_iff.mpr hne
        simp only [batchOf_eq]
        refine (gives_drainTasks _ sidecar log).bind ?_
        rintro found ⟨order, hperm, hfound⟩
        have hshort : (todo.drop (max spec.concurrency 1)).length ≤ fuel := by
          rw [List.length_drop]
          omega
        refine fun moves turn s result hran => ?_
        obtain ⟨more, hmore, hend⟩ := ih hshort found.1 found.2 moves turn s result hran
        refine ⟨order ++ more, ?_, hfound.append hend⟩
        exact (hperm.append hmore).trans (.of_eq (List.take_append_drop _ _))

end Gives

section Completes

variable {b3 remote spec layout}

-- Others leave the name of the partial file alone, which is a regular file.
def SameName (layout : StagingLayout) (w w' : W) : Prop :=
  (Mounted.volume w').files.node layout.partialPath =
    (Mounted.volume w).files.node layout.partialPath

def PartialThere (layout : StagingLayout) (w : W) : Prop :=
  ∃ i, (Mounted.volume w).files.node layout.partialPath = some (.File i)

omit [UnicodeTables] in
theorem completes_onVolume {α : Type} {A : α → Prop} {c : Call Volume TransferError α}
    (h : ∀ pick v, (∃ i, v.files.node layout.partialPath = some (.File i)) →
      ∃ a v', c.run pick v = .ok (a, v') ∧ A a ∧
        v'.files.node layout.partialPath = v.files.node layout.partialPath) :
    Completes (SameName (W := W) layout) (PartialThere layout) (onVolume c : Prog W TransferError α)
      fun a w => A a ∧ PartialThere layout w := by
  apply completes_perform
  · rintro w w' hsame ⟨i, hi⟩
    exact ⟨i, hsame.trans hi⟩
  · intro pick w hw
    obtain ⟨a, v', hrun, ha, hnode⟩ := h pick (Mounted.volume w) hw
    refine ⟨a, Mounted.mount v' w, by simp only [Call.on, hrun]; rfl, ha, ?_⟩
    obtain ⟨i, hi⟩ := hw
    exact ⟨i, by rw [Mounted.volume_mount, hnode, hi]⟩

-- The remote file has the bytes of the range.
def Remote (remote : Text × List Component → Bytes) (spec : PullSpec) (range : Nat × Nat) : Prop :=
  range.1 + range.2 ≤ (remote spec.remote.key).length

theorem completes_getRange {offset len : Nat} (h : Remote remote spec (offset, len)) :
    Completes (SameName (W := W) layout) (PartialThere layout)
      (getRange remote spec offset len : Prog W TransferError Bytes)
      fun bytes w => bytes.length = len ∧ PartialThere layout w := by
  apply completes_onVolume
  intro pick v _
  refine ⟨_, v, rfl, ?_, rfl⟩
  simp only [Remote] at h
  rw [Bytes.slice, List.length_take, List.length_drop]
  omega

omit [UnicodeTables] in
theorem completes_writeRange (offset : Nat) (bytes : Bytes) :
    Completes (SameName (W := W) layout) (PartialThere layout)
      (writeRange layout.partialPath offset bytes : Prog W TransferError Unit)
      fun _ w => True ∧ PartialThere layout w := by
  have hopen : Completes (SameName (W := W) layout) (PartialThere layout)
      (openFile (.Io layout.partialPath) layout.partialPath : Prog W TransferError Nat)
      fun _ w => True ∧ PartialThere layout w := by
    apply completes_onVolume
    rintro pick v ⟨i, hi⟩
    exact ⟨i, v, by simp only [hi]; rfl, trivial, rfl⟩
  have hwrite : ∀ i, Completes (SameName (W := W) layout) (PartialThere layout)
      (writeInto layout.partialPath i offset bytes : Prog W TransferError Unit)
      fun _ w => True ∧ PartialThere layout w := by
    intro i
    apply completes_onVolume
    exact fun pick v _ => ⟨(), _, rfl, trivial, rfl⟩
  have hstep : Completes (SameName (W := W) layout) (PartialThere layout)
      (step (.Io layout.partialPath) : Prog W TransferError Unit)
      fun _ w => True ∧ PartialThere layout w := by
    apply completes_onVolume
    exact fun pick v _ => ⟨(), v, rfl, trivial, rfl⟩
  refine hopen.bind fun i => ?_
  simp only [true_and] at hwrite hstep ⊢
  exact (hwrite i).bind fun _ => hstep

omit [UnicodeTables] in
theorem completes_save (path : Text) (sidecar : Sidecar) :
    Completes (SameName (W := W) layout) (PartialThere layout)
      (save path sidecar : Prog W TransferError Unit)
      fun _ w => True ∧ PartialThere layout w := by
  apply completes_onVolume
  exact fun pick v _ => ⟨(), _, rfl, trivial, rfl⟩

theorem completes_finishRange (sidecar : Sidecar) (log : List (Nat × Nat)) {task : Nat × Nat}
    (h : Remote remote spec task) :
    Completes (SameName (W := W) layout) (PartialThere layout)
      (finishRangeLogged b3 remote spec layout sidecar log task)
      fun _ w => PartialThere layout w := by
  obtain ⟨offset, len⟩ := task
  refine Completes.bind (completes_getRange h) fun bytes => ?_
  intro moves turn w hmoves ⟨hlen, hw⟩
  rw [if_neg (not_not.mpr hlen)]
  -- the length was checked, so the rest is run
  have hrest : Completes (SameName (W := W) layout) (PartialThere layout)
      (writeRange layout.partialPath offset bytes >>= fun _ =>
        save layout.sidecar (sidecar.record offset len (b3 bytes)) >>= fun _ =>
          (pure (sidecar.record offset len (b3 bytes), log ++ [(offset, len)]) :
            Prog W TransferError (Sidecar × List (Nat × Nat))))
      fun _ w => PartialThere layout w := by
    refine Completes.bind (completes_writeRange offset bytes) fun _ => ?_
    simp only [true_and]
    refine Completes.bind (completes_save layout.sidecar _) fun _ => ?_
    simp only [true_and]
    exact completes_pure fun _ hw => hw
  exact hrest moves turn w hmoves hw

theorem completes_drainTasks (tasks : List (Nat × Nat)) (sidecar : Sidecar) (log : List (Nat × Nat))
    (h : ∀ task ∈ tasks, Remote remote spec task) :
    Completes (SameName (W := W) layout) (PartialThere layout)
      (drainTasksLogged b3 remote spec layout tasks.length tasks sidecar log)
      fun _ w => PartialThere layout w := by
  obtain ⟨fuel, hfuel⟩ : ∃ fuel, tasks.length = fuel := ⟨_, rfl⟩
  rw [hfuel]
  clear hfuel
  induction fuel generalizing tasks sidecar log with
  | zero => exact completes_pure fun _ hw => hw
  | succ fuel ih =>
      have hpick : Completes (SameName (W := W) layout) (PartialThere layout)
          (pickTask tasks : Prog W TransferError Nat) fun _ w => True ∧ PartialThere layout w := by
        apply completes_onVolume
        exact fun pick v _ => ⟨_, v, rfl, trivial, rfl⟩
      rw [drainTasksLogged]
      refine hpick.bind fun k => ?_
      simp only [true_and]
      cases htask : tasks[k]? with
      | none => exact completes_pure fun _ hw => hw
      | some task =>
          have hmem := List.mem_of_getElem? htask
          refine Completes.bind (completes_finishRange sidecar log (h task hmem)) fun found => ?_
          exact ih _ found.1 found.2 fun other hother => h other (List.mem_of_mem_eraseIdx hother)

theorem completes_fetchRounds (fuel : Nat) (todo : List (Nat × Nat)) (sidecar : Sidecar)
    (log : List (Nat × Nat)) (h : ∀ task ∈ todo, Remote remote spec task) :
    Completes (SameName (W := W) layout) (PartialThere layout)
      (fetchRoundsLogged b3 remote spec layout fuel todo sidecar log)
      fun _ w => PartialThere layout w := by
  induction fuel generalizing todo sidecar log with
  | zero => exact completes_pure fun _ hw => hw
  | succ fuel ih =>
      rw [fetchRoundsLogged]
      by_cases htodo : todo = []
      · rw [if_pos htodo]
        exact completes_pure fun _ hw => hw
      · rw [if_neg htodo]
        simp only [batchOf_eq]
        refine Completes.bind (completes_drainTasks _ sidecar log fun task htask =>
          h task (List.mem_of_mem_take htask)) fun found => ?_
        exact ih _ found.1 found.2 fun task htask => h task (List.mem_of_mem_drop htask)

end Completes

end

-- No file has a second slot while a file with ranges has none.
def Fair (files : List PendingFile) (slots : List (Nat × Nat × Nat)) : Prop :=
  ∀ before slot after, slots = before ++ slot :: after → slot.1 ∈ before.map Prod.fst →
    ∀ file ∈ files, file.remaining ≠ [] → file.index ∈ before.map Prod.fst

-- The plan, the slots of a round, and the loop of a pull from the sidecar it starts
-- with: the loop is the one beside a log of its requests, which lists every missing
-- range once whenever it returns; and it returns where every call goes through.
theorem range_scheduling :
    (∀ fileLen rangeLen : UInt64, 0 < rangeLen →
      ∃ pieces, planRangesU64 fileLen rangeLen = some pieces ∧
        Tiles 0 fileLen.toNat (pieces.map fun piece => (piece.1.toNat, piece.2.toNat)) ∧
        ∀ piece ∈ pieces, 0 < piece.2 ∧ piece.2 ≤ rangeLen) ∧
    (∀ (files : List PendingFile) (n : Nat), (files.map PendingFile.index).Nodup →
      (files.map pendingBytes).sum < 2 ^ 64 →
      ∃ slots left, takeSlotsU64 files n = some (slots, left) ∧
        slots.length = min n (pendingRanges files) ∧ Draws files slots left ∧ Fair files slots) ∧
    ∀ [UnicodeTables] (W : Type) [Mounted W] (b3 : Bytes → Text)
      (remote : Text × List Component → Bytes) (spec : PullSpec) (layout : StagingLayout)
      (sidecar : Sidecar),
      let todo := remaining (planRanges spec.fileLen sidecar.rangeLen) sidecar
      let logged := fetchRoundsLogged b3 remote spec layout todo.length todo sidecar []
      (fetchRounds b3 remote spec layout todo.length todo sidecar : Prog W TransferError Sidecar) =
          (logged >>= fun found => pure found.1) ∧
        Gives (σ := W) logged (fun found => found.2.Perm todo ∧ found.2.Nodup ∧
          ∀ range ∈ planRanges spec.fileLen sidecar.rangeLen,
            found.1.has range.1 range.2 = true) ∧
        (spec.fileLen ≤ (remote spec.remote.key).length →
          Completes (SameName (W := W) layout) (PartialThere layout) logged fun _ _ => True) := by
  refine ⟨?_, ?_, ?_⟩
  · intro fileLen rangeLen hr
    have hpos : 0 < rangeLen.toNat := by simpa using UInt64.lt_iff_toNat_lt.mp hr
    obtain ⟨pieces, hpieces, hsame⟩ := planRangesU64_eq fileLen rangeLen
    refine ⟨pieces, hpieces, hsame ▸ planRanges_tiles fileLen.toNat hpos, ?_⟩
    intro piece hpiece
    have hplanned : (piece.1.toNat, piece.2.toNat) ∈ planRanges fileLen.toNat rangeLen.toNat :=
      hsame ▸ List.mem_map_of_mem hpiece
    have hsize := planRanges_sizes hpos _ hplanned
    rw [UInt64.lt_iff_toNat_lt, UInt64.le_iff_toNat_le]
    simpa using hsize
  · intro files n hdistinct hsum
    exact ⟨_, _, takeSlotsU64_eq hdistinct hsum, takeSlots_length hdistinct,
      takeSlots_draws hdistinct, fun before slot after htaken hsecond =>
        takeSlots_fair hdistinct htaken hsecond⟩
  · intro _ W _ b3 remote spec layout sidecar todo logged
    have hnodup : todo.Nodup := (planRanges_nodup _ _).filter _
    refine ⟨fetchRounds_logged _ _ _ _, ?_, ?_⟩
    · intro moves turn w found hran
      obtain ⟨order, hperm, hfound⟩ :=
        gives_fetchRounds (Nat.le_refl _) sidecar [] moves turn w found hran
      rw [hfound.log, List.nil_append]
      refine ⟨hperm, hperm.nodup_iff.mpr hnodup, fun range hrange => ?_⟩
      by_cases htodo : range ∈ todo
      · exact hfound.recorded range (hperm.symm.subset htodo)
      · exact hfound.kept _ _ (has_of_not_remaining hrange htodo)
    · intro hlen moves turn w hmoves hw
      have hremote : ∀ task ∈ todo, Remote remote spec task := by
        intro task htask
        exact (planRanges_within (List.mem_of_mem_filter htask)).trans hlen
      obtain ⟨found, hdone, -⟩ :=
        completes_fetchRounds todo.length todo sidecar [] hremote moves turn w hmoves hw
      exact ⟨found, hdone, trivial⟩

end Mediaops.Transfer
